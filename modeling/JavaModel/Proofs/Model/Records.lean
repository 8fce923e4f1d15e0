import JavaModel.Proofs.Grammar.Records
import JavaModel.Proofs.Model.Contents

/-! What a record has. The members that its head stands for come first, a field for each component
and the constructor that takes them, and behind them those that its body declares. The events of the
head stand directly in the class that they begin, and what else is told directly in it is not from
the head of another record, since that stands in the class it begins. -/

namespace JavaModel

open Grammar

variable {α : Type} {pick : Event → Option α} {es fs : List Event} {i : ClassIndex}

/-! ### Members one behind the other -/

theorem innermost?_flat (h : Flat fs) (es : List Event) :
    innermost? (es ++ fs) = innermost? es := by
  induction fs using List.reverseRecOn with
  | nil => rw [List.append_nil]
  | append_singleton fs e ih =>
    obtain ⟨hfs, he⟩ := List.forall_mem_append.mp h
    obtain ⟨hbegins, hends⟩ := he e (List.mem_singleton_self e)
    rw [← List.append_assoc, innermost?, List.reverse_concat, openBack_cons hbegins hends]
    exact ih hfs

theorem innermost?_begun (es : List Event) (c : Written.Class) :
    innermost? (es ++ [.beginClass c]) = some ⟨classesBegun es⟩ := by
  rw [innermost?, List.reverse_concat, openBack_beginClass, classesBegun, List.countP_reverse]
  rfl

/-- What is told directly in a class grows only by what is told there. -/
theorem toldIn_append (pick : Event → Option α) (i : ClassIndex) (es fs : List Event) :
    ∃ own, toldIn i pick (es ++ fs) = toldIn i pick es ++ own ∧
      ∀ t ∈ own, ∃ before e after, fs = before ++ e :: after ∧ pick e = some t.decl ∧
        innermost? (es ++ before) = some i := by
  induction fs using List.reverseRecOn with
  | nil => exact ⟨[], by simp, by simp⟩
  | append_singleton fs e ih =>
    obtain ⟨own, hown, hplaces⟩ := ih
    have hplaces' : ∀ t ∈ own, ∃ before e' after, fs ++ [e] = before ++ e' :: after ∧
        pick e' = some t.decl ∧ innermost? (es ++ before) = some i := by
      intro t ht
      obtain ⟨before, e', after, rfl, hpick, hinside⟩ := hplaces t ht
      exact ⟨before, e', after ++ [e], by simp, hpick, hinside⟩
    rw [← List.append_assoc]
    by_cases hinside : innermost? (es ++ fs) = some i
    · cases hpick : pick e with
      | none =>
        rw [toldIn_concat_none hpick]
        exact ⟨own, hown, hplaces'⟩
      | some d =>
        rw [toldIn_concat_inside hpick hinside, hown, List.append_assoc]
        refine ⟨_, rfl, List.forall_mem_append.mpr ⟨hplaces', List.forall_mem_singleton.mpr ?_⟩⟩
        exact ⟨fs, e, [], rfl, hpick, hinside⟩
    · rw [toldIn_concat_outside hinside]
      exact ⟨own, hown, hplaces'⟩

/-- Members that no class comes between are all told in the class that they begin in. -/
theorem toldIn_flat (hflat : Flat fs) (hi : innermost? es = some i) :
    (toldIn i pick (es ++ fs)).map (·.decl) =
      (toldIn i pick es).map (·.decl) ++ fs.filterMap pick := by
  induction fs using List.reverseRecOn with
  | nil => simp
  | append_singleton fs e ih =>
    obtain ⟨hfs, -⟩ := List.forall_mem_append.mp hflat
    have hinside : innermost? (es ++ fs) = some i := by rw [innermost?_flat hfs, hi]
    rw [← List.append_assoc, List.filterMap_append, ← List.append_assoc, ← ih hfs]
    cases hpick : pick e with
    | none =>
      rw [toldIn_concat_none hpick]
      simp [hpick]
    | some d =>
      rw [toldIn_concat_inside hpick hinside]
      simp [hpick]

/-- A class of a unit begins where it is told. -/
theorem told_class_at {n : Nat} {t : Told Written.Class}
    (h : (told Event.class? es)[n]? = some t) :
    ∃ front back, es = front ++ .beginClass t.decl :: back ∧ classesBegun front = n := by
  induction es using List.reverseRecOn with
  | nil => cases h
  | append_singleton es e ih =>
    rw [told_concat] at h
    by_cases hn : n < (told Event.class? es).length
    · rw [List.getElem?_append_left hn] at h
      obtain ⟨front, back, rfl, hfront⟩ := ih h
      exact ⟨front, back ++ [e], by simp, hfront⟩
    · rw [List.getElem?_append_right (Nat.le_of_not_lt hn)] at h
      cases hpick : e.class? with
      | none => simp [hpick] at h
      | some c =>
        cases e <;> cases hpick
        have hlength := length_told_class es
        have hlt := (List.getElem?_eq_some_iff.mp h).1
        simp only [Event.class?, Option.map_some, Option.toList_some, List.length_singleton] at hlt
        obtain rfl : n = (told Event.class? es).length := by omega
        simp only [Event.class?, Nat.sub_self, Option.map_some, Option.toList_some,
          List.getElem?_cons_zero, Option.some.injEq] at h
        subst h
        exact ⟨es, [], rfl, hlength.symm⟩

/-! ### Records -/

theorem ofComponents_fields (line : Nat) (components : List Written.Parameter) :
    (Event.ofComponents line components).filterMap Event.field? =
      components.flatMap fun p => p.name.toList.map (componentField line p) := by
  induction components with
  | nil => rfl
  | cons p ps ih =>
    rw [List.flatMap_cons, ← ih, Event.ofComponents, List.flatMap_cons, List.filterMap_append]
    congr 1
    cases p.name <;> rfl

theorem ofRecord_fields {c : Written.Class} (hkind : c.kind = .recordType)
    (components : List Written.Parameter) : (Event.ofRecord c components).filterMap Event.field? =
      components.flatMap fun p => p.name.toList.map (componentField c.line p) := by
  rw [Event.ofRecord, if_pos hkind, List.filterMap_append, ofComponents_fields]
  exact List.append_nil _

theorem ofRecord_constructors {c : Written.Class} (hkind : c.kind = .recordType)
    (components : List Written.Parameter) :
    (Event.ofRecord c components).filterMap Event.constructor? =
      [canonicalConstructor c.line c.name components] := by
  have hfields : (Event.ofComponents c.line components).filterMap Event.constructor? = [] := by
    refine List.filterMap_eq_nil_iff.mpr fun e he => ?_
    obtain ⟨p, -, he⟩ := List.mem_flatMap.mp he
    obtain ⟨name, -, he⟩ := List.mem_flatMap.mp he
    simp only [Event.ofField, Event.ofDoc, Option.toList_none, List.map_nil, List.nil_append,
      List.mem_cons, List.not_mem_nil, or_false] at he
    rcases he with rfl | rfl <;> rfl
  rw [Event.ofRecord, if_pos hkind, List.filterMap_append, hfields]
  rfl

/-- Directly in a record the members by its head are told first, and then members that stand behind
the head. -/
theorem toldIn_record (c : Written.Class) (components : List Written.Parameter)
    (front : List Event) {more : List Event} {left rest : List Lexeme}
    (hmore : Sourced left more rest) (hclass : pick (.beginClass c) = none)
    (hmember : ∀ e d, pick e = some d → e.beginsMember) :
    ∃ given own,
      toldIn ⟨classesBegun front⟩ pick
        (front ++ .beginClass c :: (Event.ofRecord c components ++ more)) = given ++ own ∧
      given.map (·.decl) = (Event.ofRecord c components).filterMap pick ∧
      ∀ t ∈ own, ∃ e name behind left', pick e = some t.decl ∧ name :: behind <:+ left ∧
        StandsAt e name behind left' := by
  have hflat := flat_ofRecord c components
  obtain ⟨own, hown, hplaces⟩ := toldIn_append pick ⟨classesBegun front⟩
    (front ++ [.beginClass c] ++ Event.ofRecord c components) more
  refine ⟨toldIn ⟨classesBegun front⟩ pick
    (front ++ [.beginClass c] ++ Event.ofRecord c components), own, ?_, ?_, fun t ht => ?_⟩
  · rw [← hown]
    simp
  · have hnone : toldIn ⟨classesBegun front⟩ pick front = [] := toldIn_next (Nat.le_refl _)
    rw [toldIn_flat hflat (innermost?_begun front c), toldIn_concat_none hclass, hnone]
    rfl
  · obtain ⟨before, e, after, rfl, hpick, hinside⟩ := hplaces t ht
    obtain ⟨outer, c', between, rfl, hbetween⟩ | ⟨name, behind, left', hplace, hstands⟩ :=
      hmore.split_member (hmember e _ hpick)
    · -- The member would stand in a class that begins in the body.
      have hevents : front ++ [.beginClass c] ++ Event.ofRecord c components ++
          (outer ++ .beginClass c' :: between) =
          (front ++ [.beginClass c] ++ Event.ofRecord c components ++ outer) ++
            [.beginClass c'] ++ between := by simp
      rw [hevents, innermost?_flat hbetween, innermost?_begun] at hinside
      have hnumber := congrArg ClassIndex.number (Option.some.inj hinside)
      simp only [Telling.classesBegun_append, classesBegun_singleton, Event.beginsClass,
        if_true] at hnumber
      omega
    · exact ⟨e, name, behind, left', hpick, hplace, hstands⟩

theorem forall₂_split {β γ : Type} {r : β → γ → Prop} {front back : List β} {all : List γ}
    (h : List.Forall₂ r (front ++ back) all) :
    ∃ front' back', all = front' ++ back' ∧ List.Forall₂ r front front' ∧
      List.Forall₂ r back back' := by
  induction front generalizing all with
  | nil => exact ⟨[], all, rfl, .nil, h⟩
  | cons b front ih =>
    cases h with
    | cons hb hmore =>
      obtain ⟨front', back', rfl, hfront, hback⟩ := ih hmore
      exact ⟨_ :: front', back', rfl, .cons hb hfront, hback⟩

/-- A record of a text has by its head a private final field for each component, with its name and
its type, and a constructor that takes the components. Behind these it has the fields and
constructors that its body declares, which stand in full behind the head. -/
structure Class.OfRecord (w : Written.Class) (components : List Written.Parameter)
    (left : List Lexeme) (c : Class) : Prop where
  fields : ∃ given own, c.fields = given ++ own ∧
    List.Forall₂ (fun p f => ∃ name, p.name = some name ∧
      Field.Holds TypeRef.Writes (componentField w.line p name) f) components given ∧
    ∀ f ∈ own, ∃ v name behind left', Field.Holds TypeRef.Writes v f ∧ name :: behind <:+ left ∧
      FieldAt v name behind left'
  constructors : ∃ given own, c.constructors = given :: own ∧
    Method.Holds TypeRef.Writes (canonicalConstructor w.line w.name components) given ∧
    ∀ m ∈ own, ∃ v name behind left', Method.Holds TypeRef.Writes v m ∧
      name :: behind <:+ left ∧ MethodAt v name behind left'

/-- Every component has a name, and so one field. -/
theorem flatMap_components {components : List Written.Parameter} (line : Nat)
    (h : ∀ p ∈ components, p.name.isSome) :
    (components.flatMap fun p => p.name.toList.map (componentField line p)) =
      components.map fun p => componentField line p (p.name.getD "") := by
  induction components with
  | nil => rfl
  | cons p ps ih =>
    obtain ⟨hp, hps⟩ := List.forall_mem_cons.mp h
    obtain ⟨name, hname⟩ := Option.isSome_iff_exists.mp hp
    rw [List.flatMap_cons, ih hps, List.map_cons, hname]
    rfl

theorem Class.Collects.ofRecord {w : Written.Class} {components : List Written.Parameter}
    {front more : List Event} {left rest : List Lexeme} {c : Class} (hkind : w.kind = .recordType)
    (hnamed : ∀ p ∈ components, p.name.isSome) (hmore : Sourced left more rest)
    (h : c.Collects (front ++ .beginClass w :: (Event.ofRecord w components ++ more))
      ⟨classesBegun front⟩) : c.OfRecord w components left := by
  constructor
  · have hmember (e : Event) (f : Written.Field) (hpick : e.field? = some f) : e.beginsMember := by
      simp [Event.beginsMember, hpick]
    obtain ⟨given, own, htold, hgiven, hown⟩ :=
      toldIn_record w components front hmore rfl hmember
    have hfields := h.fields
    rw [htold] at hfields
    obtain ⟨given', own', hall, hfirst, hlast⟩ := forall₂_split hfields
    refine ⟨given', own', hall, ?_, fun f hf => ?_⟩
    · rw [ofRecord_fields hkind, flatMap_components w.line hnamed] at hgiven
      have hholds : List.Forall₂ (Field.Holds TypeRef.Writes) (given.map (·.decl)) given' :=
        List.forall₂_map_left_iff.mpr (hfirst.imp fun _ _ hfield => hfield.holds)
      rw [hgiven, List.forall₂_map_left_iff] at hholds
      refine ((List.forall₂_and_left _ _).mpr ⟨hnamed, hholds⟩).imp fun p f hp => ?_
      obtain ⟨hname, hfield⟩ := hp
      obtain ⟨name, hname⟩ := Option.isSome_iff_exists.mp hname
      rw [hname] at hfield
      exact ⟨name, hname, hfield⟩
    · obtain ⟨t, ht, hfield⟩ := exists_of_forall₂ hlast hf
      obtain ⟨e, name, behind, left', hpick, hplace, hstands⟩ := hown t ht
      obtain ⟨v, rfl, hat⟩ | ⟨m, rfl, -⟩ := hstands
      · cases hpick
        exact ⟨_, name, behind, left', hfield.holds, hplace, hat⟩
      · cases hpick
  · have hmember (e : Event) (m : Written.Method) (hpick : e.constructor? = some m) :
        e.beginsMember := by
      obtain ⟨hmethod, -⟩ := Option.filter_eq_some_iff.mp hpick
      simp [Event.beginsMember, hmethod]
    obtain ⟨given, own, htold, hgiven, hown⟩ :=
      toldIn_record w components front hmore rfl hmember
    have hconstructors := h.constructors
    rw [htold] at hconstructors
    obtain ⟨given', own', hall, hfirst, hlast⟩ := forall₂_split hconstructors
    rw [ofRecord_constructors hkind] at hgiven
    obtain ⟨t, rfl, hdecl⟩ := List.map_eq_singleton_iff.mp hgiven
    obtain ⟨m, _, hm, hnil, rfl⟩ := List.forall₂_cons_left_iff.mp hfirst
    cases hnil
    refine ⟨m, own', hall, hdecl ▸ hm.holds, fun m hm => ?_⟩
    obtain ⟨t, ht, hmethod⟩ := exists_of_forall₂ hlast hm
    obtain ⟨e, name, behind, left', hpick, hplace, hstands⟩ := hown t ht
    obtain ⟨f, rfl, -⟩ | ⟨v, rfl, hat⟩ := hstands
    · cases hpick
    · obtain ⟨hmethod', -⟩ := Option.filter_eq_some_iff.mp hpick
      cases hmethod'
      exact ⟨_, name, behind, left', hmethod.holds, hplace, hat⟩

/-- Every record of a text that follows the grammar stands in the text by its head, and has the
members that this stands for before those that its body declares. -/
theorem parse_records {text : String} (h : (parse text).error = none) (id : UnitId)
    (path : FilePath) : ∃ u, SourceUnit.ofText id path text = .ok u ∧
      ∀ c ∈ u.classes, c.kind = .recordType → ∃ w components name behind left,
        Class.Holds TypeRef.Writes w c ∧ name :: behind <:+ lexemes text ∧
        ClassAt w components name behind left ∧ c.OfRecord w components left := by
  obtain ⟨u, hu, hcontents⟩ := parse_contents h id path
  obtain ⟨rest, hsourced⟩ := (keptMembers_sourced (lexemes text)).keptParts.parse h
  refine ⟨u, hu, fun c hc hkind => ?_⟩
  obtain ⟨n, hn⟩ := List.mem_iff_getElem?.mp hc
  obtain ⟨t, ht, hclass⟩ := hcontents.told_class hn
  obtain ⟨front, back, hevents, hfront⟩ := told_class_at ht
  have hwkind : t.decl.kind = .recordType := hclass.holds.kind ▸ hkind
  rw [hevents] at hsourced
  obtain ⟨components, name, behind, left, more, hplace, hhead, hnamed, rfl, hmore⟩ :=
    hsourced.split_record hwkind
  have hcollects := hcontents.members ⟨n⟩ c hn
  rw [hevents, ← hfront] at hcollects
  exact ⟨t.decl, components, name, behind, left, hclass.holds, hplace, hhead,
    hcollects.ofRecord hwkind hnamed hmore⟩

/-- A record with a component list of its own kind, a compact constructor, and two further
members. -/
theorem parse_records_compact :
    let text := "@A record R<T>(T x, int[]... ys) \x7b R \x7b check(x); \x7d " ++
      "R(T x) \x7b this(x, null); \x7d static int n; \x7d"
    (parse text).error = none ∧ ∃ u, SourceUnit.ofText ⟨0⟩ ⟨"R.java"⟩ text = .ok u ∧
      ∀ c ∈ u.classes, c.kind = .recordType → ∃ w components name behind left,
        Class.Holds TypeRef.Writes w c ∧ name :: behind <:+ lexemes text ∧
        ClassAt w components name behind left ∧ c.OfRecord w components left := by
  intro text
  have h : (parse text).error = none := by decide +kernel
  exact ⟨h, parse_records h ⟨0⟩ ⟨"R.java"⟩⟩

/-- A record whose body repeats the constructor by its head has two that take the components, and
the field of a component for any number of values has the type of one. -/
theorem not_desugared_once :
    ((SourceUnit.ofText ⟨0⟩ ⟨"R.java"⟩
        "record R(int x) \x7b R(int x) \x7b \x7d \x7d").toOption.toList.flatMap fun u =>
      u.classes.flatMap fun c => c.constructors.map fun m =>
        m.parameters.map fun p => (p.type.name, p.type.dims, p.isVarargs)) =
      [[("int", 0, false)], [("int", 0, false)]] ∧
    ((SourceUnit.ofText ⟨0⟩ ⟨"R.java"⟩ "record R(int... xs) \x7b \x7d").toOption.toList.flatMap
      fun u => u.classes.flatMap fun c => c.fields.map fun f =>
        (f.name, f.type.name, f.type.dims)) = [("xs", "int", 0)] := by
  decide +kernel

end JavaModel
