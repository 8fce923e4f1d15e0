import JavaModel.Proofs.Event.Nesting
import JavaModel.Proofs.Grammar.Members

/-! Where what a unit tells comes from. `Sourced` goes through lexemes and events side by side: a
field or a method stands in the lexemes at a place of its own, or it belongs to the head of a
record, which stands there. So of any member told it can be said which of the two it is. -/

namespace JavaModel

open Grammar Reader

variable {ls rest : List Lexeme} {told back : List Event} {e : Event} {c : Written.Class}

/-- A field or a method behind its name. -/
def StandsAt (e : Event) (name : Lexeme) (behind left : List Lexeme) : Prop :=
  (∃ f, e = .beginField f ∧ FieldAt f name behind left) ∨
    ∃ m, e = .beginMethod m ∧ MethodAt m name behind left

theorem StandsAt.suffix {name : Lexeme} {behind left : List Lexeme}
    (h : StandsAt e name behind left) : left <:+ behind := by
  obtain ⟨f, -, hfield⟩ | ⟨m, -, hmethod⟩ := h
  · exact hfield.suffix
  · exact hmethod.suffix

/-- Between the lexemes from which and up to which they are read, events tell no members but those
that stand there, and those that a record has by its head. These come right behind its beginning. -/
inductive Sourced : Passage where
  | quiet {ls rest : List Lexeme} : rest <:+ ls → Sourced ls [] rest
  | other {ls rest : List Lexeme} {told : List Event} {e : Event} : e.beginsMember = false →
      (∀ c, e = .beginClass c → c.kind ≠ .recordType) → Sourced ls told rest →
      Sourced ls (e :: told) rest
  | member {ls behind left rest : List Lexeme} {told : List Event} {e : Event} {name : Lexeme} :
      name :: behind <:+ ls → StandsAt e name behind left → Sourced left told rest →
      Sourced ls (e :: told) rest
  | record {ls behind left rest : List Lexeme} {told : List Event} {c : Written.Class}
      {components : List Written.Parameter} {name : Lexeme} : name :: behind <:+ ls →
      c.kind = .recordType → ClassAt c components name behind left →
      (∀ p ∈ components, p.name.isSome) → Sourced left told rest →
      Sourced ls (.beginClass c :: (Event.ofRecord c components ++ told)) rest

/-- Events inside a class that neither begin nor end one. -/
def Flat (es : List Event) : Prop := ∀ e ∈ es, e.beginsClass = false ∧ e.endsClass = false

theorem Flat.append {es fs : List Event} (h : Flat es) (hfs : Flat fs) : Flat (es ++ fs) :=
  List.forall_mem_append.mpr ⟨h, hfs⟩

theorem flat_ofDoc (doc : Option String) (target : DocTarget) : Flat (Event.ofDoc doc target) := by
  cases doc <;> simp [Flat, Event.ofDoc, Event.beginsClass, Event.endsClass]

theorem flat_ofField (doc : Option String) (f : Written.Field) : Flat (Event.ofField doc f) :=
  (flat_ofDoc doc _).append (by simp [Flat, Event.beginsClass, Event.endsClass])

theorem flat_ofMethod (doc : Option String) (m : Written.Method) : Flat (Event.ofMethod doc m) :=
  (flat_ofDoc doc _).append (by simp [Flat, Event.beginsClass, Event.endsClass])

/-- The members that a record has by its head stand directly in it. -/
theorem flat_ofRecord (c : Written.Class) (components : List Written.Parameter) :
    Flat (Event.ofRecord c components) := by
  unfold Event.ofRecord
  split
  · refine Flat.append (fun e he => ?_) (flat_ofMethod _ _)
    obtain ⟨p, -, he⟩ := List.mem_flatMap.mp he
    obtain ⟨name, -, he⟩ := List.mem_flatMap.mp he
    exact flat_ofField _ _ e he
  · exact fun _ he => absurd he List.not_mem_nil

namespace Sourced

theorem behind {longer : List Lexeme} (h : Sourced ls told rest) (hls : ls <:+ longer) :
    Sourced longer told rest := by
  induction h with
  | quiet hrest => exact .quiet (hrest.trans hls)
  | other hmember hrecord _ ih => exact .other hmember hrecord (ih hls)
  | member hplace hstands more => exact .member (hplace.trans hls) hstands more
  | record hplace hkind hhead hnamed more =>
    exact .record (hplace.trans hls) hkind hhead hnamed more

theorem append {middle : List Lexeme} {more : List Event} (h : Sourced ls told middle)
    (hmore : Sourced middle more rest) : Sourced ls (told ++ more) rest := by
  induction h with
  | quiet hmiddle => exact hmore.behind hmiddle
  | other hmember hrecord _ ih => exact .other hmember hrecord (ih hmore)
  | member hplace hstands _ ih => exact .member hplace hstands (ih hmore)
  | record hplace hkind hhead hnamed _ ih =>
    rw [List.cons_append, List.append_assoc]
    exact .record hplace hkind hhead hnamed (ih hmore)

end Sourced

instance : Joins Sourced where
  quiet := .quiet
  append := Sourced.append

theorem sourced_singleton (h : e.beginsMember = false) (hclass : e.beginsClass = false)
    (ls : List Lexeme) : Sourced ls [e] ls := by
  refine .other h ?_ (.quiet (List.suffix_refl ls))
  rintro c rfl
  cases hclass

theorem sourced_ofDoc (doc : Option String) (target : DocTarget) (ls : List Lexeme) :
    Sourced ls (Event.ofDoc doc target) ls := by
  cases doc with
  | none => exact .quiet (List.suffix_refl ls)
  | some _ => exact sourced_singleton rfl rfl ls

/-- All that a unit tells stands in its lexemes. -/
theorem keptMembers_sourced (L : List Lexeme) : KeptMembers L Sourced fun _ => True where
  annotation _ _ := trivial
  beginSource := sourced_singleton rfl rfl
  package hrest _ :=
    (sourced_ofDoc _ _ _).append ((sourced_singleton rfl rfl _).append (.quiet hrest))
  imports := sourced_singleton rfl rfl _
  head {c components name ls left doc} hls hhead _ hnamed := by
    refine (sourced_ofDoc _ _ _).append ?_
    obtain ⟨middle, behind, hparams, hcomponents, hleft⟩ := hhead.reads
    by_cases hkind : c.kind = .recordType
    · have hrecord := Sourced.record (List.suffix_refl _) hkind hhead
        (fun p hp => (hnamed p hp).1) (.quiet (List.suffix_refl left))
      rwa [List.append_nil] at hrecord
    · refine .other rfl (fun c' hc' => by cases hc'; exact hkind) ?_
      rw [if_neg hkind] at hcomponents
      cases hcomponents
      rw [Event.ofRecord, if_neg hkind]
      exact .quiet ((hleft.trans (proceeds_typeParameters.taken _ _ _ hparams).1).trans
        (List.suffix_cons name ls))
  field {f name ls left doc} _ hfield _ :=
    (sourced_ofDoc _ _ _).append (.member (List.suffix_refl _) (.inl ⟨f, rfl, hfield⟩)
      (sourced_singleton rfl rfl _))
  method {m name ls left doc} _ hmethod _ _ :=
    (sourced_ofDoc _ _ _).append (.member (List.suffix_refl _) (.inr ⟨m, rfl, hmethod⟩)
      (sourced_singleton rfl rfl _))
  endClass := sourced_singleton rfl rfl
  endSource := sourced_singleton rfl rfl

namespace Sourced

/-- An event stands in the head of a record, or what is told from it on is sourced too. -/
theorem split {front : List Event} (h : Sourced ls (front ++ e :: back) rest) :
    (∃ before c between, front = before ++ .beginClass c :: between ∧ Flat (between ++ [e])) ∨
      ∃ later, later <:+ ls ∧ Sourced later (e :: back) rest := by
  generalize htold : front ++ e :: back = told at h
  -- Where the sequence begins with the event itself there is nothing to show.
  induction h generalizing front with
  | quiet => simp at htold
  | other hmember hrecord more ih =>
    cases front with
    | nil =>
      obtain ⟨rfl, rfl⟩ := List.cons.inj htold
      exact .inr ⟨_, List.suffix_refl _, .other hmember hrecord more⟩
    | cons f front =>
      obtain ⟨before, c, between, rfl, hflat⟩ | hlater := ih (List.cons.inj htold).2
      · exact .inl ⟨f :: before, c, between, rfl, hflat⟩
      · exact .inr hlater
  | member hplace hstands more ih =>
    cases front with
    | nil =>
      obtain ⟨rfl, rfl⟩ := List.cons.inj htold
      exact .inr ⟨_, List.suffix_refl _, .member hplace hstands more⟩
    | cons f front =>
      obtain ⟨before, c, between, rfl, hflat⟩ | ⟨later, hlater, hmore⟩ := ih (List.cons.inj htold).2
      · exact .inl ⟨f :: before, c, between, rfl, hflat⟩
      · exact .inr ⟨later, (hlater.trans hstands.suffix).trans
          ((List.suffix_cons _ _).trans hplace), hmore⟩
  | @record _ _ _ _ _ c components _ hplace hkind hhead hnamed more ih =>
    cases front with
    | nil =>
      obtain ⟨rfl, rfl⟩ := List.cons.inj htold
      exact .inr ⟨_, List.suffix_refl _, .record hplace hkind hhead hnamed more⟩
    | cons f front =>
      obtain ⟨rfl, happend⟩ := List.cons.inj htold
      obtain ⟨inner, hinner, hback⟩ | ⟨front, rfl, hfront⟩ := List.append_eq_append_iff.mp happend
      · cases inner with
        | nil =>
          obtain ⟨before, c, between, hbefore, -⟩ | ⟨later, hlater, hmore⟩ := 
            ih (show [] ++ e :: back = _ from hback)
          · simp at hbefore
          · exact .inr ⟨later, (hlater.trans hhead.suffix).trans
              ((List.suffix_cons _ _).trans hplace), hmore⟩
        | cons g inner =>
          obtain ⟨rfl, -⟩ := List.cons.inj hback
          have hflat := flat_ofRecord c components
          rw [hinner, List.append_cons] at hflat
          exact .inl ⟨[], _, front, rfl, fun g hg => hflat g (List.mem_append_left _ hg)⟩
      · obtain ⟨before, c', between, rfl, hflat⟩ | ⟨later, hlater, hmore⟩ := ih hfront.symm
        · exact .inl ⟨.beginClass c :: (Event.ofRecord c components ++ before), c', between,
            by simp, hflat⟩
        · exact .inr ⟨later, (hlater.trans hhead.suffix).trans
            ((List.suffix_cons _ _).trans hplace), hmore⟩

/-- Behind the beginning of a record come the members that it has by its head, and then what stands
behind the head. -/
theorem split_record {front : List Event} (hkind : c.kind = .recordType)
    (h : Sourced ls (front ++ .beginClass c :: back) rest) :
    ∃ components name behind left more, name :: behind <:+ ls ∧
      ClassAt c components name behind left ∧ (∀ p ∈ components, p.name.isSome) ∧
      back = Event.ofRecord c components ++ more ∧ Sourced left more rest := by
  obtain ⟨-, -, between, -, hflat⟩ | ⟨later, hlater, hmore⟩ := h.split
  · have hclass := (hflat _ (List.mem_append_right _ (List.mem_singleton_self _))).1
    cases hclass
  · cases hmore with
    | other _ hrecord => exact absurd hkind (hrecord c rfl)
    | member _ hstands =>
      obtain ⟨f, heq, -⟩ | ⟨m, heq, -⟩ := hstands <;> cases heq
    | record hplace _ hhead hnamed more =>
      exact ⟨_, _, _, _, _, hplace.trans hlater, hhead, hnamed, rfl, more⟩

/-- A member stands in the lexemes, or it stands in the head of a record. -/
theorem split_member {front : List Event} (hmember : e.beginsMember)
    (h : Sourced ls (front ++ e :: back) rest) :
    (∃ before c between, front = before ++ .beginClass c :: between ∧ Flat between) ∨
      ∃ name behind left, name :: behind <:+ ls ∧ StandsAt e name behind left := by
  obtain ⟨before, c, between, rfl, hflat⟩ | ⟨later, hlater, hmore⟩ := h.split
  · exact .inl ⟨before, c, between, rfl, fun f hf => hflat f (List.mem_append_left _ hf)⟩
  · cases hmore with
    | other hnone => rw [hmember] at hnone; cases hnone
    | member hplace hstands => exact .inr ⟨_, _, _, hplace.trans hlater, hstands⟩
    | record => cases hmember

end Sourced

end JavaModel
