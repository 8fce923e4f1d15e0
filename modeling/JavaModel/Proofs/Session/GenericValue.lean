import Mathlib.Data.List.Pairwise
import JavaModel.Proofs.Model.References
import JavaModel.Proofs.Session.Questions
import JavaModel.Proofs.Session.Unresolved

/-! The two texts of a type. A written type has a text of its own, and the reference made of it has
a text in which all names are resolved. As long as the answers of a lookup do not change, the second
is the first with other names: each name gives way to what it means where it is written, and
arguments, bounds and brackets stay as they are. -/

namespace JavaModel

/-! ### Types with other names -/

mutual

/-- The type with other names, at any depth. -/
def TypeExpr.mapNames (f : String → String) : TypeExpr → TypeExpr
  | ⟨name, args, dims⟩ => ⟨f name, TypeExpr.mapNamesArgs f args, dims⟩

/-- Type arguments with other names. -/
def TypeExpr.mapNamesArgs (f : String → String) :
    List (Argument TypeExpr) → List (Argument TypeExpr)
  | [] => []
  | a :: as => TypeExpr.mapNamesArg f a :: TypeExpr.mapNamesArgs f as

/-- A type argument with other names. -/
def TypeExpr.mapNamesArg (f : String → String) : Argument TypeExpr → Argument TypeExpr
  | .exactly t => .exactly (t.mapNames f)
  | .unbounded => .unbounded
  | .extending t => .extending (t.mapNames f)
  | .above t => .above (t.mapNames f)

end

namespace Session

open Query Assembly

section Texts

variable {I : Session → Prop} {around : Surroundings Query} {f : String → String}

mutual

/-- If resolving each name in a reference gives what `f` makes of it, the text of the reference is
that of the written type with the names that `f` gives. -/
theorem ensures_genericValue {r : TypeRef}
    (h : ∀ q ∈ r.spread, Ensures I (resolve around q) (· = f q.name)) :
    Ensures I (genericValue around r) (· = (r.written.mapNames f).render) := by
  obtain ⟨name, args, dims, origin⟩ := r
  obtain ⟨hname, hargs⟩ := List.forall_mem_cons.mp h
  refine hname.bind fun value hvalue => (ensures_genericArgs hargs).bind fun texts htexts => ?_
  subst hvalue htexts
  exact ensures_pure rfl

theorem ensures_genericArgs {as : List (Argument TypeRef)}
    (h : ∀ q ∈ TypeRef.spreadArgs as, Ensures I (resolve around q) (· = f q.name)) :
    Ensures I (genericArgs around as)
      (· = TypeExpr.renderArgs (TypeExpr.mapNamesArgs f (TypeRef.writtenArgs as))) := by
  cases as with
  | nil => exact ensures_pure rfl
  | cons a as =>
    obtain ⟨has, ha⟩ := List.forall_mem_append.mp h
    refine (ensures_genericArg ha).bind fun text htext =>
      (ensures_genericArgs has).bind fun texts htexts => ?_
    subst htext htexts
    exact ensures_pure rfl

theorem ensures_genericArg {a : Argument TypeRef}
    (h : ∀ q ∈ TypeRef.spreadArg a, Ensures I (resolve around q) (· = f q.name)) :
    Ensures I (genericArg around a)
      (· = TypeExpr.renderArg (TypeExpr.mapNamesArg f (TypeRef.writtenArg a))) := by
  cases a with
  | unbounded => exact ensures_pure rfl
  | exactly t => exact ensures_genericValue h
  | extending t | above t =>
    refine (ensures_genericValue h).bind fun text htext => ?_
    subst htext
    exact ensures_pure rfl

end

end Texts

/-! ### Lookups whose answers do not change -/

section Unchanging

variable {around : Surroundings Query} {s t : Session}

/-- The sessions that a call may pass through which begins at `s`: it asks `around`, and it records
what written names mean. -/
inductive During (around : Surroundings Query) (s : Session) : Session → Prop where
  | start : During around s s
  | asked {t : Session} (h : During around s t) (name : String) :
      During around s (around.isKnown name t).2
  | recorded {t : Session} (h : During around s t) (slot : Slot) (fullName : String) :
      During around s { t with known := t.known.record slot fullName }

/-- During a call that begins at `s` the answers do not change: the same classes are known, the same
units are there, and being asked resolves no reference. -/
structure Unchanging (around : Surroundings Query) (s : Session) : Prop where
  isKnown : ∀ t, During around s t → ∀ name,
    (around.isKnown name t).1 = (around.isKnown name s).1
  unit? : ∀ t, During around s t → ∀ id, t.sources.unit? id = s.sources.unit? id
  known : ∀ t, During around s t → ∀ name, (around.isKnown name t).2.known = t.known

/-- What a name means does not change, and looking for it records nothing. -/
theorem Unchanging.resolveName (h : Unchanging around s) (ht : During around s t) (u : SourceUnit)
    (context : Option ClassIndex) (name : String) :
    (u.resolveName around context name t).1 = (u.resolveName around context name s).1 ∧
      During around s (u.resolveName around context name t).2 ∧
        (u.resolveName around context name t).2.known = t.known := by
  have hknown (name : String) : Relates
      (fun a b => (During around s a ∧ a.known = t.known) ∧ During around s b) Eq
      (around.isKnown name) (around.isKnown name) := by
    rintro a b ⟨⟨ha, hsame⟩, hb⟩
    exact ⟨(h.isKnown a ha name).trans (h.isKnown b hb name).symm,
      ⟨ha.asked name, (h.known a ha name).trans hsame⟩, hb.asked name⟩
  obtain ⟨hmeaning, ⟨hduring, hsame⟩, _⟩ :=
    relates_resolveName u hknown context name t s ⟨⟨ht, rfl⟩, .start⟩
  exact ⟨hmeaning, hduring, hsame⟩

/-- What the units of a session know by themselves does not change. -/
theorem unchanging_onlySources (s : Session) : Unchanging onlySources s := by
  have hsources {t : Session} (ht : During onlySources s t) : t.sources = s.sources := by
    induction ht with
    | start => rfl
    | asked _ _ ih | recorded _ _ _ ih => exact ih
  refine ⟨fun t ht name => ?_, fun t ht id => by rw [hsources ht], fun _ _ _ => rfl⟩
  exact congrArg (SourceSet.contains · name) (hsources ht)

/-- Where no strategy reads source files, what the whole library knows does not change. -/
theorem Sound.unchanging_library (h : s.Sound) (hroots : s.Rootless) :
    Unchanging s.library s := by
  have hs := h.fixed hroots
  have hfixed {t : Session} (ht : During s.library s t) : s.Fixed t := by
    induction ht with
    | start => exact hs
    | asked _ name ih => exact (ih.find true name).2
    | recorded _ slot fullName ih => exact ih.record _
  refine ⟨fun t ht name => ?_, fun t ht id => by rw [(hfixed ht).sources], fun t _ name => ?_⟩
  · exact congrArg Option.isSome ((hfixed ht).same_answer hs true name)
  · exact known_hasClass name t

end Unchanging

/-! ### References made of written types -/

/-- What a written name means where it is written: the name itself if it is primitive, a type
variable, or means nothing. -/
def meaning (around : Surroundings Query) (s : Session) (scope : Scope) (name : String) : String :=
  if Name.isPrimitive name ∨ name ∈ scope.typeParameters then name
  else
    match s.sources.unit? scope.source with
    | none => name
    | some u => ((u.resolveName around scope.context name s).1).getD name

section Meaning

variable {around : Surroundings Query} {s t : Session} {scope : Scope} {r q : TypeRef}

/-- No two names in a reference that a scope makes share a slot. -/
theorem nodup_slots_refer (scope : Scope) (t : TypeExpr) (n : Nat) :
    ((refer scope t).run n).1.slots.Nodup := by
  obtain ⟨k, _, hsubperm⟩ := issues_refer scope t n
  obtain ⟨_, hperm, hsublist⟩ := hsubperm
  exact hperm.nodup_iff.mp ((nodup_slotsFrom scope.source n k).sublist hsublist)

/-- If no two names in a reference share a slot, names with the same slot are the same. -/
theorem name_eq_of_slot (hslots : r.slots.Nodup) {q' : TypeRef} (hq : q ∈ r.spread)
    (hq' : q' ∈ r.spread) {slot : Slot} (hslot : q.origin.slot? = some slot)
    (hslot' : q'.origin.slot? = some slot) : q.name = q'.name := by
  by_contra hne
  have hdistinct := List.pairwise_filterMap.mp hslots
  have : Std.Symm fun a b : TypeRef =>
      ∀ x, a.origin.slot? = some x → ∀ y, b.origin.slot? = some y → x ≠ y :=
    ⟨fun _ _ h y hy x hx => (h x hx y hy).symm⟩
  exact hdistinct.forall hq hq' (fun heq => hne (congrArg TypeRef.name heq)) slot hslot slot hslot'
    rfl

/-- A call on a reference has come to `t`, and what is resolved so far in the reference is resolved
to what it means. -/
structure Calling (around : Surroundings Query) (s : Session) (scope : Scope) (r : TypeRef)
    (t : Session) : Prop where
  during : During around s t
  resolved : ∀ q ∈ r.spread, q.isResolved t.known →
    q.value t.known = meaning around s scope q.name

/-- Recording what a name in the reference means leaves the others as they are. -/
theorem Calling.record (h : Calling around s scope r t) (hslots : r.slots.Nodup)
    (hq : q ∈ r.spread) {slot : Slot} (hslot : q.origin.slot? = some slot) :
    Calling around s scope r
      { t with known := t.known.record slot (meaning around s scope q.name) } := by
  refine ⟨h.during.recorded _ _, fun p hp hresolved => ?_⟩
  have hbefore := h.resolved p hp
  obtain ⟨name, args, dims, origin⟩ := p
  cases origin with
  | qualified | typeVariable => exact hbefore hresolved
  | written slot' context =>
    simp only [TypeRef.isResolved, TypeRef.value, TypeRef.resolved?, Table.find?_record]
      at hresolved hbefore ⊢
    cases hknown : t.known.find? slot' with
    | some fullName =>
      rw [hknown] at hbefore
      exact hbefore rfl
    | none =>
      rw [hknown, Option.none_or] at hresolved
      -- What is resolved only now has the slot that was recorded, and so the same name.
      obtain rfl : slot = slot' := by
        by_contra hne
        rw [if_neg hne] at hresolved
        cases hresolved
      have hname : q.name = name := name_eq_of_slot hslots hq hp hslot rfl
      rw [Option.none_or, if_pos rfl, hname, Option.getD_some]

/-- What a name means that is neither primitive nor a type variable. -/
theorem meaning_written (around : Surroundings Query) (s : Session) {name : String}
    (hprimitive : ¬ Name.isPrimitive name) (hvariable : name ∉ scope.typeParameters) :
    meaning around s scope name =
      match s.sources.unit? scope.source with
      | none => name
      | some u => ((u.resolveName around scope.context name s).1).getD name := by
  rw [meaning, if_neg (not_or.mpr ⟨hprimitive, hvariable⟩)]

/-- During a call each name in the reference is resolved to what it means. -/
theorem ensures_meaning (hsteady : Unchanging around s) (hslots : r.slots.Nodup)
    (hq : q ∈ r.spread) (hgives : scope.Gives q.name q.origin) :
    Ensures (Calling around s scope r) (resolve around q)
      (· = meaning around s scope q.name) := by
  intro t ht
  have hbefore := ht.resolved q hq
  obtain ⟨name, args, dims, origin⟩ := q
  dsimp only at hgives hbefore ⊢
  cases hgives with
  | primitive hprimitive =>
    refine ⟨ht, ?_⟩
    rw [meaning, if_pos (.inl hprimitive)]
    rfl
  | typeVariable _ hmem =>
    refine ⟨ht, ?_⟩
    rw [meaning, if_pos (.inr hmem)]
    rfl
  | written n hprimitive hmem =>
    have hmeaning := meaning_written around s hprimitive hmem
    rw [resolve_written]
    cases hknown : t.known.find? ⟨scope.source, n⟩ with
    | some fullName =>
      simp only [TypeRef.isResolved, TypeRef.value, TypeRef.resolved?, hknown] at hbefore
      exact ⟨ht, hbefore rfl⟩
    | none =>
      dsimp only
      rw [hsteady.unit? t ht.during]
      cases hunit : s.sources.unit? scope.source with
      | none =>
        rw [hunit] at hmeaning
        exact ⟨ht, hmeaning.symm⟩
      | some u =>
        -- The name is looked for now, and `b` is the session behind the search.
        obtain ⟨hsame, hduring, hkept⟩ := hsteady.resolveName ht.during u scope.context name
        rw [hunit] at hmeaning
        dsimp only at hmeaning ⊢
        rw [← hsame] at hmeaning
        have hb : Calling around s scope r (u.resolveName around scope.context name t).2 :=
          ⟨hduring, by rw [hkept]; exact ht.resolved⟩
        generalize u.resolveName around scope.context name t = outcome at hmeaning hb ⊢
        obtain ⟨found, b⟩ := outcome
        cases found with
        | none => exact ⟨hb, hmeaning.symm⟩
        | some fullName =>
          obtain rfl : meaning around s scope name = fullName := hmeaning
          exact ⟨hb.record hslots hq rfl, rfl⟩

end Meaning

/-- The text of a reference that is made of a written type, with all names in it resolved, is the
text of the written type with each name replaced by what it means there, if what is known of classes
does not change meanwhile. Of a reference just made nothing is resolved; a name in it that is
resolved already has to be resolved to what it means. -/
theorem genericValue_refer (a : Assembly) (own : List String) (t : TypeExpr)
    (around : Surroundings Query) (s : Session) (hsteady : Unchanging around s)
    (hresolved : ∀ q ∈ ((refer (a.inside own).scope t).run a.slots).1.spread, q.isResolved s.known →
      q.value s.known = meaning around s (a.inside own).scope q.name) :
    (genericValue around ((refer (a.inside own).scope t).run a.slots).1 s).1 =
      (t.mapNames (meaning around s (a.inside own).scope)).render := by
  obtain ⟨hwritten, hgives⟩ := refer_refers (a.inside own).scope t a.slots
  have hslots := nodup_slots_refer (a.inside own).scope t a.slots
  have hvalue := ensures_genericValue fun q hq => ensures_meaning hsteady hslots hq (hgives q hq)
  rw [hwritten] at hvalue
  exact (hvalue s ⟨.start, hresolved⟩).2

/-- A field of a class with a type variable, read with the standard library. -/
theorem genericValue_refer_field :
    let s := (converse [.add (.text ⟨"C.java"⟩
      "package p; import java.util.Map; class C<T> \x7b Map<String, ? extends T>[] index; \x7d")]
      (standard .standard (.empty ⟨"/"⟩))).2
    let a := { Assembly.start ⟨0⟩ ⟨"C.java"⟩ with stack := [⟨0⟩], typeScopes := [["T"]] }
    let t : TypeExpr :=
      ⟨"Map", [.exactly (.simple "String"), .extending (.simple "T")], 1⟩
    (genericValue s.library ((refer (a.inside []).scope t).run a.slots).1 s).1 =
      "java.util.Map<java.lang.String, ? extends T>[]" := by
  intro s a t
  have hreachable : s.Reachable := ⟨_, _, _, _, rfl⟩
  have hrootless : s.Rootless := by decide +kernel
  have hsteady := hreachable.regular.sound.unchanging_library hrootless
  rw [genericValue_refer a [] t s.library s hsteady (by decide +kernel)]
  decide +kernel

end Session

end JavaModel
