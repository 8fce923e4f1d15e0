import Mathlib.Data.List.Pairwise
import JavaModel.Proofs.Session.Navigation
import JavaModel.Proofs.Session.Unresolved

/-! Answers that stay. Where no strategy reads source files, a class that is found is found again
later, and a reference in a unit means later what it means now, whether or not other references have
been resolved in the meantime. So the classes directly above a class are the same ones whenever they
are asked for. -/

namespace JavaModel.Session

variable {s t a b : Session} {r : TypeRef} {c : Class} {name : String} {α β : Type}

/-! ### The meaning of one reference -/

/-- What a reference means depends on the units, on the library and on what is known of it. -/
theorem Fixed.same_meaning (ha : s.Fixed a) (hb : s.Fixed b)
    (hknown : ∀ slot, r.origin.slot? = some slot → a.known.find? slot = b.known.find? slot) :
    (resolveRef r a).1 = (resolveRef r b).1 := by
  obtain ⟨written, args, dims, origin⟩ := r
  cases origin with
  | qualified | typeVariable => rfl
  | written slot context =>
    have hslot : a.known.find? slot = b.known.find? slot := hknown slot rfl
    rw [resolveRef_written, resolveRef_written, hslot, ha.sources, hb.sources]
    cases b.known.find? slot with
    | some fullName => rfl
    | none =>
      cases s.sources.unit? slot.source with
      | none => rfl
      | some u =>
        obtain ⟨hsame, _⟩ := ha.resolveName hb u context written
        dsimp only
        generalize u.resolveName a.library context written a = outcome at hsame ⊢
        generalize u.resolveName b.library context written b = outcome' at hsame ⊢
        obtain ⟨meaning, _⟩ := outcome
        obtain ⟨meaning', _⟩ := outcome'
        obtain rfl : meaning = meaning' := hsame
        cases meaning <;> rfl

/-- What resolving a reference gives is its value then. -/
theorem value_resolveRef (r : TypeRef) (a : Session) :
    r.value (resolveRef r a).2.known = (resolveRef r a).1 := by
  obtain ⟨written, args, dims, origin⟩ := r
  cases origin with
  | qualified | typeVariable => rfl
  | written slot context =>
    have houtcome := outcome_resolveRef written args dims slot context a
    generalize resolveRef ⟨written, args, dims, .written slot context⟩ a = outcome at houtcome ⊢
    change (outcome.2.known.find? slot).getD written = outcome.1
    cases houtcome with
    | known hknown => rw [hknown, Option.getD_some]
    | strayed hunknown _ => rw [hunknown, Option.getD_none]
    | unmeant hunknown _ _ hkept => rw [hkept, hunknown, Option.getD_none]
    | meant _ _ _ _ hmeaning => rw [hmeaning, Option.getD_some]

/-- What a reference means once, it means the next time. -/
theorem Fixed.meaning_again (hs : s.Fixed s) (h : s.Fixed a) (r : TypeRef) :
    (resolveRef r (resolveRef r a).2).1 = (resolveRef r a).1 := by
  have hfirst := hs.resolves h r
  have hagain := (hs.resolves hfirst.fixed r).again hfirst.decided
  rw [← value_resolveRef, hagain, value_resolveRef]

/-! ### Sessions where nothing has moved -/

/-- A written reference is one of those in the units of the session. -/
def Lists (s : Session) (r : TypeRef) : Prop :=
  ∀ slot, r.origin.slot? = some slot → ∃ x ∈ s.sources.references, x.ref = r

/-- `t` has the units and the library of `s`, and the references in the units mean there what they
mean in `s`. -/
structure Unmoved (s t : Session) : Prop where
  fixed : s.Fixed t
  meaning : ∀ r, s.Lists r → (resolveRef r t).1 = (resolveRef r s).1

theorem unmoved_self (h : s.Fixed s) : s.Unmoved s := ⟨h, fun _ _ => rfl⟩

/-- References in the units that share a slot are one and the same. -/
theorem Reachable.eq_of_slot (h : s.Reachable) {r q : TypeRef} (hr : s.Lists r) (hq : s.Lists q)
    {slot : Slot} (hslot : r.origin.slot? = some slot) (hslot' : q.origin.slot? = some slot) :
    r = q := by
  obtain ⟨x, hx, rfl⟩ := hr slot hslot
  obtain ⟨y, hy, rfl⟩ := hq slot hslot'
  by_contra hne
  have : Std.Symm (Function.onFun List.Disjoint fun x : Reference =>
    x.ref.origin.slot?.toList) := ⟨fun _ _ hdisjoint _ hmem hmem' => hdisjoint hmem' hmem⟩
  have hdisjoint := (List.nodup_flatMap.mp h.nodup_slots).2.forall hx hy
    fun heq => hne (congrArg Reference.ref heq)
  exact hdisjoint (Option.mem_toList.mpr hslot) (Option.mem_toList.mpr hslot')

/-- References in a class that is found are among those in the units. -/
theorem Reachable.lists_found (h : s.Reachable) (hroots : s.Rootless) {answer : Answer}
    (ha : (classNamed name s).1 = some answer) : answer.found.Refs s.Lists := by
  have hsources : (classNamed name s).2.sources = s.sources :=
    ((h.regular.sound.fixed hroots).find false name).2.sources
  refine h.refs_found ha (fun c hc site hsite r hr slot _ => ?_) fun r hqualified slot hslot => ?_
  · rw [hsources] at hc
    obtain ⟨u, hu, hc⟩ := List.mem_flatMap.mp hc
    refine ⟨⟨u.path, c.fullName, site.site, site.line, r⟩, ?_, rfl⟩
    exact List.mem_flatMap.mpr ⟨u, hu, List.mem_flatMap.mpr ⟨c, hc,
      List.mem_flatMap.mpr ⟨site, hsite, List.mem_map_of_mem hr⟩⟩⟩
  · rw [hqualified] at hslot
    cases hslot

/-! ### Queries whose answers stay -/

/-- As long as nothing has moved since `s`, the query has the answer `answer`, and moves nothing
itself. -/
def Lasting (s : Session) (query : Query α) (answer : α) : Prop :=
  query.Ensures s.Unmoved (· = answer)

theorem lasting_pure (answer : α) : s.Lasting (pure answer) answer := fun _ ht => ⟨ht, rfl⟩

theorem Lasting.bind {query : Query α} {rest : α → Query β} {first : α} {answer : β}
    (hquery : s.Lasting query first) (hrest : s.Lasting (rest first) answer) :
    s.Lasting (query >>= rest) answer :=
  Query.Ensures.bind hquery fun _ hsame => hsame ▸ hrest

/-- The session comes about like any other, and has no source roots. -/
structure Rigid (s : Session) : Prop where
  reachable : s.Reachable
  rootless : s.Rootless

variable (h : s.Rigid)

include h

theorem Rigid.fixed : s.Fixed s := h.reachable.regular.sound.fixed h.rootless

theorem Rigid.unmoved : s.Unmoved s := unmoved_self h.fixed

/-- A lasting answer is the answer now. -/
theorem Rigid.lasting_now {query : Query α} (hquery : ∃ answer, s.Lasting query answer) :
    s.Lasting query (query s).1 := by
  obtain ⟨answer, hanswer⟩ := hquery
  rwa [(hanswer s h.unmoved).2]

theorem Rigid.lasting_classNamed (name : String) :
    s.Lasting (classNamed name) (classNamed name s).1 := by
  intro t ht
  have hfixed : s.Fixed (classNamed name t).2 := (ht.fixed.find false name).2
  have hknown : (classNamed name t).2.known = t.known := known_count _ _
  refine ⟨⟨hfixed, fun r hr => ?_⟩, ht.fixed.same_answer h.fixed false name⟩
  rw [hfixed.same_meaning ht.fixed fun slot _ => by rw [hknown]]
  exact ht.meaning r hr

theorem Rigid.lasting_resolveRef (hr : s.Lists r) :
    s.Lasting (resolveRef r) (resolveRef r s).1 := by
  intro t ht
  have hresolves := h.fixed.resolves ht.fixed r
  refine ⟨⟨hresolves.fixed, fun q hq => ?_⟩, ht.meaning r hr⟩
  rw [← ht.meaning q hq]
  by_cases hsame : r = q
  · rw [hsame]
    exact h.fixed.meaning_again ht.fixed q
  · -- What becomes known of one reference is not known of another.
    exact hresolves.fixed.same_meaning ht.fixed fun slot hslot =>
      hresolves.others slot fun hslot' => hsame (h.reachable.eq_of_slot hr hq hslot' hslot)

theorem Rigid.lasting_superclassName (hc : c.Refs s.Lists) :
    s.Lasting (superclassName c) (superclassName c s).1 := by
  refine h.lasting_now ?_
  unfold superclassName
  split
  · rename_i r hsuperclass
    exact ⟨_, (h.lasting_resolveRef (hc.superclass r hsuperclass)).bind (lasting_pure _)⟩
  · exact ⟨_, lasting_pure _⟩

theorem Rigid.lasting_superclassOf (hc : c.Refs s.Lists) :
    s.Lasting (superclassOf c) (superclassOf c s).1 := by
  have hname := h.lasting_superclassName hc
  refine h.lasting_now ?_
  cases hanswer : (superclassName c s).1 with
  | some name =>
    rw [hanswer] at hname
    exact ⟨_, hname.bind (h.lasting_classNamed name)⟩
  | none =>
    rw [hanswer] at hname
    exact ⟨_, hname.bind (lasting_pure none)⟩

theorem Rigid.lasting_findAll {rs : List TypeRef} (hrs : ∀ r ∈ rs, s.Lists r) :
    s.Lasting (findAll rs) (findAll rs s).1 := by
  refine h.lasting_now ?_
  induction rs with
  | nil => exact ⟨_, lasting_pure []⟩
  | cons r rs ih =>
    obtain ⟨hr, hrs⟩ := List.forall_mem_cons.mp hrs
    obtain ⟨as, has⟩ := ih hrs
    exact ⟨_, (h.lasting_resolveRef hr).bind
      ((h.lasting_classNamed _).bind (has.bind (lasting_pure _)))⟩

/-! ### Above a class -/

/-- The classes directly above a class, as they are found now. -/
def above (s : Session) (a : Answer) : List Answer :=
  (superclassOf a.found s).1.toList ++ (interfacesOf a.found s).1

theorem Rigid.lasting_directSupertypes {answer : Answer} (hc : answer.found.Refs s.Lists) :
    s.Lasting (directSupertypes answer.found) (s.above answer) :=
  (h.lasting_superclassOf hc).bind ((h.lasting_findAll hc.interfaces).bind (lasting_pure _))

end JavaModel.Session
