import JavaModel.Proofs.Library.Discovery
import JavaModel.Proofs.Resolution
import JavaModel.Proofs.Session.Later
import JavaModel.Proofs.Session.Spelling

/-! Supertypes as references mean them. A class that is found above another and is not made up has
the full name that a reference means, or the name of the root that goes without saying. But a
reference that means nothing is looked up as it is written: with a dot in it in vain, since that
name was the last to be asked for, but without one it is the full name of a class outside all
packages. -/

namespace JavaModel

/-- The part of a name before its first dot is all of it just where it has no dot. -/
theorem SourceUnit.not_mem_of_splitHead {name head : String}
    (h : SourceUnit.splitHead name = (head, none)) : '.' ∉ name.toList := by
  unfold splitHead at h
  split at h
  · cases h
  · rename_i hsingle
    cases hsegments : Name.segments name with
    | nil => exact absurd hsegments (Name.segments_ne_nil name)
    | cons word rest =>
      cases rest with
      | cons next rest => exact absurd hsegments (hsingle word next rest)
      | nil =>
        have hname : name = word := by
          rw [← Name.ofSegments_segments name, hsegments]
          rfl
        have hword : word ∈ Name.segments name := hsegments ▸ List.mem_cons_self ..
        rw [hname]
        exact Name.not_mem_of_mem_segments hword

/-- The reference is resolved to the full name of the class, or is written just as this name, which
has no dot. -/
def TypeRef.Denotes (known : Resolutions) (r : TypeRef) (c : Class) : Prop :=
  r.resolved? known = some c.fullName ∨ ('.' ∉ r.name.toList ∧ r.name = c.fullName)

theorem Class.Refs.mono {P Q : TypeRef → Prop} {c : Class} (h : c.Refs P) (hPQ : ∀ r, P r → Q r) :
    c.Refs Q := fun site hsite r hr => hPQ r (h site hsite r hr)

/-- The class `d` is above `c` for a reference in `c`, or because it goes without saying. -/
def Class.Extends (known : Resolutions) (c d : Class) : Prop :=
  (∃ r ∈ c.superclass.toList ++ c.interfaces, r.Denotes known d) ∨
    (c.superclass = none ∧ c.implicitSuperclass? = some d.fullName)

namespace Session

variable {s t : Session} {u : SourceUnit} {context : Option ClassIndex} {name : String}
  {r : TypeRef} {c : Class} {a : Answer}

/-- A written reference stands in a unit of the session. -/
def Houses (s : Session) (r : TypeRef) : Prop :=
  ∀ slot context, r.origin = .written slot context → (s.sources.unit? slot.source).isSome

/-- What is known later is known of more references. -/
theorem Leads.resolved? (h : s.Leads t) {fullName : String}
    (hr : r.resolved? s.known = some fullName) : r.resolved? t.known = some fullName := by
  obtain ⟨written, args, dims, origin⟩ := r
  cases origin with
  | written slot context => exact h.known slot fullName hr
  | qualified | typeVariable => exact hr

theorem Leads.houses (h : s.Leads t) (hr : s.Houses r) : t.Houses r := by
  intro slot context horigin
  obtain ⟨u, hu⟩ := Option.isSome_iff_exists.mp (hr slot context horigin)
  exact Option.isSome_iff_exists.mpr ⟨u, h.sources.unit? hu⟩

theorem Leads.denotes (h : s.Leads t) (hr : r.Denotes s.known c) : r.Denotes t.known c :=
  hr.imp_left h.resolved?

theorem Leads.above (h : s.Leads t) {d : Class} (hc : c.Extends s.known d) :
    c.Extends t.known d :=
  hc.imp_left fun ⟨r, hr, hdenotes⟩ => ⟨r, hr, h.denotes hdenotes⟩

/-! ### Classes of a session -/

theorem Reachable.houses_declared (h : s.Reachable) (hc : c ∈ s.sources.declared) :
    c.Refs s.Houses := by
  obtain ⟨u, hu, hc⟩ := List.mem_flatMap.mp hc
  obtain ⟨n, hn⟩ := List.mem_iff_getElem?.mp hc
  intro site hsite r hr slot context horigin
  obtain ⟨hsource, _⟩ :=
    ((h.regular.read u hu).arranged.owned ⟨n⟩ c hn).refs site hsite r hr slot context horigin
  rw [hsource]
  exact List.find?_isSome.mpr ⟨u, hu, decide_eq_true rfl⟩

/-- A class that is found is declared in a unit, has the shape that a registry gives its name, or is
made up. -/
theorem Reachable.found_cases (h : s.Reachable) (ha : (classNamed name s).1 = some a) :
    a.found ∈ (classNamed name s).2.sources.declared ∨
      (∃ e ∈ s.entries, ∃ registry shape, e.strategy = .registry registry ∧
        registry.find? name = some shape ∧ a.found = shape.toClass) ∨
      a.found = .stub name := by
  have hfilled := (h.later (later_classNamed name s)).isFilled
  have hsources : (classNamed name s).2.sources =
      (consult s.tree false name 0 s.entries s.sources).sources := sources_count _ _
  obtain ⟨e, he, hfinds⟩ := finds_of_consult h.regular.sound.entries ha
  rw [← hsources] at hfinds
  cases hstrategy : e.strategy with
  | parsedSources | sourceRoots locators =>
    rw [hstrategy] at hfinds
    exact .inl (hfilled.class?_spec hfinds).2
  | registry registry =>
    rw [hstrategy] at hfinds
    obtain ⟨shape, hfind, hshape⟩ := Option.map_eq_some_iff.mp hfinds
    exact .inr (.inl ⟨e, he, registry, shape, hstrategy, hfind, hshape.symm⟩)
  | stub =>
    rw [hstrategy] at hfinds
    exact .inr (.inr hfinds.2)

/-- A class that is found has references of a kind only, if that holds of the classes in the units
and qualified references are of that kind. -/
theorem Reachable.refs_found {P : TypeRef → Prop} (h : s.Reachable)
    (ha : (classNamed name s).1 = some a)
    (hdeclared : ∀ c ∈ (classNamed name s).2.sources.declared, c.Refs P)
    (hqualified : ∀ r, r.origin = .qualified → P r) : a.found.Refs P := by
  obtain hdecl | ⟨_, _, _, shape, _, _, hshape⟩ | hstub := h.found_cases ha
  · exact hdeclared _ hdecl
  · rw [hshape]
    exact fun site hsite r hr => hqualified r (shape.refs_toClass site hsite r hr)
  · rw [hstub]
    exact fun site hsite => absurd hsite List.not_mem_nil

/-- References in a class that is found stand in units of the session. -/
theorem Reachable.houses_found (h : s.Reachable) (ha : (classNamed name s).1 = some a) :
    a.found.Refs (classNamed name s).2.Houses :=
  h.refs_found ha (fun _ hc => (h.later (later_classNamed name s)).houses_declared hc)
    fun _ hqualified _ _ hwritten => by cases hqualified.symm.trans hwritten

/-! ### What is looked up for a reference -/

/-- A class that was just said not to exist does not exist. -/
theorem Sound.unknown_again (h : s.Sound) (hunknown : (hasClass name s).1 = false) :
    (hasClass name (hasClass name s).2).1 = false := by
  obtain ⟨hsound, hleads⟩ := keeps_hasClass name s h
  have hexhausted := (exhausted_of_hasClass hunknown).1
  obtain ⟨⟨⟨e, he, hparsed⟩, hdeclared⟩, _⟩ | ⟨_, hfalse, _⟩ := hasClass_of_exhausted hsound hexhausted
  · -- The units were asked, and none of them declared the class then.
    have hnone : (consult s.tree true name 0 s.entries s.sources).answer = none :=
      Option.not_isSome_iff_eq_none.mp (Bool.eq_false_iff.mp hunknown)
    have hasked : .parsedSources ∈ s.entries.map (·.strategy) := by
      rw [← hleads.strategies, ← hparsed]
      exact List.mem_map_of_mem he
    have hundeclared := class?_of_unanswered h.entries (.inl hasked) hnone
    have hsources : (hasClass name s).2.sources =
        (consult s.tree true name 0 s.entries s.sources).sources := sources_count _ _
    rw [hsources, hundeclared] at hdeclared
    cases hdeclared
  · exact hfalse

/-- A name with a dot in it that means nothing is not the name of a class. -/
theorem Sound.unknown_of_unmeant (h : s.Sound) (hdotted : '.' ∈ name.toList)
    (hnone : u.resolveName s.library context name s = (none, t)) : (hasClass name t).1 = false := by
  rw [SourceUnit.resolveName] at hnone
  rcases hsplit : SourceUnit.splitHead name with ⟨head, _ | rest⟩
  · exact absurd hdotted (SourceUnit.not_mem_of_splitHead hsplit)
  rw [hsplit] at hnone
  dsimp only at hnone
  rw [bind_apply] at hnone
  have hkeeps : (u.resolveSimple s.library context head).Keeps :=
    keeps_resolveSimple u keeps_hasClass context head
  have hsimple := (hkeeps s h).1
  cases hhead : (u.resolveSimple s.library context head s).1 with
  | some outer =>
    rw [hhead] at hnone
    cases hnone
  | none =>
    rw [hhead] at hnone
    dsimp only at hnone
    rw [bind_apply] at hnone
    cases hknown : (hasClass name (u.resolveSimple s.library context head s).2).1 with
    | true =>
      rw [show (s.library.isKnown name (u.resolveSimple s.library context head s).2).1 = true
        from hknown] at hnone
      cases hnone
    | false =>
      rw [show (s.library.isKnown name (u.resolveSimple s.library context head s).2).1 = false
        from hknown] at hnone
      cases hpackage : SourceUnit.isPackageLike head <;> rw [hpackage] at hnone <;> cases hnone
      exact hsimple.unknown_again hknown

/-- Resolving a reference gives what it is resolved to then, or its name as written; and if this has
a dot in it, no class has this name. -/
theorem Sound.resolveRef_cases (h : s.Sound) (hr : s.Houses r) :
    r.resolved? (resolveRef r s).2.known = some (resolveRef r s).1 ∨
      ((resolveRef r s).1 = r.name ∧
        ('.' ∈ r.name.toList → (hasClass r.name (resolveRef r s).2).1 = false)) := by
  obtain ⟨written, args, dims, origin⟩ := r
  cases origin with
  | qualified | typeVariable => exact .inl rfl
  | written slot context =>
    have houtcome := outcome_resolveRef written args dims slot context s
    generalize resolveRef ⟨written, args, dims, .written slot context⟩ s = outcome at houtcome ⊢
    cases houtcome with
    | known hknown => exact .inl hknown
    | strayed _ hunit =>
      obtain ⟨u, hu⟩ := Option.isSome_iff_exists.mp (hr slot context rfl)
      cases hunit.symm.trans hu
    | unmeant _ _ hname _ => exact .inr ⟨rfl, fun hdotted => h.unknown_of_unmeant hdotted hname⟩
    | meant _ _ _ _ hmeaning => exact .inl hmeaning

/-- A class that is looked up for a reference and is not made up is one that the reference denotes.
-/
theorem Reachable.denotes_of_classNamed (h : s.Reachable) (hr : s.Houses r)
    (ha : (classNamed (resolveRef r s).1 (resolveRef r s).2).1 = some a)
    (hreal : a.found.isStub = false) : r.Denotes (resolveRef r s).2.known a.found := by
  have ht := h.later (later_resolveRef r s)
  have hfullName : a.found.fullName = (resolveRef r s).1 :=
    fullName_of_consult ht.regular.sound.entries ht.isFilled ha
  rw [TypeRef.Denotes, hfullName]
  refine (h.regular.sound.resolveRef_cases hr).imp_right fun ⟨hname, hunknown⟩ => ?_
  refine ⟨fun hdotted => ?_, hname.symm⟩
  -- A class with a dot in its name exists if it is found and is not made up.
  obtain ⟨_, made, hanswer, hmade, _⟩ := ht.answers (resolveRef r s).1
  have hnone : (find true (resolveRef r s).1 (resolveRef r s).2).1 = none := by
    have hfalse := hunknown hdotted
    rw [← hname] at hfalse
    exact Option.not_isSome_iff_eq_none.mp (Bool.eq_false_iff.mp hfalse)
  rw [hanswer, hnone, Option.none_or] at ha
  rw [hmade a ha] at hreal
  cases hreal

/-! ### Steps upwards -/

/-- The class is one of the session, and if it is not made up one of the references denotes it. -/
structure Denotes (s : Session) (rs : List TypeRef) (a : Answer) : Prop where
  houses : a.found.Refs s.Houses
  denoted : a.found.isStub = false → ∃ r ∈ rs, r.Denotes s.known a.found

/-- The class is one of the session, and if it is not made up it is above `c` for a reason. -/
structure Justifies (s : Session) (c : Class) (a : Answer) : Prop where
  houses : a.found.Refs s.Houses
  above : a.found.isStub = false → c.Extends s.known a.found

theorem Denotes.later {rs : List TypeRef} (h : s.Denotes rs a) (hs : s.Sound)
    (hlater : s.Later t) : t.Denotes rs a := by
  have hleads := (hs.later hlater).2
  exact ⟨h.houses.mono fun _ => hleads.houses, fun hreal =>
    (h.denoted hreal).imp fun _ ⟨hr, hdenotes⟩ => ⟨hr, hleads.denotes hdenotes⟩⟩

theorem Justifies.later (h : s.Justifies c a) (hs : s.Sound) (hlater : s.Later t) :
    t.Justifies c a := by
  have hleads := (hs.later hlater).2
  exact ⟨h.houses.mono fun _ => hleads.houses, fun hreal => hleads.above (h.above hreal)⟩

theorem Denotes.mono {rs rs' : List TypeRef} (h : s.Denotes rs a) (hrs : rs ⊆ rs') :
    s.Denotes rs' a :=
  ⟨h.houses, fun hreal => (h.denoted hreal).imp fun _ ⟨hr, hdenotes⟩ => ⟨hrs hr, hdenotes⟩⟩

/-- References of a class are reasons for what they denote. -/
theorem Denotes.justifies {rs : List TypeRef} (h : s.Denotes rs a)
    (hrs : rs ⊆ c.superclass.toList ++ c.interfaces) : s.Justifies c a :=
  ⟨h.houses, fun hreal => .inl ((h.mono hrs).denoted hreal)⟩

theorem Reachable.denotes_reference (h : s.Reachable) (hr : s.Houses r)
    (ha : (classNamed (resolveRef r s).1 (resolveRef r s).2).1 = some a) :
    (classNamed (resolveRef r s).1 (resolveRef r s).2).2.Denotes [r] a := by
  have ht := h.later (later_resolveRef r s)
  have hleads := (ht.regular.sound.later (later_classNamed (resolveRef r s).1 _)).2
  exact ⟨ht.houses_found ha, fun hreal =>
    ⟨r, List.mem_singleton_self r, hleads.denotes (h.denotes_of_classNamed hr ha hreal)⟩⟩

theorem superclassOf_written (hsuperclass : c.superclass = some r) (s : Session) :
    superclassOf c s = classNamed (resolveRef r s).1 (resolveRef r s).2 := by
  rw [superclassOf, superclassName, hsuperclass]
  rfl

theorem superclassOf_unwritten (hsuperclass : c.superclass = none) (s : Session) :
    superclassOf c s =
      match c.implicitSuperclass? with
      | some name => classNamed name s
      | none => (none, s) := by
  rw [superclassOf, superclassName, hsuperclass, bind_apply]
  cases c.implicitSuperclass? <;> rfl

theorem Reachable.denotes_superclassOf (h : s.Reachable) (hc : c.Refs s.Houses)
    (hsuperclass : c.superclass = some r) (ha : (superclassOf c s).1 = some a) :
    (superclassOf c s).2.Denotes [r] a := by
  rw [superclassOf_written hsuperclass] at ha ⊢
  exact h.denotes_reference (hc.superclass r hsuperclass) ha

theorem Reachable.justifies_superclassOf (h : s.Reachable) (hc : c.Refs s.Houses)
    (ha : (superclassOf c s).1 = some a) : (superclassOf c s).2.Justifies c a := by
  cases hsuperclass : c.superclass with
  | some r => exact (h.denotes_superclassOf hc hsuperclass ha).justifies (by simp [hsuperclass])
  | none =>
    rw [superclassOf_unwritten hsuperclass] at ha ⊢
    cases himplicit : c.implicitSuperclass? with
    | none =>
      rw [himplicit] at ha
      cases ha
    | some name =>
      rw [himplicit] at ha
      have hfullName : a.found.fullName = name :=
        fullName_of_consult h.regular.sound.entries h.isFilled ha
      exact ⟨h.houses_found ha, fun _ => .inr ⟨hsuperclass, hfullName ▸ himplicit⟩⟩

theorem Reachable.denotes_findAll (h : s.Reachable) {rs : List TypeRef}
    (hrs : ∀ r ∈ rs, s.Houses r) : ∀ a ∈ (findAll rs s).1, (findAll rs s).2.Denotes rs a := by
  induction rs generalizing s with
  | nil => exact fun a ha => absurd ha List.not_mem_nil
  | cons r rs ih =>
    obtain ⟨hr, hrs⟩ := List.forall_mem_cons.mp hrs
    rw [findAll_cons]
    have hlater := (later_resolveRef r s).trans (later_classNamed (resolveRef r s).1 _)
    have ht := h.later hlater
    have hleads := (h.regular.sound.later hlater).2
    intro a ha
    rcases List.mem_append.mp ha with ha | ha
    · exact ((h.denotes_reference hr (Option.mem_toList.mp ha)).later ht.regular.sound
        (later_findAll rs _)).mono (by simp)
    · exact (ih ht (fun q hq => hleads.houses (hrs q hq)) a ha).mono (by simp)

theorem Reachable.justifies_directSupertypes (h : s.Reachable) (hc : c.Refs s.Houses) :
    ∀ a ∈ (directSupertypes c s).1, (directSupertypes c s).2.Justifies c a := by
  have hlater := later_superclassOf c s
  have ht := h.later hlater
  have hleads := (h.regular.sound.later hlater).2
  rw [directSupertypes_eq]
  intro a ha
  rcases List.mem_append.mp ha with ha | ha
  · exact (h.justifies_superclassOf hc (Option.mem_toList.mp ha)).later ht.regular.sound
      (later_interfacesOf c _)
  · exact (ht.denotes_findAll (fun q hq => hleads.houses (hc.interfaces q hq)) a ha).justifies
      (by simp)

/-! ### The walk upwards -/

/-- What is met on a walk upwards is in its queue or directly above something else that is met. -/
theorem Walks.justifies {seen : List String} {queue found : List Answer}
    (hwalks : Walks seen queue s found t) (h : s.Reachable)
    (hqueue : ∀ a ∈ queue, a.found.Refs s.Houses) :
    ∀ b ∈ found, b ∈ queue ∨ ∃ a ∈ found, t.Justifies a.found b := by
  induction hwalks with
  | done => exact fun b hb => .inl hb
  | @next seen a queue found s t more ih =>
    obtain ⟨ha, hqueue⟩ := List.forall_mem_cons.mp hqueue
    have hlater := later_directSupertypes a.found s
    have ht := h.later hlater
    have hleads := (h.regular.sound.later hlater).2
    have habove := h.justifies_directSupertypes ha
    have hhouses : ∀ d ∈ (enqueue seen (directSupertypes a.found s).1).1,
        d.found.Refs (directSupertypes a.found s).2.Houses := fun d hd =>
      (habove d (mem_of_mem_enqueue hd)).houses
    intro b hb
    obtain rfl | hb := List.mem_cons.mp hb
    · exact .inl (List.mem_cons_self ..)
    obtain hb | ⟨d, hd, hjustifies⟩ := ih ht (List.forall_mem_append.mpr
      ⟨fun d hd => (hqueue d hd).mono fun _ => hleads.houses, hhouses⟩) b hb
    · obtain hb | hb := List.mem_append.mp hb
      · exact .inl (List.mem_cons_of_mem a hb)
      · exact .inr ⟨a, List.mem_cons_self .., (habove b (mem_of_mem_enqueue hb)).later
          ht.regular.sound more.later⟩
    · exact .inr ⟨d, List.mem_cons_of_mem a hd, hjustifies⟩

theorem Reachable.justifies_ancestors (h : s.Reachable) (hc : c.Refs s.Houses) {as : List Answer}
    (has : (ancestors c s).1 = some as) :
    ∀ b ∈ as, (ancestors c s).2.Justifies c b ∨
      ∃ a ∈ as, (ancestors c s).2.Justifies a.found b := by
  have ht := h.later (later_directSupertypes c s)
  have hdirect := h.justifies_directSupertypes hc
  have hwalks := walksAbove_of_ancestors has
  intro b hb
  refine (hwalks.justifies ht (fun a ha => ?_) b hb).imp_left fun hb => ?_
  · exact (hdirect a (mem_of_mem_enqueue ha)).houses
  · exact (hdirect b (mem_of_mem_enqueue hb)).later ht.regular.sound hwalks.later

/-! ### Whole sessions -/

/-- In any session, let the written references of a class stand in units of the session, as they do
in every class of a unit and in every class that is found. The superclass, where one is written, and
the interfaces are classes that references to a superclass and to interfaces are resolved to, or are
made up; but a reference that means nothing and has no dot may also be written as the full name of
the class. Every other class above is directly above one of them, or above the class itself, for
such a reference or because it goes without saying; and a class is none but itself and those above.
-/
theorem supertypes_denoted (h : s.Reachable) (hc : c.Refs s.Houses) :
    (∀ r, c.superclass = some r → ∀ a, (superclassOf c s).1 = some a →
      a.found.isStub = false → r.Denotes (superclassOf c s).2.known a.found) ∧
    (∀ a ∈ (interfacesOf c s).1, a.found.isStub = false →
      ∃ r ∈ c.interfaces, r.Denotes (interfacesOf c s).2.known a.found) ∧
    (∀ as ∈ (ancestors c s).1, ∀ b ∈ as, b.found.isStub = false →
      c.Extends (ancestors c s).2.known b.found ∨
        ∃ a ∈ as, a.found.Extends (ancestors c s).2.known b.found) ∧
    ∀ fullName, (isA c fullName s).1 = some true → c.fullName = fullName ∨
      ∃ as ∈ (ancestors c s).1, fullName ∈ names as := by
  refine ⟨fun r hsuperclass a ha hreal => ?_, fun a ha hreal => ?_, fun as has b hb hreal => ?_,
    fun _ => isA_iff.mp⟩
  · obtain ⟨q, hq, hdenotes⟩ := (h.denotes_superclassOf hc hsuperclass ha).denoted hreal
    exact List.mem_singleton.mp hq ▸ hdenotes
  · exact (h.denotes_findAll hc.interfaces a ha).denoted hreal
  · exact (h.justifies_ancestors hc has b hb).imp (fun hjustifies => hjustifies.above hreal)
      fun ⟨a, ha, hjustifies⟩ => ⟨a, ha, hjustifies.above hreal⟩

/-- A class with a superclass that an import names, and with an interface of its own package. -/
theorem supertypes_denoted_imported :
    let s := (converse [.add (.text ⟨"D.java"⟩ "package q; class D \x7b\x7d"),
      .add (.text ⟨"C.java"⟩ "package p; import q.D; class C extends D implements I \x7b\x7d"),
      .add (.text ⟨"I.java"⟩ "package p; interface I \x7b\x7d")]
        (standard .standard (.empty ⟨"/"⟩))).2
    s.Reachable ∧ ∃ c ∈ s.sources.declared, c.fullName = "p.C" ∧ c.Refs s.Houses ∧
      (∃ r a, c.superclass = some r ∧ (superclassOf c s).1 = some a ∧
        a.found.fullName = "q.D" ∧ r.Denotes (superclassOf c s).2.known a.found) ∧
      (∃ a ∈ (interfacesOf c s).1, a.found.fullName = "p.I" ∧
        ∃ r ∈ c.interfaces, r.Denotes (interfacesOf c s).2.known a.found) ∧
      ((isA c "q.D" s).1 = some true ∧ ∃ as ∈ (ancestors c s).1, "q.D" ∈ names as) := by
  intro s
  have hreachable : s.Reachable := ⟨_, _, _, _, rfl⟩
  obtain ⟨c, hc, hname, ⟨r, hr, a, ha, hstub, hfound⟩, ⟨b, hb, hstub', hfound'⟩, habove⟩ :
      ∃ c ∈ s.sources.declared, c.fullName = "p.C" ∧
        (∃ r ∈ c.superclass, ∃ a ∈ (superclassOf c s).1, a.found.isStub = false ∧
          a.found.fullName = "q.D") ∧
        (∃ b ∈ (interfacesOf c s).1, b.found.isStub = false ∧ b.found.fullName = "p.I") ∧
        ∃ as ∈ (ancestorsWithin 4 c s).1, "q.D" ∈ names as := by
    decide +kernel
  clear_value s
  obtain ⟨as, has, hD⟩ := habove
  have habove : ∃ as ∈ (ancestors c s).1, "q.D" ∈ names as := by
    rw [ancestors_of_within 4 (Option.isSome_of_mem has)]
    exact ⟨as, has, hD⟩
  have hisA : (isA c "q.D" s).1 = some true := isA_iff.mpr (.inr habove)
  have hhouses := hreachable.houses_declared hc
  obtain ⟨hsuperclass, hinterfaces, _, hnames⟩ := supertypes_denoted hreachable hhouses
  refine ⟨hreachable, c, hc, hname, hhouses, ⟨r, a, hr, ha, hfound, hsuperclass r hr a ha hstub⟩,
    ⟨b, hb, hfound', hinterfaces b hb hstub'⟩, hisA, (hnames _ hisA).resolve_left ?_⟩
  rw [hname]
  decide

/-- A class in a package that extends a class outside all packages by its name. The reference means
nothing and is reported as unresolved, and yet it leads to the class. -/
theorem supertypes_unresolved :
    let s := (converse [.add (.text ⟨"B.java"⟩ "class B \x7b\x7d"),
      .add (.text ⟨"C.java"⟩ "package p; class C extends B \x7b\x7d")]
        (standard .standard (.empty ⟨"/"⟩))).2
    ∃ c ∈ s.sources.declared, c.fullName = "p.C" ∧ ∃ r ∈ c.superclass, ∃ a ∈ (superclassOf c s).1,
      a.found.isStub = false ∧ a.found.fullName = "B" ∧
        r.isResolved (superclassOf c s).2.known = false ∧
        (unresolved (superclassOf c s).2).1.map (fun x => (x.owner, x.name)) = [("p.C", "B")] ∧
        (isA c "B" s).1 = some true := by
  intro s
  obtain ⟨c, hc, hname, r, hr, a, ha, hfound, ⟨as, has, hB⟩⟩ :
      ∃ c ∈ s.sources.declared, c.fullName = "p.C" ∧ ∃ r ∈ c.superclass,
        ∃ a ∈ (superclassOf c s).1, (a.found.isStub = false ∧ a.found.fullName = "B" ∧
          r.isResolved (superclassOf c s).2.known = false ∧
          (unresolved (superclassOf c s).2).1.map (fun x => (x.owner, x.name)) = [("p.C", "B")]) ∧
        ∃ as ∈ (ancestorsWithin 4 c s).1, "B" ∈ names as := by
    decide +kernel
  clear_value s
  have hisA : (isA c "B" s).1 = some true := by
    refine isA_iff.mpr (.inr ?_)
    rw [ancestors_of_within 4 (Option.isSome_of_mem has)]
    exact ⟨as, has, hB⟩
  obtain ⟨hreal, hnamed, hunresolved, hreport⟩ := hfound
  exact ⟨c, hc, hname, r, hr, a, ha, hreal, hnamed, hunresolved, hreport, hisA⟩

end Session

end JavaModel
