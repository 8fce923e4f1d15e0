import JavaModel.Proofs.Session.Abreast

/-! What a stub at the end of a chain can change. Two sessions with the same options and chain, but
for a stub in the one, are put to the same requests. Units, existence, resolution and checks are the
same in both, and where classes are listed the one only lists stubs besides, until a walk upwards
meets a stub that goes by the name of a class that the other walk lists. -/

namespace JavaModel

namespace Session

/-- What a host may ask of a session. -/
inductive Request where
  /-- Additions, questions for a class and resolutions. -/
  | perform (op : Operation)
  | superclassOf (c : Class)
  | interfacesOf (c : Class)
  | ancestors (c : Class)
  | isA (c : Class) (fullName : String)
  | unresolved

/-- The session behind a request. -/
def asked (s : Session) : Request → Session
  | .perform op => s.perform op
  | .superclassOf c => (superclassOf c s).2
  | .interfacesOf c => (interfacesOf c s).2
  | .ancestors c => (Session.ancestors c s).2
  | .isA c fullName => (Session.isA c fullName s).2
  | .unresolved => (Session.unresolved s).2

/-- The session behind requests in order. -/
def askedAll (s : Session) (rs : List Request) : Session := rs.foldl asked s

/-- The second session answers a request as the first does, but for stubs. It may also find a class
to be below a stub that it lists above the class. -/
def AnswersAlike (s t : Session) : Request → Prop
  | .perform (.addText path text) => (addText path text s).1 = (addText path text t).1
  | .perform (.addBytes path bytes) => (addBytes path bytes s).1 = (addBytes path bytes t).1
  | .perform (.addFile path) => (addFile path s).1 = (addFile path t).1
  | .perform (.addTree dir) => (addTree dir s).1 = (addTree dir t).1
  | .perform (.addFiles numbering files) =>
    (addFiles numbering.order files s).1 = (addFiles numbering.order files t).1
  | .perform (.classNamed fullName) =>
    (classNamed fullName s).1.toList = withoutStubs (classNamed fullName t).1.toList
  | .perform (.hasClass fullName) => (hasClass fullName s).1 = (hasClass fullName t).1
  | .perform (.resolve r) => (resolveRef r s).1 = (resolveRef r t).1
  | .perform (.resolveAmongUnits r) => (resolve onlySources r s).1 = (resolve onlySources r t).1
  | .superclassOf c => (superclassOf c s).1.toList = withoutStubs (superclassOf c t).1.toList
  | .interfacesOf c => (interfacesOf c s).1 = withoutStubs (interfacesOf c t).1
  | .ancestors c => (Session.ancestors c s).1 = (Session.ancestors c t).1.map withoutStubs
  | .isA c fullName =>
    (Session.isA c fullName s).1 = (Session.isA c fullName t).1 ∨
      ((Session.isA c fullName s).1 = some false ∧ (Session.isA c fullName t).1 = some true ∧
        ∃ bs ∈ (Session.ancestors c t).1, fullName ∈ stubNames bs)
  | .unresolved => (Session.unresolved s).1 = (Session.unresolved t).1

/-- The second session answers a request as the first does, but for stubs, and has the same units
and the same resolved references behind it. -/
structure Indifferent (s t : Session) (r : Request) : Prop where
  answers : AnswersAlike s t r
  sources : (t.asked r).sources = (s.asked r).sources
  known : (t.asked r).known = (s.asked r).known

/-- A walk upwards that the request makes ends in both sessions or in neither, and meets no stub, in
the second, that goes by the name of a class that it lists in the first. -/
def Unmasked (s t : Session) : Request → Prop
  | .ancestors c => WalksApart c s t
  | .isA c fullName => c.fullName = fullName ∨ WalksApart c s t
  | _ => True

/-- A property of two sessions and a request, at each of the requests that both are put to. -/
def Along (P : Session → Session → Request → Prop) (s t : Session) : List Request → Prop
  | [] => True
  | r :: rs => P s t r ∧ Along P (s.asked r) (t.asked r) rs

variable {s t : Session}

theorem Beside.perform (h : s.Beside t) (op : Operation) :
    AnswersAlike s t (.perform op) ∧ (s.perform op).Beside (t.perform op) := by
  cases op with
  | addText path text =>
    exact relates_beside (relates_addText path text) (keeps_addText path text) s t h
  | addBytes path bytes =>
    exact relates_beside (relates_addBytes path bytes) (keeps_addBytes path bytes) s t h
  | addFile path => exact relates_beside (relates_addFile path) (keeps_addFile path) s t h
  | addTree dir => exact relates_beside (relates_addTree dir) (keeps_addTree dir) s t h
  | addFiles numbering files =>
    obtain ⟨hanswers, hadded⟩ := relates_addFiles numbering.order files s t h.added
    refine ⟨hanswers, ?_⟩
    unfold Session.perform
    dsimp only
    rw [h.added.tree]
    split
    · obtain ⟨hsound, hleads⟩ := sound_addFiles h.sound numbering files ‹_›
      exact ⟨hsound, hleads.strategies ▸ h.authoritative, hadded⟩
    · exact h
  | classNamed fullName =>
    obtain ⟨hanswers, hst⟩ := relates_classNamed fullName s t h
    exact ⟨hanswers.rest.symm, hst⟩
  | hasClass fullName => exact relates_hasClass fullName s t h
  | resolve r => exact relates_resolveRef r s t h
  | resolveAmongUnits r => exact relates_resolveAmongUnits r s t h

/-- One request. -/
theorem Beside.asked (h : s.Beside t) (r : Request) (hunmasked : Unmasked s t r) :
    AnswersAlike s t r ∧ (s.asked r).Beside (t.asked r) := by
  cases r with
  | perform op => exact h.perform op
  | superclassOf c =>
    obtain ⟨hanswers, hst⟩ := relates_superclassOf c s t h
    exact ⟨hanswers.rest.symm, hst⟩
  | interfacesOf c =>
    obtain ⟨hanswers, hst⟩ := relates_interfacesOf c s t h
    exact ⟨hanswers.rest.symm, hst⟩
  | ancestors c => exact h.ancestors hunmasked
  | isA c fullName => exact h.isA hunmasked
  | unresolved => exact relates_unresolved s t h

/-- Any number of requests. -/
theorem Beside.askedAll {rs : List Request} (h : s.Beside t) (hunmasked : Along Unmasked s t rs) :
    Along Indifferent s t rs ∧ (s.askedAll rs).Beside (t.askedAll rs) := by
  induction rs generalizing s t with
  | nil => exact ⟨trivial, h⟩
  | cons r rs ih =>
    obtain ⟨hr, hrs⟩ := hunmasked
    obtain ⟨hanswers, hst⟩ := h.asked r hr
    obtain ⟨hrest, hlast⟩ := ih hst hrs
    exact ⟨⟨⟨hanswers, hst.added.sources, hst.added.known⟩, hrest⟩, hlast⟩

/-! ### Without source roots -/

theorem Sound.asked (h : s.Sound) (r : Request) : (s.asked r).Sound ∧ s.Leads (s.asked r) := by
  cases r with
  | perform op => exact h.perform op
  | superclassOf c => exact h.converse [.ask (.superclassOf c)]
  | interfacesOf c => exact h.converse [.ask (.interfacesOf c)]
  | ancestors c => exact h.converse [.ask (.ancestors c)]
  | isA c fullName => exact h.converse [.ask (.isA c fullName)]
  | unresolved => exact h.converse [.ask .unresolved]

theorem reaches_perform (op : Operation) (s : Session) :
    s.sources.Reaches (s.perform op).sources := by
  cases op with
  | addText path text => exact reaches_addText path text s
  | addBytes path bytes => exact reaches_addSource (.reader path (.ok bytes)) s
  | addFile path => exact reaches_addSource (.file path) s
  | addTree dir => exact reaches_loadTree (.inOrder (readableCount s.tree (s.filesBelow dir))) rfl
  | addFiles numbering files =>
    unfold Session.perform
    dsimp only
    split
    · exact reaches_addFiles numbering files s ‹_›
    · exact .refl _
  | classNamed fullName => exact reaches_find false fullName s
  | hasClass fullName => exact reaches_find true fullName s
  | resolve r => exact reaches_respond (.ask (.resolve r)) s
  | resolveAmongUnits r => exact reaches_respond (.ask (.resolveAmongUnits r)) s

theorem reaches_asked (r : Request) (s : Session) : s.sources.Reaches (s.asked r).sources := by
  cases r with
  | perform op => exact reaches_perform op s
  | superclassOf c => exact reaches_respond (.ask (.superclassOf c)) s
  | interfacesOf c => exact reaches_respond (.ask (.interfacesOf c)) s
  | ancestors c => exact reaches_respond (.ask (.ancestors c)) s
  | isA c fullName => exact reaches_respond (.ask (.isA c fullName)) s
  | unresolved => exact reaches_respond (.ask .unresolved) s

/-- Where no strategy reads source files, no walk is masked. -/
theorem Beside.unmasked {rs : List Request} (h : s.Beside t) (ht : t.Sound) (hroots : s.Rootless)
    (hfilled : s.sources.IsFilled) : Along Unmasked s t rs := by
  induction rs generalizing s t with
  | nil => trivial
  | cons r rs ih =>
    have hunmasked : Unmasked s t r := by
      cases r with
      | ancestors c => exact h.walksApart ht hroots hfilled c
      | isA c fullName => exact .inr (h.walksApart ht hroots hfilled c)
      | _ => trivial
    have hroots' : (s.asked r).Rootless := (h.sound.asked r).2.rootless hroots
    exact ⟨hunmasked, ih (h.asked r hunmasked).2 (ht.asked r).1 hroots'
      (hfilled.reaches (reaches_asked r s))⟩

/-! ### Chains with and without a stub -/

/-- Sessions made from the same options and parts, but for a stub. -/
theorem beside_start (options : SessionOptions) (hasStub : Bool) (tree : FileTree)
    (pre post : List ChainPart) :
    Beside (start options tree (withoutStubParts (pre ++ post)))
      (start { options with hasStub } tree (pre ++ .stub :: post)) := by
  generalize hplan : (pre ++ .stub :: post).foldl ChainPlan.add
    ⟨[], false, options.implicitPackages⟩ = plan
  have hwith : plan.hasStub = true := by
    rw [← hplan, ChainPlan.hasStub_foldl]
    exact List.any_eq_true.mpr ⟨.stub, by simp, rfl⟩
  have hwithout : (withoutStubParts (pre ++ post)).foldl ChainPlan.add
      ⟨[], false, options.implicitPackages⟩ = { plan with hasStub := false } := by
    have hparts : withoutStubParts (pre ++ post) = withoutStubParts (pre ++ .stub :: post) := by
      simp [withoutStubParts, ChainPart.isStub]
    rw [hparts, ← hplan]
    exact ChainPlan.foldl_withoutStubParts ⟨[], false, options.implicitPackages⟩ false _
  have hauthoritative : ∀ x ∈ plan.strategies, x.isAuthoritative :=
    hplan ▸ ChainPlan.authoritative_foldl (by simp) _
  refine ⟨sound_start _ _ _, ?_, SourceSet.placed_empty, hasStub, .fresh .stub, 0, 0,
    ChainEntry.ofStub_fresh, ?_⟩
  · simpa [start, hwithout, ChainPlan.chain, ChainEntry.fresh] using hauthoritative
  · simp only [start, hplan, hwithout]
    simp [ChainPlan.chain, hwith]

/-- Requests are answered alike with a stub in the chain and without as long as no stub masks a
class, and a walk upwards is answered alike just when no stub masks a class in it. Where no strategy
reads source files, all requests are. -/
theorem stub_indifferent (options : SessionOptions) (hasStub : Bool) (tree : FileTree)
    (pre post : List ChainPart) (rs : List Request) :
    let s := start options tree (withoutStubParts (pre ++ post))
    let t := start { options with hasStub } tree (pre ++ .stub :: post)
    (Along Unmasked s t rs → Along Indifferent s t rs ∧
      ∀ c, Indifferent (s.askedAll rs) (t.askedAll rs) (.ancestors c) ↔
        Unmasked (s.askedAll rs) (t.askedAll rs) (.ancestors c)) ∧
    (s.Rootless → Along Indifferent s t rs) := by
  intro s t
  have hst : s.Beside t := beside_start options hasStub tree pre post
  refine ⟨fun hunmasked => ?_, fun hroots => ?_⟩
  · obtain ⟨halong, hlast⟩ := hst.askedAll hunmasked
    refine ⟨halong, fun c => ⟨fun h => (hlast.ancestors_iff c).mp h.answers, fun h => ?_⟩⟩
    obtain ⟨hanswers, hst⟩ := hlast.asked (.ancestors c) h
    exact ⟨hanswers, hst.added.sources, hst.added.known⟩
  · exact (hst.askedAll (hst.unmasked (sound_start _ _ _) hroots SourceSet.isFilled_empty)).1

/-- A class whose superclass no source declares. With a stub in the chain, the stub is all that is
above it. -/
theorem stub_indifferent_unknown :
    let c : Class := { Class.bare "p.A" .plainClass .registered with
      superclass := some ⟨"B", [], 0, .written ⟨⟨0⟩, 0⟩ (some ⟨0⟩)⟩ }
    let added : List Request := [.perform (.addText ⟨"A.java"⟩ "package p; class A extends B {}")]
    let s := start .standard (.empty ⟨"/"⟩) (withoutStubParts ([.parsedSources] ++ []))
    let t := start { SessionOptions.standard with hasStub := true } (.empty ⟨"/"⟩)
      ([.parsedSources] ++ .stub :: [])
    s.Rootless ∧ Along Unmasked s t (added ++ [.ancestors c]) ∧
      Along Indifferent s t (added ++ [.ancestors c]) ∧
      (ancestors c (t.askedAll added)).1.map stubNames = some ["B"] := by
  intro c added s t
  have hrootless : s.Rootless := by decide +kernel
  have hunmasked : Along Unmasked s t (added ++ [.ancestors c]) :=
    (beside_start .standard true (.empty ⟨"/"⟩) [.parsedSources] []).unmasked (sound_start _ _ _)
      hrootless SourceSet.isFilled_empty
  have habove : ancestors c (t.askedAll added) = ancestorsWithin 1 c (t.askedAll added) :=
    ancestors_of_within 1 (by decide +kernel)
  refine ⟨hrootless, hunmasked, ?_, ?_⟩
  · exact ((stub_indifferent .standard true (.empty ⟨"/"⟩) [.parsedSources] [] _).1 hunmasked).1
  · rw [habove]
    decide +kernel

/-- A class is below `B` and `A`, which both stand in the file named for `A`. For `B` no file is
found, and the stub answers; for `A` that file is read. Then `B` is known, but the stub has been
listed under its name, and so neither `B` nor what is above `B` is listed. -/
theorem stub_not_indifferent :
    let files : MemoryFiles :=
      ⟨[(⟨"p/A.java"⟩, "package p; class A extends B {} class B extends Z {} class Z {}")]⟩
    let parts : List ChainPart := [.parsedSources, .locators [.memory files]]
    let added : List Operation :=
      [.addText ⟨"C.java"⟩ "package q; import p.B; import p.A; class C implements B, A {}"]
    let s := (start .standard (.empty ⟨"/"⟩) parts).after added
    let t := (start .standard (.empty ⟨"/"⟩) (parts ++ [.stub])).after added
    let c := (s.sources.class? "q.C").getD default
    ((ancestors c s).1.map names = some ["p.A", "p.B", "p.Z"] ∧
        (ancestors c t).1.map (fun as => names (withoutStubs as)) = some ["p.A"]) ∧
      (isA c "p.Z" s).1 = some true ∧ (isA c "p.Z" t).1 = some false ∧
        (classNamed "p.Z" (isA c "p.Z" t).2).1.map (·.found.isStub) = some false := by
  intro files parts added s t c
  have hs : ancestors c s = ancestorsWithin 5 c s := ancestors_of_within 5 (by decide +kernel)
  have ht : ancestors c t = ancestorsWithin 5 c t := ancestors_of_within 5 (by decide +kernel)
  have hother : c.fullName ≠ "p.Z" := by decide +kernel
  rw [isA_eq, isA_eq, if_neg hother, if_neg hother, hs, ht]
  decide +kernel

end Session

end JavaModel
