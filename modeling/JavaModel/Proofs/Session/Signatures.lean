import JavaModel.Proofs.Model.ConstructorNames
import JavaModel.Proofs.Session.Unmoved

/-! Members found by their own signatures. Where no strategy reads source files, what the parameters
of a method are resolved to stays, so that looking for a method by the types resolved a moment ago
compares them with the same types again. A class made after a registry's shape needs no resolving:
its parameter types are the texts that were registered. -/

namespace JavaModel.Session

variable {s t : Session} {c : Class} {m : Method} {name : String} {a : Answer}

/-! ### Classes that are found later -/

/-- A reference in the units stays one. -/
theorem Leads.lists (h : s.Leads t) {r : TypeRef} (hr : s.Lists r) : t.Lists r := by
  intro slot hslot
  obtain ⟨x, hx, rfl⟩ := hr slot hslot
  obtain ⟨u, hu, hx⟩ := List.mem_flatMap.mp hx
  exact ⟨x, List.mem_flatMap.mpr ⟨u, h.sources.units.subset hu, hx⟩, rfl⟩

theorem Rigid.later (h : s.Rigid) (ht : s.Later t) : t.Rigid :=
  ⟨h.reachable.later ht, (h.reachable.regular.sound.later ht).2.rootless h.rootless⟩

/-- The constructors of a class that is found have its name. -/
theorem Reachable.namesConstructors_found (h : s.Reachable)
    (ha : (classNamed name s).1 = some a) : a.found.NamesConstructors := by
  obtain hdeclared | ⟨_, _, _, shape, _, _, hshape⟩ | hstub := h.found_cases ha
  · obtain ⟨u, hu, hc⟩ := List.mem_flatMap.mp hdeclared
    exact ((h.later (later_classNamed name s)).regular.read u hu).namesConstructors hc
  · rw [hshape]
    exact shape.namesConstructors
  · rw [hstub]
    exact Class.namesConstructors_stub name

/-- A class that counts as registered has the shape that a registry of the chain gives its name. -/
theorem Reachable.registered_found (h : s.Reachable) (ha : (classNamed name s).1 = some a)
    (horigin : a.found.origin = .registered) :
    ∃ e ∈ s.entries, ∃ registry shape, e.strategy = .registry registry ∧
      registry.find? name = some shape ∧ a.found = shape.toClass := by
  obtain hdeclared | hregistered | hstub := h.found_cases ha
  · obtain ⟨u, hu, hc⟩ := List.mem_flatMap.mp hdeclared
    obtain ⟨n, hn⟩ := List.mem_iff_getElem?.mp hc
    obtain ⟨path, text, hread⟩ := (h.later (later_classNamed name s)).regular.read u hu
    rw [(SourceUnit.ofText_places hread).2 n _ hn] at horigin
    cases horigin
  · exact hregistered
  · rw [hstub] at horigin
    cases horigin

/-! ### Parameter types -/

theorem Lasting.mapM {γ α : Type} {f : γ → Query α} {g : γ → α} {cs : List γ}
    (h : ∀ c ∈ cs, s.Lasting (f c) (g c)) : s.Lasting (cs.mapM f) (cs.map g) := by
  induction cs with
  | nil => exact lasting_pure []
  | cons c cs ih =>
    obtain ⟨hc, hcs⟩ := List.forall_mem_cons.mp h
    rw [List.mapM_cons]
    exact hc.bind ((ih hcs).bind (lasting_pure _))

theorem Rigid.lasting_parameterTypes (h : s.Rigid) (hm : m.Refs s.Lists) :
    s.Lasting (parameterTypes m) (parameterTypes m s).1 := by
  refine h.lasting_now ⟨m.parameters.map fun p => (parameterType p s).1, Lasting.mapM ?_⟩
  exact fun p hp => (h.lasting_resolveRef (hm.parameters p hp)).bind (lasting_pure _)

theorem length_parameterTypes (m : Method) (s : Session) :
    (parameterTypes m s).1.length = m.parameters.length := by
  unfold parameterTypes
  induction m.parameters generalizing s with
  | nil => rfl
  | cons p ps ih =>
    rw [List.mapM_cons, bind_apply, bind_apply]
    exact congrArg (· + 1) (ih _)

/-- A method has a signature if it has the name, and its parameters have the types. -/
theorem Rigid.lasting_hasSignature (h : s.Rigid) (hm : m.Refs s.Lists) (name : String)
    (types : List String) :
    s.Lasting (hasSignature m name types)
      (m.name = name && (parameterTypes m s).1 = types) := by
  unfold hasSignature
  by_cases hfits : m.name = name && m.parameters.length = types.length
  · rw [if_pos hfits]
    simp only [Bool.and_eq_true, decide_eq_true_eq] at hfits
    rw [decide_eq_true hfits.1, Bool.true_and]
    exact (h.lasting_parameterTypes hm).bind (lasting_pure _)
  · rw [if_neg hfits]
    have hdiffers : (m.name = name && (parameterTypes m s).1 = types) = false := by
      refine Bool.eq_false_iff.mpr fun hsame => hfits ?_
      simp only [Bool.and_eq_true, decide_eq_true_eq] at hsame ⊢
      exact ⟨hsame.1, by rw [← hsame.2, length_parameterTypes]⟩
    rw [hdiffers]
    exact lasting_pure false

theorem Rigid.lasting_firstWithSignature (h : s.Rigid) {ms : List Method}
    (hms : ∀ m ∈ ms, m.Refs s.Lists) (name : String) (types : List String) :
    s.Lasting (firstWithSignature name types ms)
      (ms.find? fun m => m.name = name && (parameterTypes m s).1 = types) := by
  induction ms with
  | nil => exact lasting_pure none
  | cons m ms ih =>
    obtain ⟨hm, hms⟩ := List.forall_mem_cons.mp hms
    refine (h.lasting_hasSignature hm name types).bind ?_
    rw [List.find?_cons]
    cases m.name = name && (parameterTypes m s).1 = types with
    | true => exact lasting_pure (some m)
    | false => exact ih hms

/-! ### Registered types -/

/-- The text of a type holds no white space. -/
def Unspaced (type : String) : Prop := ∀ c ∈ type.toList, Text.isBlank c = false

theorem parameterType_registered {type : String} (h : Unspaced type) :
    parameterType (ClassShape.parameter type) = pure type := by
  funext t
  refine Prod.ext ?_ rfl
  change (Name.splitDimensions type).1 ++ brackets (Name.splitDimensions type).2 ++ "" = type
  rw [String.append_empty, Name.append_brackets_splitDimensions h]

/-- Without white space, the parameters of a registered method have the types that were registered.
-/
theorem parameterTypes_registered (owner name : String) {shape : MethodShape}
    (h : ∀ type ∈ shape.parameters, Unspaced type) :
    parameterTypes (ClassShape.method owner name shape) = pure shape.parameters := by
  change (shape.parameters.map ClassShape.parameter).mapM parameterType = pure shape.parameters
  generalize shape.parameters = types at h
  induction types with
  | nil => rfl
  | cons type types ih =>
    obtain ⟨htype, htypes⟩ := List.forall_mem_cons.mp h
    rw [List.map_cons, List.mapM_cons, parameterType_registered htype, ih htypes]
    rfl

/-- The methods are those of shapes, in order, and where a shape has no white space in its parameter
types, these are what the parameters are resolved to. -/
def Mirrors (t : Session) (shapes : List MethodShape) (ms : List Method) : Prop :=
  List.Forall₂ (fun shape m => (∀ type ∈ shape.parameters, Unspaced type) →
    (parameterTypes m t).1 = shape.parameters) shapes ms

theorem mirrors_map (t : Session) (owner : String) (name : MethodShape → String)
    (shapes : List MethodShape) :
    t.Mirrors shapes (shapes.map fun shape => ClassShape.method owner (name shape) shape) := by
  refine List.forall₂_map_right_iff.mpr (List.forall₂_same.mpr fun shape _ hunspaced => ?_)
  rw [parameterTypes_registered owner (name shape) hunspaced]
  rfl

/-! ### Members -/

/-- Looking for a member of a class by its own name and the types that its parameters are resolved
to, right after they are, gives the first member for which both are the same. -/
structure FindsMembers (t : Session) (c : Class) : Prop where
  method : ∀ m ∈ c.methods, ∃ found,
    (method? c m.name (parameterTypes m t).1 (parameterTypes m t).2).1 = some found ∧
      c.methods.find? (fun other => other.name = m.name &&
        (parameterTypes other t).1 = (parameterTypes m t).1) = some found
  constructor : ∀ m ∈ c.constructors, ∃ found,
    (constructor? c (parameterTypes m t).1 (parameterTypes m t).2).1 = some found ∧
      c.constructors.find? (fun other => other.name = m.name &&
        (parameterTypes other t).1 = (parameterTypes m t).1) = some found

theorem Rigid.finds_own (h : t.Rigid) {ms : List Method} (hms : ∀ m ∈ ms, m.Refs t.Lists)
    (hm : m ∈ ms) : ∃ found,
      (firstWithSignature m.name (parameterTypes m t).1 ms (parameterTypes m t).2).1 =
        some found ∧
      ms.find? (fun other => other.name = m.name &&
        (parameterTypes other t).1 = (parameterTypes m t).1) = some found := by
  have hunmoved := (h.lasting_parameterTypes (hms m hm) t h.unmoved).1
  have hlooked := (h.lasting_firstWithSignature hms m.name (parameterTypes m t).1 _ hunmoved).2
  obtain ⟨found, hfound⟩ := Option.isSome_iff_exists.mp <| List.find?_isSome
    (p := fun other : Method => other.name = m.name &&
      (parameterTypes other t).1 = (parameterTypes m t).1) |>.mpr ⟨m, hm, by simp⟩
  exact ⟨found, hlooked.trans hfound, hfound⟩

/-- Members are found by their own signatures. Without source roots, a member of a class that was
found some time before is found by its name and the types that its parameters are resolved to now;
constructors, which are looked for under the name of their class, have this name. In a class that a
registry gives, the types are the registered ones if these hold no white space. -/
theorem members_found (h : s.Reachable) (hroots : s.Rootless)
    (ha : (classNamed name s).1 = some a) (ht : s.Later t) :
    t.FindsMembers a.found ∧ (a.found.origin = .registered → ∃ e ∈ s.entries, ∃ registry shape,
      e.strategy = .registry registry ∧ registry.find? name = some shape ∧
      a.found = shape.toClass ∧ t.Mirrors shape.methods a.found.methods ∧
      t.Mirrors shape.constructors a.found.constructors) := by
  have hrigid : t.Rigid := Rigid.later ⟨h, hroots⟩ ht
  have hleads := (h.regular.sound.later ht).2
  have hrefs : ∀ m ∈ a.found.constructors ++ a.found.methods, m.Refs t.Lists :=
    ((h.lists_found hroots ha).mono fun _ => hleads.lists).methods
  obtain ⟨hconstructors, hmethods⟩ := List.forall_mem_append.mp hrefs
  refine ⟨⟨fun m hm => hrigid.finds_own hmethods hm, fun m hm => ?_⟩, fun horigin => ?_⟩
  · rw [constructor?, ← h.namesConstructors_found ha m hm]
    exact hrigid.finds_own hconstructors hm
  · obtain ⟨e, he, registry, shape, hstrategy, hfind, hshape⟩ := h.registered_found ha horigin
    refine ⟨e, he, registry, shape, hstrategy, hfind, hshape, ?_, ?_⟩
    · rw [hshape]
      exact mirrors_map t shape.fullName (·.name) shape.methods
    · rw [hshape]
      exact mirrors_map t shape.fullName (fun _ => Name.simple shape.fullName) shape.constructors

/-- Overloads of which one is resolved only later, and a registered class. -/
theorem members_found_overloaded :
    let s := (converse [.add (.text ⟨"A.java"⟩
      "class A { A(B b) {} void f(int... n) {} void f(B[] b) {} }")]
        (standard .standard (.empty ⟨"/"⟩))).2
    let t := (converse [.add (.text ⟨"B.java"⟩ "class B {}")] s).2
    s.Reachable ∧ s.Rootless ∧ s.Later t ∧
      (∃ a, (classNamed "A" s).1 = some a ∧ t.FindsMembers a.found ∧
        a.found.methods.map (fun m => (parameterTypes m t).1) = [["int..."], ["B[]"]]) ∧
      ∃ a, (classNamed "java.lang.String" s).1 = some a ∧ t.FindsMembers a.found := by
  intro s t
  have hreachable : s.Reachable := ⟨_, _, _, _, rfl⟩
  have hrootless : s.Rootless := by decide +kernel
  have hlater : s.Later t := ⟨_, rfl⟩
  obtain ⟨a, ha, htypes⟩ : ∃ a ∈ (classNamed "A" s).1,
      a.found.methods.map (fun m => (parameterTypes m t).1) = [["int..."], ["B[]"]] := by
    decide +kernel
  obtain ⟨b, hb, horigin⟩ : ∃ b ∈ (classNamed "java.lang.String" s).1,
      b.found.origin = .registered := by
    decide +kernel
  exact ⟨hreachable, hrootless, hlater,
    ⟨a, ha, (members_found hreachable hrootless ha hlater).1, htypes⟩,
    ⟨b, hb, (members_found hreachable hrootless hb hlater).1⟩⟩

end JavaModel.Session
