import JavaModel.Proofs.Session.Dialogue

/-! What every question keeps that is asked with references of a kind. Questions about a class or a
method resolve references in it, and the walk upwards those of the classes it meets. So if finding a
class gives one with references of this kind only, and if resolving such references keeps a
condition on sessions, then every question keeps it. -/

namespace JavaModel

variable {α β : Type} {I : Session → Prop} {Q : α → Prop} {R : β → Prop} {q : Query α}

/-- Where `I` holds the question has an answer in `Q`, and `I` holds afterwards. -/
def Query.Ensures (I : Session → Prop) (q : Query α) (Q : α → Prop) : Prop :=
  ∀ s, I s → I (q s).2 ∧ Q (q s).1

namespace Query

theorem ensures_pure {a : α} (h : Q a) : Ensures I (pure a) Q := fun _ hs => ⟨hs, h⟩

theorem ensures_get : Ensures I (get : Query Session) I := fun _ hs => ⟨hs, hs⟩

theorem Ensures.bind {f : α → Query β} (hq : Ensures I q Q) (hf : ∀ a, Q a → Ensures I (f a) R) :
    Ensures I (q >>= f) R := by
  intro s hs
  obtain ⟨hstate, hanswer⟩ := hq s hs
  exact hf _ hanswer _ hstate

theorem Ensures.mono {Q' : α → Prop} (hq : Ensures I q Q) (h : ∀ a, Q a → Q' a) :
    Ensures I q Q' := fun s hs => ⟨(hq s hs).1, h _ (hq s hs).2⟩

theorem Ensures.ite {c : Prop} [Decidable c] {r : Query α} (hq : Ensures I q Q)
    (hr : Ensures I r Q) : Ensures I (if c then q else r) Q := by
  split
  · exact hq
  · exact hr

theorem Ensures.mapM {γ : Type} {f : γ → Query α} {cs : List γ}
    (h : ∀ c ∈ cs, Ensures I (f c) fun _ => True) : Ensures I (cs.mapM f) fun _ => True := by
  induction cs with
  | nil => exact ensures_pure trivial
  | cons c cs ih =>
    obtain ⟨hc, hcs⟩ := List.forall_mem_cons.mp h
    rw [List.mapM_cons]
    exact hc.bind fun _ _ => (ih hcs).bind fun _ _ => ensures_pure trivial

end Query

/-! ### References in what is said -/

/-- Every reference in the class, at any depth, is in `P`. -/
def Class.Refs (P : TypeRef → Prop) (c : Class) : Prop :=
  ∀ site ∈ c.typeRefs, ∀ r ∈ site.ref.spread, P r

/-- Every reference in the method, at any depth, is in `P`. -/
def Method.Refs (P : TypeRef → Prop) (m : Method) : Prop :=
  ∀ site ∈ SitedRef.ofMethod m, ∀ r ∈ site.ref.spread, P r

theorem TypeRef.mem_spread (r : TypeRef) : r ∈ r.spread := by
  obtain ⟨name, args, dims, origin⟩ := r
  exact List.mem_cons_self ..

section

variable {P : TypeRef → Prop} {c : Class} {m : Method}

theorem Class.Refs.superclass (h : c.Refs P) : ∀ r ∈ c.superclass, P r := fun r hr =>
  h ⟨.superclass, c.line, r⟩ (by simp [Class.typeRefs, Option.mem_def.mp hr]) r r.mem_spread

theorem Class.Refs.interfaces (h : c.Refs P) : ∀ r ∈ c.interfaces, P r := fun r hr =>
  h ⟨.interface, c.line, r⟩ (by simp [Class.typeRefs, hr]) r r.mem_spread

theorem Class.Refs.supertypes (h : c.Refs P) : ∀ r ∈ c.superclass.toList ++ c.interfaces, P r :=
  List.forall_mem_append.mpr
    ⟨fun r hr => h.superclass r (Option.mem_toList.mp hr), h.interfaces⟩

theorem Class.Refs.methods (h : c.Refs P) : ∀ m ∈ c.constructors ++ c.methods, m.Refs P :=
  fun m hm site hsite => h site (List.mem_append_right _ (List.mem_flatMap.mpr ⟨m, hm, hsite⟩))

theorem Method.Refs.parameters (h : m.Refs P) : ∀ p ∈ m.parameters, P p.type := by
  intro p hp
  refine h ⟨.parameter m.name, m.line, p.type⟩ ?_ p.type p.type.mem_spread
  have hlast : (⟨.parameter m.name, m.line, p.type⟩ : SitedRef) ∈
      m.parameters.flatMap (SitedRef.ofParameter m.name m.line) :=
    List.mem_flatMap.mpr ⟨p, hp, List.mem_append_right _ (List.mem_singleton_self _)⟩
  simp only [SitedRef.ofMethod, List.mem_append]
  exact .inl (.inr hlast)

end

namespace Session

/-- The references that a host hands in with a question. -/
def Question.refs : Question → List TypeRef
  | .resolve r | .resolveAmongUnits r | .genericValue r | .isResolved r => r.spread
  | .superclassName c | .superclassOf c | .interfacesOf c | .ancestors c | .isA c _
  | .method? c _ _ | .constructor? c _ => c.typeRefs.flatMap (·.ref.spread)
  | .parameterTypes m | .signature m | .hasSignature m _ _ =>
    (SitedRef.ofMethod m).flatMap (·.ref.spread)
  | .classNamed _ | .hasClass _ | .unit? _ | .declared _ | .counts | .units | .classes | .packages
  | .unresolved | .check => []

/-- The references that a host hands in at a turn. -/
def Turn.refs : Turn → List TypeRef
  | .ask q => q.refs
  | .add _ | .addTree _ _ => []

/-- The condition `I` is kept where a class is looked for and where references in `P` are resolved,
and all references of classes that are found are in `P`. -/
structure Minds (I : Session → Prop) (P : TypeRef → Prop) : Prop where
  find : ∀ onlyExisting name, Query.Ensures I (find onlyExisting name) fun answer =>
    ∀ a ∈ answer, a.found.Refs P
  resolve : ∀ s, I s → ∀ r, P r → Query.Ensures I (resolve s.library r) fun _ => True
  resolveAmongUnits : ∀ r, P r → Query.Ensures I (Session.resolve onlySources r) fun _ => True
  units : ∀ s, I s → ∀ u ∈ s.sources.units, ∀ c ∈ u.classes, c.Refs P

/-! ### Classes above a class

Where a condition holds of every class that is found, it holds of the classes above a class. -/

section Above

open Query

variable {A : Answer → Prop} {c : Class}
  (hnamed : ∀ name, Ensures I (classNamed name) fun answer => ∀ a ∈ answer, A a)

theorem ensures_superclassName
    (hresolve : ∀ r ∈ c.superclass, Ensures I (resolveRef r) fun _ => True) :
    Ensures I (superclassName c) fun _ => True := by
  unfold superclassName
  split
  · rename_i r hsuperclass
    exact (hresolve r hsuperclass).bind fun _ _ => ensures_pure trivial
  · exact ensures_pure trivial

include hnamed

theorem ensures_superclassOf
    (hresolve : ∀ r ∈ c.superclass, Ensures I (resolveRef r) fun _ => True) :
    Ensures I (superclassOf c) fun answer => ∀ a ∈ answer, A a := by
  refine (ensures_superclassName hresolve).bind fun name _ => ?_
  cases name with
  | some name => exact hnamed name
  | none => exact ensures_pure (by simp)

theorem ensures_findAll {rs : List TypeRef}
    (hresolve : ∀ r ∈ rs, Ensures I (resolveRef r) fun _ => True) :
    Ensures I (findAll rs) fun as => ∀ a ∈ as, A a := by
  induction rs with
  | nil => exact ensures_pure (by simp)
  | cons r rs ih =>
    obtain ⟨hr, hrs⟩ := List.forall_mem_cons.mp hresolve
    refine hr.bind fun name _ => (hnamed name).bind fun first hfirst =>
      (ih hrs).bind fun rest hrest => ensures_pure ?_
    exact List.forall_mem_append.mpr ⟨fun a ha => hfirst a (Option.mem_toList.mp ha), hrest⟩

theorem ensures_directSupertypes (hresolve : ∀ r ∈ c.superclass.toList ++ c.interfaces,
      Ensures I (resolveRef r) fun _ => True) :
    Ensures I (directSupertypes c) fun as => ∀ a ∈ as, A a := by
  obtain ⟨hsuperclass, hinterfaces⟩ := List.forall_mem_append.mp hresolve
  refine (ensures_superclassOf hnamed fun r hr =>
    hsuperclass r (Option.mem_toList.mpr hr)).bind fun above habove =>
    (ensures_findAll hnamed hinterfaces).bind fun interfaces hinterfaces => ensures_pure ?_
  exact List.forall_mem_append.mpr ⟨fun a ha => habove a (Option.mem_toList.mp ha), hinterfaces⟩

omit hnamed in
theorem mem_of_mem_enqueue {seen : List String} {as : List Answer} {a : Answer}
    (ha : a ∈ (enqueue seen as).1) : a ∈ as := by
  fun_induction enqueue seen as with
  | case1 => cases ha
  | case2 seen b bs hseen ih => exact List.mem_cons_of_mem b (ih ha)
  | case3 seen b bs hseen rest names heq ih =>
    rcases List.mem_cons.mp ha with rfl | ha
    · exact List.mem_cons_self ..
    · rw [heq] at ih
      exact List.mem_cons_of_mem b (ih ha)

omit hnamed in
/-- What asking for the supertypes of one class keeps is kept along a walk. -/
theorem Walks.keeps {seen : List String} {queue found : List Answer} {s t : Session}
    (h : Walks seen queue s found t)
    (hnext : ∀ a, A a → Ensures I (directSupertypes a.found) fun above => ∀ b ∈ above, A b)
    (hs : I s) (hqueue : ∀ a ∈ queue, A a) : I t ∧ ∀ a ∈ found, A a := by
  induction h with
  | done => exact ⟨hs, hqueue⟩
  | @next seen a queue found s t _ ih =>
    obtain ⟨ha, hqueue⟩ := List.forall_mem_cons.mp hqueue
    obtain ⟨habove, hbs⟩ := hnext a ha s hs
    obtain ⟨ht, hfound⟩ := ih habove (List.forall_mem_append.mpr
      ⟨hqueue, fun b hb => hbs b (mem_of_mem_enqueue hb)⟩)
    exact ⟨ht, List.forall_mem_cons.mpr ⟨ha, hfound⟩⟩

omit hnamed in
theorem ensures_ancestors_of_next
    (hfirst : Ensures I (directSupertypes c) fun above => ∀ b ∈ above, A b)
    (hnext : ∀ a, A a → Ensures I (directSupertypes a.found) fun above => ∀ b ∈ above, A b) :
    Ensures I (ancestors c) fun found => ∀ as ∈ found, ∀ a ∈ as, A a := by
  intro s hs
  cases hfound : (ancestors c s).1 with
  | none =>
    rw [ancestors_eq_none hfound]
    exact ⟨hs, by simp⟩
  | some found =>
    obtain ⟨habove, hbs⟩ := hfirst s hs
    obtain ⟨ht, has⟩ := (walksAbove_of_ancestors hfound).keeps hnext habove
      fun b hb => hbs b (mem_of_mem_enqueue hb)
    exact ⟨ht, by simpa using has⟩

theorem ensures_ancestors
    (hresolve : ∀ r ∈ c.superclass.toList ++ c.interfaces, Ensures I (resolveRef r) fun _ => True)
    (hresolve' : ∀ a, A a → ∀ r ∈ a.found.superclass.toList ++ a.found.interfaces,
      Ensures I (resolveRef r) fun _ => True) :
    Ensures I (ancestors c) fun found => ∀ as ∈ found, ∀ a ∈ as, A a :=
  ensures_ancestors_of_next (ensures_directSupertypes hnamed hresolve)
    fun a ha => ensures_directSupertypes hnamed (hresolve' a ha)

end Above

namespace Minds

open Query

variable {P : TypeRef → Prop} {c : Class} {m : Method} {r : TypeRef} (h : Minds I P)

include h

theorem ensures_classNamed (name : String) :
    Ensures I (classNamed name) fun answer => ∀ a ∈ answer, a.found.Refs P := h.find false name

theorem ensures_hasClass (name : String) : Ensures I (hasClass name) fun _ => True :=
  (h.find true name).bind fun _ _ => ensures_pure trivial

theorem ensures_resolveRef (hr : P r) : Ensures I (resolveRef r) fun _ => True :=
  ensures_get.bind fun s hs => h.resolve s hs r hr

omit h in
mutual

theorem ensures_genericValue {around : Surroundings Query}
    (haround : ∀ r, P r → Ensures I (Session.resolve around r) fun _ => True) (r : TypeRef)
    (hr : ∀ q ∈ r.spread, P q) : Ensures I (genericValue around r) fun _ => True := by
  obtain ⟨name, args, dims, origin⟩ := r
  obtain ⟨hself, hargs⟩ := List.forall_mem_cons.mp hr
  exact (haround _ hself).bind fun _ _ =>
    (ensures_genericArgs haround args hargs).bind fun _ _ => ensures_pure trivial

theorem ensures_genericArgs {around : Surroundings Query}
    (haround : ∀ r, P r → Ensures I (Session.resolve around r) fun _ => True)
    (as : List (Argument TypeRef)) (has : ∀ q ∈ TypeRef.spreadArgs as, P q) :
    Ensures I (genericArgs around as) fun _ => True := by
  cases as with
  | nil => exact ensures_pure trivial
  | cons a as =>
    obtain ⟨has, ha⟩ := List.forall_mem_append.mp has
    exact (ensures_genericArg haround a ha).bind fun _ _ =>
      (ensures_genericArgs haround as has).bind fun _ _ => ensures_pure trivial

theorem ensures_genericArg {around : Surroundings Query}
    (haround : ∀ r, P r → Ensures I (Session.resolve around r) fun _ => True)
    (a : Argument TypeRef) (ha : ∀ q ∈ TypeRef.spreadArg a, P q) :
    Ensures I (genericArg around a) fun _ => True := by
  cases a with
  | exactly t => exact ensures_genericValue haround t ha
  | unbounded => exact ensures_pure trivial
  | extending t | above t =>
    exact (ensures_genericValue haround t ha).bind fun _ _ => ensures_pure trivial

end

/-! ### Members -/

theorem ensures_parameterTypes (hm : m.Refs P) : Ensures I (parameterTypes m) fun _ => True :=
  Ensures.mapM fun p hp => (h.ensures_resolveRef (hm.parameters p hp)).bind fun _ _ =>
    ensures_pure trivial

theorem ensures_hasSignature (hm : m.Refs P) (name : String) (types : List String) :
    Ensures I (hasSignature m name types) fun _ => True :=
  .ite ((h.ensures_parameterTypes hm).bind fun _ _ => ensures_pure trivial) (ensures_pure trivial)

theorem ensures_firstWithSignature (name : String) (types : List String) {ms : List Method}
    (hms : ∀ m ∈ ms, m.Refs P) : Ensures I (firstWithSignature name types ms) fun _ => True := by
  induction ms with
  | nil => exact ensures_pure trivial
  | cons m ms ih =>
    obtain ⟨hm, hms⟩ := List.forall_mem_cons.mp hms
    exact (h.ensures_hasSignature hm name types).bind fun _ _ =>
      .ite (ensures_pure trivial) (ih hms)

/-! ### Classes above a class -/

theorem ensures_superclassName (hc : c.Refs P) : Ensures I (superclassName c) fun _ => True :=
  Session.ensures_superclassName fun r hr => h.ensures_resolveRef (hc.superclass r hr)

theorem ensures_superclassOf (hc : c.Refs P) :
    Ensures I (superclassOf c) fun answer => ∀ a ∈ answer, a.found.Refs P :=
  Session.ensures_superclassOf h.ensures_classNamed fun r hr =>
    h.ensures_resolveRef (hc.superclass r hr)

theorem ensures_findAll {rs : List TypeRef} (hrs : ∀ r ∈ rs, P r) :
    Ensures I (findAll rs) fun as => ∀ a ∈ as, a.found.Refs P :=
  Session.ensures_findAll h.ensures_classNamed fun r hr => h.ensures_resolveRef (hrs r hr)

theorem ensures_ancestors (hc : c.Refs P) :
    Ensures I (ancestors c) fun found => ∀ as ∈ found, ∀ a ∈ as, a.found.Refs P :=
  Session.ensures_ancestors h.ensures_classNamed
    (fun r hr => h.ensures_resolveRef (hc.supertypes r hr))
    fun _ ha r hr => h.ensures_resolveRef (ha.supertypes r hr)

/-! ### Checks -/

theorem ensures_unresolvedAmong (path : FilePath) (owner : String) (site : TypeSite) (line : Nat)
    {rs : List TypeRef} (hrs : ∀ r ∈ rs, P r) :
    Ensures I (unresolvedAmong path owner site line rs) fun _ => True := by
  induction rs with
  | nil => exact ensures_pure trivial
  | cons r rs ih =>
    obtain ⟨hr, hrs⟩ := List.forall_mem_cons.mp hrs
    exact (h.ensures_resolveRef hr).bind fun _ _ => ensures_get.bind fun _ _ =>
      (ih hrs).bind fun _ _ => ensures_pure trivial

theorem ensures_unresolved : Ensures I unresolved fun _ => True := by
  refine ensures_get.bind fun s hs => ?_
  refine (Ensures.mapM fun u hu => ?_).bind fun _ _ => ensures_pure trivial
  refine Ensures.mapM fun c hc => ?_
  refine (Ensures.mapM fun site hsite => ?_).bind fun _ _ => ensures_pure trivial
  exact h.ensures_unresolvedAmong u.path c.fullName site.site site.line
    (h.units s hs u hu c hc site hsite)

/-- Every question keeps the condition if the references handed in with it are in `P`. -/
theorem ensures_ask (q : Question) (hq : ∀ r ∈ q.refs, P r) : Ensures I (ask q) fun _ => True := by
  have hclass {c : Class} (hq : ∀ r ∈ c.typeRefs.flatMap (·.ref.spread), P r) : c.Refs P :=
    fun site hsite r hr => hq r (List.mem_flatMap.mpr ⟨site, hsite, hr⟩)
  have hmethod {m : Method} (hq : ∀ r ∈ (SitedRef.ofMethod m).flatMap (·.ref.spread), P r) :
      m.Refs P := fun site hsite r hr => hq r (List.mem_flatMap.mpr ⟨site, hsite, hr⟩)
  have hget {f : Session → Reply} : Ensures I (do pure (f (← get))) fun _ => True :=
    ensures_get.bind fun _ _ => ensures_pure trivial
  cases q with
  | classNamed n => exact (h.ensures_classNamed n).bind fun _ _ => ensures_pure trivial
  | hasClass n => exact (h.ensures_hasClass n).bind fun _ _ => ensures_pure trivial
  | resolve r =>
    exact (h.ensures_resolveRef (hq r r.mem_spread)).bind fun _ _ => ensures_pure trivial
  | resolveAmongUnits r =>
    exact (h.resolveAmongUnits r (hq r r.mem_spread)).bind fun _ _ => ensures_pure trivial
  | genericValue r =>
    exact ensures_get.bind fun s hs => (ensures_genericValue (h.resolve s hs) r hq).bind fun _ _ =>
      ensures_pure trivial
  | isResolved r => exact hget
  | superclassName c =>
    exact (h.ensures_superclassName (hclass hq)).bind fun _ _ => ensures_pure trivial
  | superclassOf c =>
    exact (h.ensures_superclassOf (hclass hq)).bind fun _ _ => ensures_pure trivial
  | interfacesOf c =>
    exact (h.ensures_findAll (hclass hq).interfaces).bind fun _ _ => ensures_pure trivial
  | ancestors c => exact (h.ensures_ancestors (hclass hq)).bind fun _ _ => ensures_pure trivial
  | isA c n =>
    have hisA : Ensures I (isA c n) fun _ => True := .ite (ensures_pure trivial)
      ((h.ensures_ancestors (hclass hq)).bind fun _ _ => ensures_pure trivial)
    exact hisA.bind fun _ _ => ensures_pure trivial
  | parameterTypes m =>
    exact (h.ensures_parameterTypes (hmethod hq)).bind fun _ _ => ensures_pure trivial
  | signature m =>
    have hsignature : Ensures I (signature m) fun _ => True :=
      (h.ensures_parameterTypes (hmethod hq)).bind fun _ _ => ensures_pure trivial
    exact hsignature.bind fun _ _ => ensures_pure trivial
  | hasSignature m n types =>
    exact (h.ensures_hasSignature (hmethod hq) n types).bind fun _ _ => ensures_pure trivial
  | method? c n types =>
    have hmethods : ∀ m ∈ c.methods, m.Refs P := fun m hm =>
      (hclass hq).methods m (List.mem_append_right _ hm)
    exact (h.ensures_firstWithSignature n types hmethods).bind fun _ _ => ensures_pure trivial
  | constructor? c types =>
    have hconstructors : ∀ m ∈ c.constructors, m.Refs P := fun m hm =>
      (hclass hq).methods m (List.mem_append_left _ hm)
    exact (h.ensures_firstWithSignature c.name types hconstructors).bind fun _ _ =>
      ensures_pure trivial
  | unit? id => exact hget
  | declared n => exact hget
  | counts => exact hget
  | units => exact hget
  | classes => exact hget
  | packages => exact hget
  | unresolved => exact h.ensures_unresolved.bind fun _ _ => ensures_pure trivial
  | check =>
    have hcheck : Ensures I check fun _ => True :=
      h.ensures_unresolved.bind fun _ _ => ensures_pure trivial
    exact hcheck.bind fun _ _ => ensures_pure trivial

end Minds

end Session

end JavaModel
