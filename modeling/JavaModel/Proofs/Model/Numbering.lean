import Mathlib.Data.List.Flatten
import Mathlib.Data.List.Perm.Subperm
import JavaModel.Proofs.Model.Arena

/-! Slots of written names. Whatever is made of a declaration, the names in it have slots with the
next numbers, and no two names the same one. So no two names in the classes of a unit share a slot,
whatever events it is told by. -/

namespace JavaModel

/-! ### The slots of a part of the model -/

/-- The slot of a written name. -/
def TypeOrigin.slot? : TypeOrigin → Option Slot
  | .written slot _ => some slot
  | .qualified | .typeVariable => none

/-- The slots of the names in a reference, at any depth. -/
def TypeRef.slots (r : TypeRef) : List Slot := r.spread.filterMap (·.origin.slot?)

/-- The slots of the names in type arguments. -/
def TypeRef.argSlots (as : List (Argument TypeRef)) : List Slot :=
  (TypeRef.spreadArgs as).filterMap (·.origin.slot?)

/-- The slots of the names in references with their places. -/
def SitedRef.slots (rs : List SitedRef) : List Slot := rs.flatMap fun r => r.ref.slots

/-- The slots of the names in a class. -/
def Class.slots (c : Class) : List Slot := SitedRef.slots c.typeRefs

/-- The slots of the names in the classes of a unit. -/
def SourceUnit.slots (u : SourceUnit) : List Slot := u.classes.flatMap Class.slots

theorem TypeRef.slots_mk (name : String) (args : List (Argument TypeRef)) (dims : Nat)
    (origin : TypeOrigin) :
    TypeRef.slots ⟨name, args, dims, origin⟩ = origin.slot?.toList ++ argSlots args := by
  rw [slots, spread, List.filterMap_cons]
  cases origin <;> rfl

theorem TypeRef.argSlots_cons (a : Argument TypeRef) (as : List (Argument TypeRef)) :
    argSlots (a :: as) = argSlots as ++ (spreadArg a).filterMap (·.origin.slot?) := by
  rw [argSlots, spreadArgs, List.filterMap_append]
  rfl

namespace SitedRef

variable {element method : String} {site : TypeSite} {line : Nat}

@[simp] theorem slots_append (rs rs' : List SitedRef) :
    slots (rs ++ rs') = slots rs ++ slots rs' := List.flatMap_append

@[simp] theorem slots_single (r : SitedRef) : slots [r] = r.ref.slots := List.flatMap_singleton ..

@[simp] theorem slots_map (rs : List TypeRef) :
    slots (rs.map fun r => ⟨site, line, r⟩) = rs.flatMap TypeRef.slots := by
  rw [slots, List.flatMap_map]

@[simp] theorem slots_flatMap {α : Type} (as : List α) (f : α → List SitedRef) :
    slots (as.flatMap f) = as.flatMap fun a => slots (f a) := List.flatMap_assoc

@[simp] theorem slots_ofAnnotations (as : List (AnnotationUse TypeRef)) :
    slots (ofAnnotations element line as) = as.flatMap (·.type.slots) := by
  rw [slots, ofAnnotations, List.flatMap_map]

@[simp] theorem slots_ofBounds (ps : List (TypeParameter TypeRef)) :
    slots (ofBounds line ps) = ps.flatMap fun p => p.bounds.flatMap TypeRef.slots := by
  simp [ofBounds]

end SitedRef

/-! ### Numbers given out -/

section Issues

variable {α β γ : Type} {source : UnitId} {before : List Slot} {f : α → List Slot}
  {g : β → List Slot} {q : StateM Nat α} {p : StateM Nat β}

/-- The slots of a unit with `count` numbers from `first` on. -/
def slotsFrom (source : UnitId) (first count : Nat) : List Slot :=
  (List.range' first count).map (Slot.mk source)

theorem slotsFrom_add (source : UnitId) (first count more : Nat) :
    slotsFrom source first (count + more) =
      slotsFrom source first count ++ slotsFrom source (first + count) more := by
  rw [slotsFrom, slotsFrom, slotsFrom, ← List.map_append, List.range'_append_1]

theorem nodup_slotsFrom (source : UnitId) (first count : Nat) :
    (slotsFrom source first count).Nodup :=
  List.Nodup.map (fun _ _ h => congrArg Slot.number h) List.nodup_range'

/-- What is made has the slots `before` and, for the numbers that it takes, one slot each. -/
def Issues (source : UnitId) (before : List Slot) (f : α → List Slot) (q : StateM Nat α) : Prop :=
  ∀ n, ∃ k, (q.run n).2 = n + k ∧ (f (q.run n).1).Subperm (before ++ slotsFrom source n k)

theorem Issues.pure {a : α} (h : (f a).Subperm before) : Issues source before f (pure a) :=
  fun _ => ⟨0, rfl, (List.append_nil before).symm ▸ h⟩

theorem Issues.bind {r : β → StateM Nat α} (hp : Issues source [] g p)
    (hr : ∀ b, Issues source (before ++ g b) f (r b)) : Issues source before f (p >>= r) := by
  intro n
  obtain ⟨k, hk, hg⟩ := hp n
  obtain ⟨m, hm, hf⟩ := hr (p.run n).1 (p.run n).2
  rw [hk] at hm hf
  have hrun : (p >>= r).run n = (r (p.run n).1).run (n + k) := hk ▸ rfl
  rw [hrun]
  refine ⟨k + m, hm.trans (Nat.add_assoc ..), hf.trans ?_⟩
  rw [slotsFrom_add, ← List.append_assoc]
  exact (List.subperm_append_right _).mpr ((List.subperm_append_left _).mpr hg)

/-- What is made around something else has the slots that this has. -/
theorem Issues.map {r : β → α} (hp : Issues source [] g p) (h : ∀ b, f (r b) = g b) :
    Issues source [] f (p >>= fun b => Pure.pure (r b)) :=
  hp.bind fun b => .pure (h b ▸ .refl _)

theorem Issues.mapM {r : γ → StateM Nat β} (h : ∀ c, Issues source [] g (r c)) (cs : List γ) :
    Issues source [] (fun bs => bs.flatMap g) (cs.mapM r) := by
  induction cs with
  | nil => exact .pure (.refl _)
  | cons c cs ih =>
    rw [List.mapM_cons]
    exact (h c).bind fun b => ih.bind fun bs => .pure (.refl _)

theorem Issues.mapM_option {r : γ → StateM Nat β} (h : ∀ c, Issues source [] g (r c))
    (c : Option γ) : Issues source [] (fun b => b.toList.flatMap g) (c.mapM r) := by
  cases c with
  | none => exact .pure (.refl _)
  | some c => exact (h c).map fun b => List.append_nil _

end Issues

/-! ### What declarations are given -/

namespace Assembly

variable (s : Scope)

theorem issues_originOf (name : String) :
    Issues s.source [] (·.slot?.toList) (originOf s name) := by
  unfold originOf
  split
  · exact .pure (.refl _)
  split
  · exact .pure (.refl _)
  · exact fun n => ⟨1, rfl, .refl _⟩

mutual

theorem issues_refer (t : TypeExpr) : Issues s.source [] TypeRef.slots (refer s t) := by
  obtain ⟨name, args, dims⟩ := t
  refine (issues_originOf s name).bind fun origin => (issues_referArgs args).bind fun args => ?_
  exact .pure (TypeRef.slots_mk name args dims origin ▸ .refl _)

theorem issues_referArgs (as : List (Argument TypeExpr)) :
    Issues s.source [] TypeRef.argSlots (referArgs s as) := by
  cases as with
  | nil => exact .pure (.refl _)
  | cons a as =>
    refine (issues_referArg a).bind fun a => (issues_referArgs as).bind fun as => .pure ?_
    rw [TypeRef.argSlots_cons]
    exact List.perm_append_comm.subperm

theorem issues_referArg (a : Argument TypeExpr) :
    Issues s.source [] (fun a => (TypeRef.spreadArg a).filterMap (·.origin.slot?))
      (referArg s a) := by
  cases a with
  | unbounded => exact .pure (.refl _)
  | exactly t | extending t | above t => exact (issues_refer t).map fun _ => rfl

end

theorem issues_referAll (ts : List TypeExpr) :
    Issues s.source [] (fun rs => rs.flatMap TypeRef.slots) (referAll s ts) :=
  .mapM (issues_refer s) ts

theorem issues_referAnnotations (as : List (AnnotationUse String)) :
    Issues s.source [] (fun as => as.flatMap (·.type.slots)) (referAnnotations s as) := by
  have hsingle (a : AnnotationUse String) : Issues s.source []
      (fun a : AnnotationUse TypeRef => a.type.slots)
      (do pure ⟨← refer s (.simple a.type), a.args⟩) :=
    (issues_refer s _).map fun _ => rfl
  exact .mapM hsingle as

theorem issues_referTypeParameters (ps : List (TypeParameter TypeExpr)) :
    Issues s.source [] (fun ps => ps.flatMap fun p => p.bounds.flatMap TypeRef.slots)
      (referTypeParameters s ps) := by
  have hsingle (p : TypeParameter TypeExpr) : Issues s.source []
      (fun p : TypeParameter TypeRef => p.bounds.flatMap TypeRef.slots)
      (do pure ⟨p.name, ← referAll s p.bounds⟩) :=
    (issues_referAll s _).map fun _ => rfl
  exact .mapM hsingle ps

theorem issues_referParameter (method : String) (line : Nat) (p : Written.Parameter) :
    Issues s.source [] (fun p => SitedRef.slots (SitedRef.ofParameter method line p))
      (referParameter s p) := by
  refine (issues_refer s p.type).bind fun type =>
    (issues_referAnnotations s p.annotations).bind fun annotations => .pure ?_
  simp only [SitedRef.ofParameter, SitedRef.slots_append, SitedRef.slots_ofAnnotations,
    SitedRef.slots_single]
  exact List.perm_append_comm.subperm

theorem issues_referField (declaredIn : String) (doc : Option String) (f : Written.Field) :
    Issues s.source [] (fun f => SitedRef.slots (SitedRef.ofField f))
      (referField s declaredIn doc f) := by
  refine (issues_refer s f.type).bind fun type =>
    (issues_referAnnotations s f.annotations).bind fun annotations => .pure ?_
  simp only [SitedRef.ofField, SitedRef.slots_append, SitedRef.slots_ofAnnotations,
    SitedRef.slots_single]
  exact List.perm_append_comm.subperm

theorem issues_referMethod (declaredIn : String) (doc : Option String) (m : Written.Method) :
    Issues s.source [] (fun m => SitedRef.slots (SitedRef.ofMethod m))
      (referMethod s declaredIn doc m) := by
  refine (issues_referTypeParameters s m.typeParameters).bind fun typeParameters =>
    (Issues.mapM_option (issues_refer s) m.returnType).bind fun returnType =>
    (Issues.mapM (issues_referParameter s m.name m.line) m.parameters).bind fun parameters =>
    (issues_referAll s m.throwing).bind fun throwing =>
    (issues_referAnnotations s m.annotations).bind fun annotations => .pure ?_
  simp only [SitedRef.ofMethod, SitedRef.slots_append, SitedRef.slots_ofAnnotations,
    SitedRef.slots_ofBounds, SitedRef.slots_map, SitedRef.slots_flatMap]
  refine List.Perm.subperm (List.perm_iff_count.mpr fun slot => ?_)
  simp only [List.count_append, List.count_nil]
  omega

theorem issues_referClass (id : ClassId) (enclosing : Option ClassIndex) (fullName : String)
    (package : Option String) (doc : Option String) (c : Written.Class) :
    Issues s.source [] Class.slots (referClass s id enclosing fullName package doc c) := by
  refine (issues_referAll s _).bind fun extended =>
    (issues_referAll s c.implementing).bind fun implemented =>
    (issues_referTypeParameters s c.typeParameters).bind fun typeParameters =>
    (issues_referAll s c.permitting).bind fun permitting =>
    (issues_referAnnotations s c.annotations).bind fun annotations => .pure ?_
  have hfirst : extended.head?.toList.Sublist extended := by
    cases extended with
    | nil => exact .refl _
    | cons first rest => exact List.singleton_sublist.mpr List.mem_cons_self
  refine List.subperm_iff_count.mpr fun slot => ?_
  have hcount := (hfirst.flatMap TypeRef.slots).count_le slot
  simp only [Class.slots, Class.typeRefs, SitedRef.slots_append, SitedRef.slots_ofAnnotations,
    SitedRef.slots_ofBounds, SitedRef.slots_map, SitedRef.slots_flatMap, List.count_append]
  split
  · -- An interface lists what it extends among its interfaces.
    simp only [List.flatMap_append, List.count_append, Option.toList_none, List.flatMap_nil,
      List.count_nil]
    omega
  · simp only [List.flatMap_nil, List.append_nil, List.count_nil]
    omega

end Assembly

/-! ### What events are given -/

section Modify

variable {α β : Type} {f : α → α} {g : α → List β} {new : List β}

/-- A change at one place adds to the whole what it adds to any. -/
theorem subperm_flatMap_modify (h : ∀ a, (g (f a)).Subperm (g a ++ new)) (as : List α) (n : Nat) :
    ((as.modify n f).flatMap g).Subperm (as.flatMap g ++ new) := by
  induction as generalizing n with
  | nil => cases n <;> exact List.nil_subperm
  | cons a as ih =>
    cases n with
    | zero =>
      rw [List.modify_zero_cons, List.flatMap_cons, List.flatMap_cons]
      refine ((List.subperm_append_right _).mpr (h a)).trans (List.Perm.subperm ?_)
      rw [List.append_assoc, List.append_assoc]
      exact List.perm_append_comm.append_left _
    | succ n =>
      rw [List.modify_succ_cons, List.flatMap_cons, List.flatMap_cons, List.append_assoc]
      exact (List.subperm_append_left _).mpr (ih n)

end Modify

theorem Class.slots_withField (f : Field) (c : Class) :
    (c.withField f).slots.Subperm (c.slots ++ SitedRef.slots (SitedRef.ofField f)) := by
  refine List.Perm.subperm (List.perm_iff_count.mpr fun slot => ?_)
  simp only [slots, typeRefs, withField, List.flatMap_append, List.flatMap_singleton,
    SitedRef.slots_append, List.count_append]
  omega

theorem Class.slots_withMethod (m : Method) (c : Class) :
    (c.withMethod m).slots.Subperm (c.slots ++ SitedRef.slots (SitedRef.ofMethod m)) := by
  refine List.Perm.subperm (List.perm_iff_count.mpr fun slot => ?_)
  unfold withMethod
  split
  all_goals
    simp only [slots, typeRefs, List.flatMap_append, List.flatMap_singleton,
      SitedRef.slots_append, List.count_append]
    omega

namespace SourceUnit

theorem slots_modifyClass {f : Class → Class} {new : List Slot}
    (h : ∀ c, (f c).slots.Subperm (c.slots ++ new)) (u : SourceUnit) (i : ClassIndex) :
    (Assembly.modifyClass u i f).slots.Subperm (u.slots ++ new) :=
  subperm_flatMap_modify h u.classes i.number

theorem slots_hang (u : SourceUnit) (c : Class) :
    (u.hang c).slots.Subperm (u.slots ++ c.slots) := by
  have hadded : ({ u with classes := u.classes ++ [c] } : SourceUnit).slots = u.slots ++ c.slots :=
    List.flatMap_append.trans (congrArg (u.slots ++ ·) (List.flatMap_singleton ..))
  cases henclosing : c.enclosing with
  | none =>
    rw [hang_none henclosing]
    exact hadded ▸ .refl _
  | some i =>
    have hnest (d : Class) : (d.nest ⟨u.classes.length⟩).slots.Subperm (d.slots ++ []) :=
      (List.append_nil d.slots).symm ▸ List.Subperm.refl d.slots
    rw [hang_some henclosing, ← hadded]
    exact (slots_modifyClass hnest _ i).trans (List.append_nil _ ▸ .refl _)

end SourceUnit

namespace Assembly

variable {a b : Assembly}

/-- The names in the classes have slots that were given out, no two the same one. -/
def Numbered (a : Assembly) : Prop := a.unit.slots.Subperm (slotsFrom a.unit.id 0 a.slots)

/-- An assembly takes what was made with the next numbers. -/
theorem Numbered.grow {α : Type} {f : α → List Slot} {q : StateM Nat α} (h : a.Numbered)
    (hq : Issues a.unit.id [] f q) (hid : b.unit.id = a.unit.id)
    (hslots : b.slots = (q.run a.slots).2)
    (hunit : b.unit.slots.Subperm (a.unit.slots ++ f (q.run a.slots).1)) : b.Numbered := by
  obtain ⟨k, hk, hnew⟩ := hq a.slots
  have hall : slotsFrom b.unit.id 0 b.slots =
      slotsFrom a.unit.id 0 a.slots ++ slotsFrom a.unit.id a.slots k := by
    rw [hid, hslots, hk, slotsFrom_add, Nat.zero_add]
  unfold Numbered
  rw [hall]
  exact hunit.trans (List.Subperm.append h hnew)

theorem Numbered.beginClass (h : a.Numbered) (w : Written.Class) : (a.beginClass w).Numbered := by
  let index : ClassIndex := ⟨a.unit.classes.length⟩
  let s : Scope := ⟨a.unit.id, some index,
    w.typeParameters.map TypeParameter.name ++ a.typeScopes.flatten⟩
  let made := referClass s ⟨a.unit.id, index⟩ a.innermost (a.nextFullName w.name) a.unit.package
    (a.docFor (.onClass w.name)) w
  have hissues : Issues a.unit.id [] Class.slots made := issues_referClass s _ _ _ _ _ w
  exact h.grow hissues (a.unit.hang_id (made.run a.slots).1) rfl
    (a.unit.slots_hang (made.run a.slots).1)

theorem Numbered.addField (h : a.Numbered) (w : Written.Field) : (a.addField w).Numbered := by
  unfold Assembly.addField
  dsimp only
  split
  · rename_i i owner _ _
    have hissues := issues_referField a.scope owner.fullName (a.docFor (.onField w.name)) w
    exact h.grow hissues rfl rfl (a.unit.slots_modifyClass (Class.slots_withField _) i)
  · exact h

theorem Numbered.addMethod (h : a.Numbered) (w : Written.Method) : (a.addMethod w).Numbered := by
  unfold Assembly.addMethod
  dsimp only
  split
  · rename_i i owner _ _
    have hissues := issues_referMethod (a.inside (w.typeParameters.map TypeParameter.name)).scope
      owner.fullName
      (a.docFor (if w.isConstructor then .onConstructor w.name else .onMethod w.name)) w
    exact h.grow hissues rfl rfl (a.unit.slots_modifyClass (Class.slots_withMethod _) i)
  · exact h

/-- The annotations of a package take numbers, too. -/
theorem Numbered.setPackage (h : a.Numbered) (p : Written.Package) : (a.setPackage p).Numbered :=
  h.grow (issues_referAnnotations a.scope p.annotations) rfl rfl
    (List.sublist_append_left _ _).subperm

theorem Numbered.step (h : a.Numbered) (e : Event) : (a.step e).Numbered := by
  cases e with
  | beginClass c => exact h.beginClass c
  | beginField f => exact h.addField f
  | beginMethod m => exact h.addMethod m
  | package p => exact h.setPackage p
  | _ => exact h

theorem Numbered.foldl (h : a.Numbered) (es : List Event) :
    (es.foldl Assembly.step a).Numbered := by
  induction es generalizing a with
  | nil => exact h
  | cons e es ih => exact ih (h.step e)

end Assembly

/-- No two names in the classes of a unit share a slot, and all slots are those of the unit. -/
theorem SourceUnit.slots_ofEvents (id : UnitId) (path : FilePath) (es : List Event) :
    (ofEvents id path es).slots.Nodup ∧
      ∀ slot ∈ (ofEvents id path es).slots, slot.source = id := by
  obtain ⟨hid, _⟩ := ofEvents_places id path es
  have hstart : (Assembly.start id path).Numbered := List.nil_subperm
  obtain ⟨l, hl, hsub⟩ := Assembly.Numbered.foldl hstart es
  refine ⟨(hl.nodup_iff).mp ((nodup_slotsFrom _ _ _).sublist hsub), fun slot hslot => ?_⟩
  obtain ⟨n, _, rfl⟩ := List.mem_map.mp (hsub.subset (hl.mem_iff.mpr hslot))
  exact hid

end JavaModel
