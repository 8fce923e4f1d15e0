import Mathlib.Data.List.Nodup
import JavaModel.Proofs.Model.Placement
import JavaModel.Proofs.Model.References

/-! The classes of an assembled unit as an arena. Whatever the events, well nested or not, a class
stands behind the class around it, is listed there or at the top level, and nowhere else; its full
name continues the name of the class around it, and its members and references point back to it.
`ofEvents_arranged` says so of the unit that any events tell; `Assembly.Orderly` is what each event
preserves. -/

namespace JavaModel

/-! ### References back to a class -/

/-- Every written name of a reference, in its arguments too, lies in a class. -/
def TypeRef.LiesIn (id : ClassId) (r : TypeRef) : Prop :=
  ∀ q ∈ r.spread, ∀ slot context, q.origin = .written slot context →
    slot.source = id.source ∧ context = some id.index

/-- The members and the references of a class point back to it. -/
structure Class.Owned (id : ClassId) (c : Class) : Prop where
  fields : ∀ f ∈ c.fields, f.declaredIn = c.fullName
  methods : ∀ m ∈ c.constructors ++ c.methods, m.declaredIn = c.fullName
  refs : ∀ r ∈ c.typeRefs, r.ref.LiesIn id

theorem Assembly.Scope.Refers.liesIn {s : Scope} {t : TypeExpr} {r : TypeRef}
    (h : s.Refers t r) {id : ClassId} (hsource : s.source = id.source)
    (hcontext : s.context = some id.index) : r.LiesIn id := by
  intro q hq slot context horigin
  have hgives := h.origin q hq
  rw [horigin] at hgives
  cases hgives
  exact ⟨hsource, hcontext⟩

namespace Class

variable {id : ClassId} {c : Class}

/-- A class with one more field. -/
def withField (f : Field) (c : Class) : Class := { c with fields := c.fields ++ [f] }

/-- A class with one more method or constructor. -/
def withMethod (m : Method) (c : Class) : Class :=
  if m.isConstructor then { c with constructors := c.constructors ++ [m] }
  else { c with methods := c.methods ++ [m] }

/-- A class that lists one more class directly inside it. -/
def nest (inner : ClassIndex) (c : Class) : Class := { c with nested := c.nested ++ [inner] }

theorem Owned.nest (h : c.Owned id) (inner : ClassIndex) : (c.nest inner).Owned id :=
  ⟨h.fields, h.methods, h.refs⟩

/-- A class takes a field that points back to it. -/
theorem Owned.withField (h : c.Owned id) {f : Field} (hname : f.declaredIn = c.fullName)
    (hrefs : ∀ r ∈ SitedRef.ofField f, r.ref.LiesIn id) : (c.withField f).Owned id := by
  refine ⟨?_, h.methods, fun r hr => ?_⟩
  · simpa [Class.withField, or_imp, forall_and] using ⟨h.fields, hname⟩
  · have hold := h.refs r
    simp only [Class.withField, typeRefs, List.flatMap_append, List.flatMap_singleton,
      List.mem_append] at hr hold
    grind

/-- A class takes a method or a constructor that points back to it. -/
theorem Owned.withMethod (h : c.Owned id) {m : Method} (hname : m.declaredIn = c.fullName)
    (hrefs : ∀ r ∈ SitedRef.ofMethod m, r.ref.LiesIn id) : (c.withMethod m).Owned id := by
  have hmethods := h.methods
  simp only [List.mem_append] at hmethods
  unfold Class.withMethod
  split
  all_goals
    refine ⟨h.fields, ?_, fun r hr => ?_⟩
    · simp only [List.mem_append, List.mem_singleton]
      grind
    · have hold := h.refs r
      simp only [typeRefs, List.flatMap_append, List.flatMap_singleton, List.mem_append] at hr hold
      grind

end Class

/-! ### Places of classes -/

namespace SourceUnit

variable {u : SourceUnit} {i j : ClassIndex} {c : Class}

/-- The places of the classes directly inside a class, or of those inside none, in order. -/
def within (u : SourceUnit) (outer : Option ClassIndex) : List ClassIndex :=
  ((List.range u.classes.length).filter fun n =>
    (u.classAt? ⟨n⟩).map (·.enclosing) = some outer).map ClassIndex.mk

theorem mem_within {outer : Option ClassIndex} :
    i ∈ u.within outer ↔ ∃ c, u.classAt? i = some c ∧ c.enclosing = outer := by
  obtain ⟨n⟩ := i
  simp only [within, List.mem_map, List.mem_filter, List.mem_range, decide_eq_true_eq,
    Option.map_eq_some_iff, ClassIndex.mk.injEq, exists_eq_right, and_iff_right_iff_imp]
  rintro ⟨c, hc, _⟩
  exact (List.getElem?_eq_some_iff.mp hc).1

theorem within_pairwise (u : SourceUnit) (outer : Option ClassIndex) :
    (u.within outer).Pairwise fun i j => i.number < j.number :=
  List.pairwise_map.mpr (List.pairwise_lt_range.filter _)

/-- A class that is listed is listed once. -/
theorem count_within {outer : Option ClassIndex} (h : i ∈ u.within outer) :
    (u.within outer).count i = 1 := by
  refine List.count_eq_one_of_mem ((u.within_pairwise outer).imp fun hlt heq => ?_) h
  subst heq
  exact Nat.lt_irrefl _ hlt

theorem classAt?_append (u : SourceUnit) (c : Class) (i : ClassIndex) :
    ({ u with classes := u.classes ++ [c] } : SourceUnit).classAt? i =
      if i.number = u.classes.length then some c else u.classAt? i := by
  unfold classAt?
  split
  · simp [*]
  · grind

theorem classAt?_modifyClass (u : SourceUnit) (i : ClassIndex) (f : Class → Class)
    (j : ClassIndex) : (Assembly.modifyClass u i f).classAt? j =
      (u.classAt? j).map fun c => if j = i then f c else c := by
  obtain ⟨n⟩ := i
  obtain ⟨m⟩ := j
  simp only [classAt?, Assembly.modifyClass, List.getElem?_modify, ClassIndex.mk.injEq,
    Option.map_eq_map, eq_comm]

/-! ### Links between classes -/

/-- A class is linked to those around it and inside it: it lists exactly the classes directly inside
it, and if it stands inside a class, then behind that class and with a name that continues its name.
-/
structure Links (u : SourceUnit) (i : ClassIndex) (c : Class) : Prop where
  nested : c.nested = u.within (some i)
  outer : ∀ j, c.enclosing = some j → j.number < i.number ∧
    ∃ o, u.classAt? j = some o ∧ c.fullName = o.fullName ++ "." ++ c.name

/-- All classes are linked, and the classes inside none are listed at the top level. -/
structure Linked (u : SourceUnit) : Prop where
  topLevel : u.topLevel = u.within none
  links : ∀ i c, u.classAt? i = some c → u.Links i c

/-- The classes have the same links and the same name. -/
structure SameLinks (b c : Class) : Prop where
  name : c.name = b.name
  fullName : c.fullName = b.fullName
  enclosing : c.enclosing = b.enclosing
  nested : c.nested = b.nested

theorem SameLinks.refl (c : Class) : SameLinks c c := ⟨rfl, rfl, rfl, rfl⟩

theorem sameLinks_withMethod (m : Method) (c : Class) : SameLinks c (c.withMethod m) := by
  unfold Class.withMethod
  split <;> exact ⟨rfl, rfl, rfl, rfl⟩

theorem within_modifyClass {f : Class → Class} (hf : ∀ c, (f c).enclosing = c.enclosing)
    (i : ClassIndex) (outer : Option ClassIndex) :
    (Assembly.modifyClass u i f).within outer = u.within outer := by
  have henclosing (n : Nat) : ((Assembly.modifyClass u i f).classAt? ⟨n⟩).map (·.enclosing) =
      (u.classAt? ⟨n⟩).map (·.enclosing) := by
    rw [classAt?_modifyClass, Option.map_map]
    refine Option.map_congr fun c _ => ?_
    simp only [Function.comp_apply]
    split
    · exact hf c
    · rfl
  simp only [within, henclosing]
  simp [Assembly.modifyClass]

/-- A new class comes behind those that stand inside the same class. -/
theorem within_append (u : SourceUnit) (c : Class) (outer : Option ClassIndex) :
    ({ u with classes := u.classes ++ [c] } : SourceUnit).within outer =
      u.within outer ++ if c.enclosing = outer then [⟨u.classes.length⟩] else [] := by
  simp only [within, List.length_append, List.length_singleton, List.range_succ,
    List.filter_append, List.map_append, classAt?_append]
  congr 1
  · refine congrArg _ (List.filter_congr fun n hn => ?_)
    rw [if_neg (Nat.ne_of_lt (List.mem_range.mp hn))]
  · by_cases h : c.enclosing = outer <;> simp [h]

/-- What holds of every class and of its changed form holds of a class before and after a change
somewhere. -/
theorem related_ite {P : Class → Class → Prop} {f : Class → Class} (hrefl : ∀ c, P c c)
    (hf : ∀ c, P c (f c)) (i j : ClassIndex) (c : Class) : P c (if j = i then f c else c) := by
  split
  · exact hf c
  · exact hrefl c

theorem Linked.modify (h : u.Linked) {f : Class → Class} (hf : ∀ c, SameLinks c (f c))
    (i : ClassIndex) : (Assembly.modifyClass u i f).Linked := by
  have hwithin (outer : Option ClassIndex) : _ = u.within outer :=
    within_modifyClass (fun c => (hf c).enclosing) i outer
  refine ⟨h.topLevel.trans (hwithin none).symm, fun j c hc => ?_⟩
  rw [classAt?_modifyClass, Option.map_eq_some_iff] at hc
  obtain ⟨b, hb, hbc⟩ := hc
  have hsame : SameLinks b c := hbc ▸ related_ite SameLinks.refl hf i j b
  obtain ⟨hnested, houter⟩ := h.links j b hb
  refine ⟨?_, fun k hk => ?_⟩
  · rw [hwithin, hsame.nested, hnested]
  · obtain ⟨hlt, o, ho, hname⟩ := houter k (hsame.enclosing.symm.trans hk)
    refine ⟨hlt, _, by rw [classAt?_modifyClass, ho]; rfl, ?_⟩
    rw [hsame.fullName, hsame.name, (related_ite SameLinks.refl hf i k o).fullName, hname]

/-- A class placed behind the others and listed by the class around it, or at the top level. -/
def hang (u : SourceUnit) (c : Class) : SourceUnit :=
  let index : ClassIndex := ⟨u.classes.length⟩
  let grown := { u with classes := u.classes ++ [c] }
  match c.enclosing with
  | some outer => Assembly.modifyClass grown outer (Class.nest index)
  | none => { grown with topLevel := grown.topLevel ++ [index] }

theorem hang_none (h : c.enclosing = none) : u.hang c =
    { u with classes := u.classes ++ [c],
             topLevel := u.topLevel ++ [⟨u.classes.length⟩] } := by
  simp only [hang, h]

theorem hang_some (h : c.enclosing = some j) : u.hang c =
    Assembly.modifyClass { u with classes := u.classes ++ [c] } j
      (Class.nest ⟨u.classes.length⟩) := by
  simp only [hang, h]

theorem hang_id (u : SourceUnit) (c : Class) : (u.hang c).id = u.id := by
  cases henclosing : c.enclosing with
  | none => rw [hang_none henclosing]
  | some o => rw [hang_some henclosing, Assembly.modifyClass]

theorem length_hang (u : SourceUnit) (c : Class) :
    (u.hang c).classes.length = u.classes.length + 1 := by
  cases henclosing : c.enclosing with
  | none =>
    rw [hang_none henclosing]
    exact List.length_append
  | some o =>
    rw [hang_some henclosing]
    exact (List.length_modify ..).trans List.length_append

/-- A class that was there, after another came. -/
def besides (u : SourceUnit) (c : Class) (i : ClassIndex) (o : Class) : Class :=
  if i = c.enclosing then o.nest ⟨u.classes.length⟩ else o

theorem classAt?_hang (h : ∀ j, c.enclosing = some j → (u.classAt? j).isSome) (i : ClassIndex) :
    (u.hang c).classAt? i = if i.number = u.classes.length then some c else
      (u.classAt? i).map (u.besides c i) := by
  have happend := classAt?_append u c i
  cases henclosing : c.enclosing with
  | none =>
    have hbesides : u.besides c i = fun o => o := by
      funext o
      simp [besides, henclosing]
    rw [hang_none henclosing, hbesides, Option.map_id']
    exact happend
  | some outer =>
    rw [hang_some henclosing, classAt?_modifyClass, happend]
    by_cases hi : i.number = u.classes.length
    · -- The class stands behind the one around it.
      have houter : i ≠ outer := by
        rintro rfl
        obtain ⟨o, ho⟩ := Option.isSome_iff_exists.mp (h _ henclosing)
        exact absurd (List.getElem?_eq_some_iff.mp ho).1 (by omega)
      rw [if_pos hi, if_pos hi, Option.map_some, if_neg houter]
    · rw [if_neg hi, if_neg hi]
      refine Option.map_congr fun o _ => ?_
      simp only [besides, henclosing, Option.some.injEq]

theorem within_hang (outer : Option ClassIndex) : (u.hang c).within outer =
    u.within outer ++ if c.enclosing = outer then [⟨u.classes.length⟩] else [] := by
  have happend := within_append u c outer
  cases henclosing : c.enclosing with
  | none =>
    rw [hang_none henclosing, ← henclosing]
    exact happend
  | some o =>
    rw [hang_some henclosing, ← henclosing, ← happend]
    exact within_modifyClass (fun _ => by rfl) o outer

theorem besides_fullName (u : SourceUnit) (c : Class) (i : ClassIndex) (o : Class) :
    (u.besides c i o).fullName = o.fullName ∧ (u.besides c i o).name = o.name ∧
      (u.besides c i o).enclosing = o.enclosing := by
  unfold besides
  split <;> exact ⟨rfl, rfl, rfl⟩

/-- No class stands inside one that is still to come. -/
theorem Linked.within_next (h : u.Linked) : u.within (some ⟨u.classes.length⟩) = [] := by
  refine List.eq_nil_iff_forall_not_mem.mpr fun i hi => ?_
  obtain ⟨c, hc, henclosing⟩ := mem_within.mp hi
  have hlt := (List.getElem?_eq_some_iff.mp hc).1
  exact Nat.lt_asymm hlt ((h.links i c hc).outer _ henclosing).1

theorem Linked.hang (h : u.Linked) (hnested : c.nested = []) (houter : ∀ j, c.enclosing = some j →
      ∃ o, u.classAt? j = some o ∧ c.fullName = o.fullName ++ "." ++ c.name) :
    (u.hang c).Linked := by
  have hlt (j : ClassIndex) (o : Class) (ho : u.classAt? j = some o) :
      j.number < u.classes.length := (List.getElem?_eq_some_iff.mp ho).1
  have hlookup := classAt?_hang (u := u) (c := c) fun j hj => by
    obtain ⟨o, ho, _⟩ := houter j hj
    rw [ho]
    rfl
  have hlater (j : ClassIndex) (o : Class) (ho : u.classAt? j = some o) :
      (u.hang c).classAt? j = some (u.besides c j o) := by
    rw [hlookup, if_neg (Nat.ne_of_lt (hlt j o ho)), ho, Option.map_some]
  refine ⟨?_, fun i d hd => ?_⟩
  · rw [within_hang, ← h.topLevel]
    cases henclosing : c.enclosing with
    | none => simp [hang_none henclosing]
    | some o => simp [hang_some henclosing, Assembly.modifyClass]
  · rw [hlookup] at hd
    split at hd
    · -- The new class.
      rename_i hi
      obtain rfl := Option.some.inj hd
      obtain rfl : i = ⟨u.classes.length⟩ := congrArg ClassIndex.mk hi
      refine ⟨?_, fun j hj => ?_⟩
      · have hself : c.enclosing ≠ some ⟨u.classes.length⟩ := by
          intro hself
          obtain ⟨o, ho, _⟩ := houter _ hself
          exact Nat.lt_irrefl _ (hlt _ o ho)
        rw [within_hang, h.within_next, if_neg hself, hnested, List.append_nil]
      · obtain ⟨o, ho, hname⟩ := houter j hj
        refine ⟨hlt j o ho, _, hlater j o ho, ?_⟩
        rw [(u.besides_fullName c j o).1]
        exact hname
    · -- One that was there.
      obtain ⟨b, hb, rfl⟩ := Option.map_eq_some_iff.mp hd
      obtain ⟨hfull, hname, henclosing⟩ := u.besides_fullName c i b
      obtain ⟨hnested, houter⟩ := h.links i b hb
      refine ⟨?_, fun j hj => ?_⟩
      · rw [within_hang, ← hnested]
        by_cases hi : some i = c.enclosing
        · simp [besides, Class.nest, hi]
        · simp [besides, hi, Ne.symm hi]
      · obtain ⟨hbefore, o, ho, hcontinues⟩ := houter j (henclosing.symm.trans hj)
        refine ⟨hbefore, _, hlater j o ho, ?_⟩
        rw [hfull, hname, (u.besides_fullName c j o).1, hcontinues]

end SourceUnit

/-! ### One event -/

namespace Assembly

variable {a : Assembly}

/-- The innermost open class. -/
def innermost (a : Assembly) : Option ClassIndex := a.stack.head?

theorem current?_of_innermost {i : ClassIndex} {c : Class} (hi : a.innermost = some i)
    (hc : a.unit.classAt? i = some c) : a.current? = some c := by
  rw [← hc]
  exact congrArg (Option.bind · a.unit.classAt?) hi

/-- The full name of a class that begins now. -/
def nextFullName (a : Assembly) (name : String) : String :=
  match a.current? with
  | some outer => outer.fullName ++ "." ++ name
  | none => Name.join a.unit.package name

/-- The class that a beginning makes, before it has members. -/
structure Begins (a : Assembly) (w : Written.Class) (c : Class) : Prop where
  holds : Class.Holds ((⟨a.unit.id, some ⟨a.unit.classes.length⟩,
    w.typeParameters.map TypeParameter.name ++ a.typeScopes.flatten⟩ : Scope).Refers)
    w c
  fullName : c.fullName = a.nextFullName w.name
  enclosing : c.enclosing = a.innermost
  doc : c.doc = a.docFor (.onClass w.name)
  nested : c.nested = []
  fields : c.fields = []
  constructors : c.constructors = []
  methods : c.methods = []

theorem beginClass_spec (a : Assembly) (w : Written.Class) : ∃ made slots, a.Begins w made ∧
    a.beginClass w =
      { unit := a.unit.hang made, pendingDoc := none, slots,
        stack := ⟨a.unit.classes.length⟩ :: a.stack,
        typeScopes := w.typeParameters.map TypeParameter.name :: a.typeScopes } := by
  let index : ClassIndex := ⟨a.unit.classes.length⟩
  let s : Scope := ⟨a.unit.id, some index,
    w.typeParameters.map TypeParameter.name ++ a.typeScopes.flatten⟩
  let made := referClass s ⟨a.unit.id, index⟩ a.innermost (a.nextFullName w.name) a.unit.package
    (a.docFor (.onClass w.name)) w
  have hholds : Class.Holds s.Refers w (made.run a.slots).1 :=
    referClass_holds s _ _ _ _ _ w a.slots
  exact ⟨(made.run a.slots).1, (made.run a.slots).2,
    ⟨hholds, rfl, rfl, rfl, rfl, rfl, rfl, rfl⟩, rfl⟩

/-- The field that a beginning makes in a class. -/
structure MakesField (a : Assembly) (owner : Class) (w : Written.Field) (f : Field) : Prop where
  holds : Field.Holds a.scope.Refers w f
  declaredIn : f.declaredIn = owner.fullName
  doc : f.doc = a.docFor (.onField w.name)

theorem addField_outside (h : a.current? = none) (w : Written.Field) :
    a.addField w = { a with pendingDoc := none } := by
  have hcurrent : ({ a with pendingDoc := none } : Assembly).current? = none := h
  unfold addField
  dsimp only
  rw [hcurrent]
  split
  · rename_i hsome
    cases hsome
  · rfl

theorem addField_inside {i : ClassIndex} {owner : Class} (hi : a.innermost = some i)
    (ho : a.unit.classAt? i = some owner) (w : Written.Field) : ∃ made slots,
      a.MakesField owner w made ∧
      a.addField w = { a with
        unit := modifyClass a.unit i (Class.withField made), pendingDoc := none, slots } := by
  have hopened : a.stack.head? = some i := hi
  have hcurrent : ({ a with pendingDoc := none } : Assembly).current? = some owner :=
    current?_of_innermost hi ho
  let made := referField a.scope owner.fullName (a.docFor (.onField w.name)) w
  refine ⟨(made.run a.slots).1, (made.run a.slots).2,
    ⟨referField_holds a.scope _ _ w a.slots, rfl, rfl⟩, ?_⟩
  unfold addField
  dsimp only
  rw [hopened, hcurrent]
  rfl

/-- The method or the constructor that a beginning makes in a class. -/
structure MakesMethod (a : Assembly) (owner : Class) (w : Written.Method) (m : Method) : Prop where
  holds : Method.Holds (a.inside (w.typeParameters.map TypeParameter.name)).scope.Refers w m
  declaredIn : m.declaredIn = owner.fullName
  doc : m.doc = a.docFor (if w.isConstructor then .onConstructor w.name else .onMethod w.name)

theorem addMethod_outside (h : a.current? = none) (w : Written.Method) :
    a.addMethod w = { a with pendingDoc := none } := by
  have hcurrent : ({ a with pendingDoc := none } : Assembly).current? = none := h
  unfold addMethod
  dsimp only
  rw [hcurrent]
  split
  · rename_i hsome
    cases hsome
  · rfl

theorem addMethod_inside {i : ClassIndex} {owner : Class} (hi : a.innermost = some i)
    (ho : a.unit.classAt? i = some owner) (w : Written.Method) : ∃ made slots,
      a.MakesMethod owner w made ∧
      a.addMethod w = { a with
        unit := modifyClass a.unit i (Class.withMethod made), pendingDoc := none, slots } := by
  have hopened : a.stack.head? = some i := hi
  have hcurrent : ({ a with pendingDoc := none } : Assembly).current? = some owner :=
    current?_of_innermost hi ho
  let s := (a.inside (w.typeParameters.map TypeParameter.name)).scope
  let made := referMethod s owner.fullName
    (a.docFor (if w.isConstructor then .onConstructor w.name else .onMethod w.name)) w
  refine ⟨(made.run a.slots).1, (made.run a.slots).2,
    ⟨referMethod_holds s _ _ w a.slots, rfl, rfl⟩, ?_⟩
  unfold addMethod
  dsimp only
  rw [hopened, hcurrent]
  rfl

/-! ### Every event -/

/-- Classes are linked and own what they hold, and those that are open are there. -/
structure Orderly (a : Assembly) : Prop where
  linked : a.unit.Linked
  owned : ∀ i c, a.unit.classAt? i = some c → c.Owned ⟨a.unit.id, i⟩
  opened : ∀ i ∈ a.stack, (a.unit.classAt? i).isSome

/-- The innermost open class of an orderly assembly is there. -/
theorem Orderly.current (h : a.Orderly) {i : ClassIndex} (hi : a.innermost = some i) :
    ∃ c, a.unit.classAt? i = some c ∧ a.current? = some c := by
  obtain ⟨c, hc⟩ := Option.isSome_iff_exists.mp (h.opened i (List.mem_of_head? hi))
  exact ⟨c, hc, current?_of_innermost hi hc⟩

theorem orderly_start (id : UnitId) (path : FilePath) : (start id path).Orderly := by
  refine ⟨⟨rfl, fun i c hc => ?_⟩, fun i c hc => ?_, fun o ho => by cases ho⟩
  · simp [start, SourceUnit.classAt?] at hc
  · simp [start, SourceUnit.classAt?] at hc

theorem Orderly.beginClass (h : a.Orderly) (w : Written.Class) : (a.beginClass w).Orderly := by
  obtain ⟨made, slots, hmade, heq⟩ := a.beginClass_spec w
  have houter (j : ClassIndex) (hj : made.enclosing = some j) :
      ∃ o, a.unit.classAt? j = some o ∧ made.fullName = o.fullName ++ "." ++ made.name := by
    obtain ⟨o, ho, hcurrent⟩ := h.current (hmade.enclosing.symm.trans hj)
    refine ⟨o, ho, ?_⟩
    rw [hmade.fullName, hmade.holds.name]
    simp only [nextFullName, hcurrent]
  have hlookup := SourceUnit.classAt?_hang (u := a.unit) (c := made) fun j hj => by
    obtain ⟨o, ho, _⟩ := houter j hj
    rw [ho]
    rfl
  rw [heq]
  refine ⟨h.linked.hang hmade.nested houter, fun i c hc => ?_, fun o ho => ?_⟩
  · rw [SourceUnit.hang_id]
    rw [hlookup] at hc
    split at hc
    · rename_i hi
      obtain rfl := Option.some.inj hc
      obtain rfl : i = ⟨a.unit.classes.length⟩ := congrArg ClassIndex.mk hi
      refine ⟨by simp [hmade.fields], by simp [hmade.constructors, hmade.methods], fun r hr => ?_⟩
      obtain ⟨t, _, ht⟩ | ⟨f, hf, _⟩ | ⟨m, hm, _⟩ := hmade.holds.refs hr
      · exact ht.liesIn rfl rfl
      · rw [hmade.fields] at hf
        cases hf
      · rw [hmade.constructors, hmade.methods] at hm
        cases hm
    · obtain ⟨b, hb, rfl⟩ := Option.map_eq_some_iff.mp hc
      unfold SourceUnit.besides
      split
      · exact (h.owned i b hb).nest _
      · exact h.owned i b hb
  · rw [hlookup]
    rcases List.mem_cons.mp ho with rfl | ho
    · simp
    · split
      · rfl
      · rw [Option.isSome_map]
        exact h.opened o ho

/-- A class changes that is there. -/
theorem Orderly.modify (h : a.Orderly) {i : ClassIndex} {f : Class → Class} (slots : Nat)
    (hsame : ∀ c, SourceUnit.SameLinks c (f c))
    (howned : ∀ c, a.unit.classAt? i = some c → (f c).Owned ⟨a.unit.id, i⟩) :
    Orderly { a with unit := modifyClass a.unit i f, pendingDoc := none, slots } := by
  refine ⟨h.linked.modify hsame i, fun j c hc => ?_, fun o ho => ?_⟩
  · change (modifyClass a.unit i f).classAt? j = some c at hc
    rw [SourceUnit.classAt?_modifyClass] at hc
    obtain ⟨b, hb, rfl⟩ := Option.map_eq_some_iff.mp hc
    split
    · rename_i hj
      subst hj
      exact howned b hb
    · exact h.owned j b hb
  · change ((modifyClass a.unit i f).classAt? o).isSome
    rw [SourceUnit.classAt?_modifyClass, Option.isSome_map]
    exact h.opened o ho

theorem Orderly.addField (h : a.Orderly) (w : Written.Field) : (a.addField w).Orderly := by
  cases hi : a.innermost with
  | none =>
    rw [addField_outside (by rw [current?, ← innermost, hi]; rfl)]
    exact ⟨h.linked, h.owned, h.opened⟩
  | some i =>
    obtain ⟨owner, howner, _⟩ := h.current hi
    obtain ⟨made, slots, hmade, heq⟩ := addField_inside hi howner w
    rw [heq]
    refine h.modify slots (fun _ => ⟨rfl, rfl, rfl, rfl⟩) fun c hc => ?_
    obtain rfl : owner = c := Option.some.inj (howner.symm.trans hc)
    refine (h.owned i owner howner).withField hmade.declaredIn fun r hr => ?_
    obtain ⟨t, _, ht⟩ := hmade.holds.refs hr
    exact ht.liesIn rfl hi

theorem Orderly.addMethod (h : a.Orderly) (w : Written.Method) : (a.addMethod w).Orderly := by
  cases hi : a.innermost with
  | none =>
    rw [addMethod_outside (by rw [current?, ← innermost, hi]; rfl)]
    exact ⟨h.linked, h.owned, h.opened⟩
  | some i =>
    obtain ⟨owner, howner, _⟩ := h.current hi
    obtain ⟨made, slots, hmade, heq⟩ := addMethod_inside hi howner w
    rw [heq]
    refine h.modify slots (SourceUnit.sameLinks_withMethod made) fun c hc => ?_
    obtain rfl : owner = c := Option.some.inj (howner.symm.trans hc)
    refine (h.owned i owner howner).withMethod hmade.declaredIn fun r hr => ?_
    obtain ⟨t, _, ht⟩ := hmade.holds.refs hr
    exact ht.liesIn rfl hi

theorem Orderly.step (h : a.Orderly) (e : Event) : (a.step e).Orderly := by
  cases e with
  | beginClass c => exact h.beginClass c
  | beginField f => exact h.addField f
  | beginMethod m => exact h.addMethod m
  | endClass => exact ⟨h.linked, h.owned, fun o ho => h.opened o (List.mem_of_mem_tail ho)⟩
  | package p | imports i =>
    exact ⟨⟨h.linked.topLevel, fun i c hc => ⟨(h.linked.links i c hc).nested,
      (h.linked.links i c hc).outer⟩⟩, h.owned, h.opened⟩
  | _ => exact ⟨h.linked, h.owned, h.opened⟩

/-- However many events, in whatever order. -/
theorem Orderly.foldl (h : a.Orderly) (es : List Event) : (es.foldl Assembly.step a).Orderly := by
  induction es generalizing a with
  | nil => exact h
  | cons e es ih => exact ih (h.step e)

end Assembly

/-! ### Walks outward -/

namespace SourceUnit

variable {u : SourceUnit} {i : ClassIndex} {c : Class}

@[simp] theorem outward_none (u : SourceUnit) (n : Nat) : u.outward n none = [] := by
  cases n <;> rfl

theorem outward_succ (hc : u.classAt? i = some c) (n : Nat) :
    u.outward (n + 1) (some i) = c :: u.outward n c.enclosing := by
  simp only [outward, hc]

/-- A walk outward is the same under any bound above the place where it begins. -/
theorem Linked.outward_eq (h : u.Linked) {n m : Nat} (hn : i.number < n) (hm : i.number < m) :
    u.outward n (some i) = u.outward m (some i) := by
  induction n generalizing i m with
  | zero => exact absurd hn (Nat.not_lt_zero _)
  | succ n ih =>
    obtain ⟨m, rfl⟩ := Nat.exists_eq_succ_of_ne_zero (Nat.ne_of_gt (Nat.zero_lt_of_lt hm))
    cases hc : u.classAt? i with
    | none => simp only [outward, hc]
    | some c =>
      rw [outward_succ hc, outward_succ hc]
      cases henclosing : c.enclosing with
      | none => rw [outward_none, outward_none]
      | some j =>
        have hlt := ((h.links i c hc).outer j henclosing).1
        rw [ih (m := m) (by omega) (by omega)]

/-- A walk outward ends at a class that stands inside none. -/
theorem Linked.outward_last (h : u.Linked) {n : Nat} (hn : i.number < n)
    (hc : u.classAt? i = some c) :
    ∃ outermost, (u.outward n (some i)).getLast? = some outermost ∧ outermost.enclosing = none := by
  induction n generalizing i c with
  | zero => exact absurd hn (Nat.not_lt_zero _)
  | succ n ih =>
    rw [outward_succ hc]
    cases henclosing : c.enclosing with
    | none => exact ⟨c, by rw [outward_none]; rfl, henclosing⟩
    | some j =>
      obtain ⟨hlt, o, ho, _⟩ := (h.links i c hc).outer j henclosing
      obtain ⟨outermost, hlast, hout⟩ := ih (by omega) ho
      exact ⟨outermost, by rw [List.getLast?_cons, hlast]; rfl, hout⟩

/-- The classes of a unit as an arena. -/
structure Arranged (u : SourceUnit) : Prop where
  /-- The id of a class is that of the unit with the place where the class stands. -/
  origin : ∀ i c, u.classAt? i = some c → c.origin = .declared ⟨u.id, i⟩
  /-- A class inside another stands behind it and is listed there, once, and not at the top level;
  its full name continues the name of the other. -/
  inside : ∀ i c j, u.classAt? i = some c → c.enclosing = some j →
    j.number < i.number ∧ i ∉ u.topLevel ∧
      ∃ o, u.classAt? j = some o ∧ o.nested.count i = 1 ∧ c.fullName = o.fullName ++ "." ++ c.name
  /-- A class inside no other is listed at the top level, once, and in no class. -/
  outside : ∀ i c, u.classAt? i = some c → c.enclosing = none →
    u.topLevel.count i = 1 ∧ ∀ o ∈ u.classes, i ∉ o.nested
  /-- The top level lists places of classes in order. -/
  topLevel : u.topLevel.Pairwise (·.number < ·.number) ∧
    ∀ i ∈ u.topLevel, (u.classAt? i).isSome
  /-- A class lists places of classes in order. -/
  nested : ∀ c ∈ u.classes, c.nested.Pairwise (·.number < ·.number) ∧
    ∀ i ∈ c.nested, (u.classAt? i).isSome
  /-- Members and references point back to the class that holds them. -/
  owned : ∀ i c, u.classAt? i = some c → c.Owned ⟨u.id, i⟩
  /-- A walk outward ends, at a class inside no other, however many steps it may take beyond those
  that a scope takes. -/
  ends : ∀ i c, u.classAt? i = some c →
    (∀ bound ≥ u.classes.length, u.outward bound (some i) = u.scopeFrom (some i)) ∧
      ∃ outermost, (u.scopeFrom (some i)).getLast? = some outermost ∧ outermost.enclosing = none

/-- The places listed in a linked class are those of the classes directly inside it. -/
theorem Linked.mem_nested (h : u.Linked) {o : Class} (ho : o ∈ u.classes) :
    ∃ j, u.classAt? j = some o ∧ o.nested = u.within (some j) := by
  obtain ⟨n, hn⟩ := List.mem_iff_getElem?.mp ho
  exact ⟨⟨n⟩, hn, (h.links ⟨n⟩ o hn).nested⟩

/-- What an arena is, from links and owners. -/
theorem arranged_of_linked (hplaced : u.Placed) (h : u.Linked)
    (howned : ∀ i c, u.classAt? i = some c → c.Owned ⟨u.id, i⟩) : u.Arranged := by
  have hlisted (outer : Option ClassIndex) (j : ClassIndex) (hj : j ∈ u.within outer) :
      (u.classAt? j).isSome := by
    obtain ⟨d, hd, _⟩ := mem_within.mp hj
    rw [hd]
    rfl
  refine
    { origin := fun i c hc => hplaced i.number c hc
      inside := fun i c j hc hj => ?_
      outside := fun i c hc hnone => ⟨?_, fun o ho hi => ?_⟩
      topLevel := ?_
      nested := fun c hc => ?_
      owned := howned
      ends := fun i c hc => ?_ }
  · obtain ⟨hlt, o, ho, hname⟩ := (h.links i c hc).outer j hj
    refine ⟨hlt, fun hi => ?_, o, ho, ?_, hname⟩
    · rw [h.topLevel] at hi
      obtain ⟨d, hd, hnone⟩ := mem_within.mp hi
      obtain rfl : c = d := Option.some.inj (hc.symm.trans hd)
      rw [hj] at hnone
      cases hnone
    · rw [(h.links j o ho).nested]
      exact count_within (mem_within.mpr ⟨c, hc, hj⟩)
  · rw [h.topLevel]
    exact count_within (mem_within.mpr ⟨c, hc, hnone⟩)
  · obtain ⟨j, _, hnested⟩ := h.mem_nested ho
    rw [hnested] at hi
    obtain ⟨d, hd, hj⟩ := mem_within.mp hi
    obtain rfl : c = d := Option.some.inj (hc.symm.trans hd)
    rw [hnone] at hj
    cases hj
  · rw [h.topLevel]
    exact ⟨u.within_pairwise none, hlisted none⟩
  · obtain ⟨j, _, hnested⟩ := h.mem_nested hc
    rw [hnested]
    exact ⟨u.within_pairwise (some j), hlisted (some j)⟩
  · have hlt : i.number < u.classes.length := (List.getElem?_eq_some_iff.mp hc).1
    exact ⟨fun bound hbound => h.outward_eq (Nat.lt_of_lt_of_le hlt hbound) hlt,
      h.outward_last hlt hc⟩

theorem arranged_ofEvents (id : UnitId) (path : FilePath) (es : List Event) :
    (ofEvents id path es).Arranged := by
  obtain ⟨_, hplaced⟩ := ofEvents_places id path es
  have horderly := (Assembly.orderly_start id path).foldl es
  exact arranged_of_linked hplaced horderly.linked horderly.owned

/-- The unit that events tell is an arena under its id, whatever the events. -/
theorem ofEvents_arranged (id : UnitId) (path : FilePath) (es : List Event) :
    (ofEvents id path es).id = id ∧ (ofEvents id path es).Arranged :=
  ⟨(ofEvents_places id path es).1, arranged_ofEvents id path es⟩

end SourceUnit

end JavaModel
