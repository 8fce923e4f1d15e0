import JavaModel.Proofs.Grammar.ConstructorNames
import JavaModel.Proofs.Model.Renaming
import JavaModel.Proofs.Model.Spelling

/-! Constructors have the name of their class, whatever a class is known from. In a unit this is
what the parser tells: the names of the open classes, followed along with the events, are those of
the classes that the events number as open. -/

namespace JavaModel

variable {es : List Event} {e : Event} {stack : List String} {i : ClassIndex} {c : Class}

/-- The name of the class that begins with a number. -/
def nameAt? (es : List Event) (i : ClassIndex) : Option String :=
  (told Event.class? es)[i.number]?.map (·.decl.name)

/-- A class that has begun keeps its name. -/
theorem nameAt?_concat (h : i.number < classesBegun es) (e : Event) :
    nameAt? (es ++ [e]) i = nameAt? es i := by
  rw [nameAt?, told_concat, List.getElem?_append_left (by rwa [length_told_class])]
  rfl

theorem nameAt?_begun (es : List Event) (c : Written.Class) :
    nameAt? (es ++ [.beginClass c]) ⟨classesBegun es⟩ = some c.name := by
  rw [nameAt?, told_concat_some (d := c) rfl, ← length_told_class, List.getElem?_concat_length]
  rfl

theorem bind_nameAt?_concat {n : Nat} (e : Event) :
    (openBack n es.reverse).bind (nameAt? (es ++ [e])) =
      (openBack n es.reverse).bind (nameAt? es) := by
  cases h : openBack n es.reverse with
  | none => rfl
  | some i =>
    have hbegun := openBack_lt h
    rw [classesBegun, List.countP_reverse] at hbegun
    exact nameAt?_concat hbegun e

/-- The names are those of the classes open behind the events, and every constructor has the name of
the class that it stands in. -/
structure NamesOpen (es : List Event) (stack : List String) : Prop where
  opened : ∀ n, stack[n]? = (openBack n es.reverse).bind (nameAt? es)
  constructors : ∀ t ∈ told Event.constructor? es,
    t.inside.bind (nameAt? es) = some t.decl.name

namespace NamesOpen

theorem constructors_concat (h : NamesOpen es stack) (he : e.constructor? = none) :
    ∀ t ∈ told Event.constructor? (es ++ [e]),
      t.inside.bind (nameAt? (es ++ [e])) = some t.decl.name := by
  intro t ht
  rw [told_concat_none he] at ht
  rw [← h.constructors t ht]
  cases hinside : t.inside with
  | none => rfl
  | some i => exact nameAt?_concat (inside_lt ht hinside) e

/-- An event that neither begins nor ends a class leaves the names of the open ones. -/
theorem opened_concat (h : NamesOpen es stack) (hbegins : e.beginsClass = false)
    (hends : e.endsClass = false) (n : Nat) :
    stack[n]? = (openBack n (es ++ [e]).reverse).bind (nameAt? (es ++ [e])) := by
  rw [List.reverse_concat, openBack_cons hbegins hends, bind_nameAt?_concat]
  exact h.opened n

theorem silent (h : NamesOpen es stack) (hbegins : e.beginsClass = false)
    (hends : e.endsClass = false) (he : e.constructor? = none) : NamesOpen (es ++ [e]) stack :=
  ⟨h.opened_concat hbegins hends, h.constructors_concat he⟩

theorem beginClass (h : NamesOpen es stack) (c : Written.Class) :
    NamesOpen (es ++ [.beginClass c]) (c.name :: stack) := by
  refine ⟨fun n => ?_, h.constructors_concat rfl⟩
  rw [List.reverse_concat]
  cases n with
  | zero =>
    rw [openBack_beginClass, classesBegun, List.countP_reverse]
    exact (nameAt?_begun es c).symm
  | succ n => exact (h.opened n).trans (bind_nameAt?_concat _).symm

theorem endClass (h : NamesOpen es stack) : NamesOpen (es ++ [.endClass]) stack.tail := by
  refine ⟨fun n => ?_, h.constructors_concat rfl⟩
  rw [List.reverse_concat, openBack_endClass, bind_nameAt?_concat, List.getElem?_tail]
  exact h.opened (n + 1)

theorem constructor (h : NamesOpen es stack) {m : Written.Method} (hm : m.isConstructor)
    (hname : stack.head? = some m.name) : NamesOpen (es ++ [.beginMethod m]) stack := by
  refine ⟨h.opened_concat rfl rfl, fun t ht => ?_⟩
  have hpick : Event.constructor? (.beginMethod m) = some m :=
    Option.filter_eq_some_iff.mpr ⟨rfl, hm⟩
  rw [told_concat_some hpick, List.mem_append, List.mem_singleton] at ht
  rcases ht with ht | rfl
  · have hbefore := h.constructors t ht
    cases hinside : t.inside with
    | none =>
      rw [hinside] at hbefore
      cases hbefore
    | some i =>
      rw [hinside] at hbefore
      exact (nameAt?_concat (inside_lt ht hinside) _).trans hbefore
  · rw [← hname, List.head?_eq_getElem?, h.opened 0]
    exact bind_nameAt?_concat _

end NamesOpen

/-- Each event keeps in step with the names of the open classes. -/
theorem NamesOpen.step (h : NamesOpen es stack) {after : List String}
    (he : e.openNames? stack = some after) : NamesOpen (es ++ [e]) after := by
  cases e with
  | beginClass c =>
    cases he
    exact h.beginClass c
  | endClass =>
    cases he
    exact h.endClass
  | beginMethod m =>
    obtain ⟨hname, rfl⟩ := Event.openNames?_beginMethod.mp he
    by_cases hm : m.isConstructor
    · exact h.constructor hm (hname hm)
    · exact h.silent rfl rfl (by simp [Event.constructor?, Event.method?, hm])
  | _ =>
    cases he
    exact h.silent rfl rfl rfl

theorem namesOpen_of_openNames (h : Event.openNamesAfter? [] es = some stack) :
    NamesOpen es stack := by
  induction es using List.reverseRecOn generalizing stack with
  | nil =>
    cases h
    exact ⟨fun n => by simp [openBack], fun t ht => by simp [told, tellings] at ht⟩
  | append_singleton es e ih =>
    rw [Event.openNamesAfter?_append] at h
    obtain ⟨between, hbetween, he⟩ := Option.bind_eq_some_iff.mp h
    refine (ih hbetween).step ?_
    simpa [Event.openNamesAfter?] using he

/-! ### Classes -/

/-- Every constructor of a class has the name of the class. -/
def Class.NamesConstructors (c : Class) : Prop := ∀ m ∈ c.constructors, m.name = c.name

/-- So it is with the classes of a unit that contains such events. -/
theorem SourceUnit.Contains.namesConstructors {u : SourceUnit} (h : u.Contains es)
    (hnames : NamesOpen es stack) {c : Class} (hc : c ∈ u.classes) : c.NamesConstructors := by
  intro m hm
  obtain ⟨n, hn⟩ := List.mem_iff_getElem?.mp hc
  obtain ⟨head, hhead, hclass⟩ := h.told_class hn
  obtain ⟨t, ht, hmethod⟩ := exists_of_forall₂ (h.members ⟨n⟩ c hn).constructors hm
  obtain ⟨ht, hinside⟩ := List.mem_filter.mp ht
  have hname := hnames.constructors t ht
  rw [of_decide_eq_true hinside, Option.bind_some, nameAt?, hhead] at hname
  calc m.name = t.decl.name := hmethod.holds.name
    _ = head.decl.name := (Option.some.inj hname).symm
    _ = c.name := hclass.holds.name.symm

theorem SourceUnit.error_of_ofText {id : UnitId} {path : FilePath} {text : String} {u : SourceUnit}
    (h : ofText id path text = .ok u) : (parse text).error = none := by
  unfold ofText at h
  dsimp only at h
  split at h
  · cases h
  · assumption

theorem SourceUnit.IsRead.namesConstructors {u : SourceUnit} (h : u.IsRead) {c : Class}
    (hc : c ∈ u.classes) : c.NamesConstructors := by
  obtain ⟨path, text, hread⟩ := h
  have hnames := namesOpen_of_openNames (openNames_parse (SourceUnit.error_of_ofText hread))
  exact (SourceUnit.contains_of_ofText hread).namesConstructors hnames hc

theorem ClassShape.namesConstructors (s : ClassShape) : s.toClass.NamesConstructors := by
  intro m hm
  obtain ⟨ms, -, rfl⟩ := List.mem_map.mp hm
  rfl

theorem Class.namesConstructors_stub (name : String) : (Class.stub name).NamesConstructors :=
  fun _ hm => absurd hm List.not_mem_nil

end JavaModel
