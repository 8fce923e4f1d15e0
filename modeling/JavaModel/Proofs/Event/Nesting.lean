import Mathlib.Data.List.Infix
import JavaModel.Identity
import JavaModel.Proofs.Event.Protocol

/-! Where in a unit the events of a sequence stand. `innermost?` finds the class that encloses what
comes behind events by reading them backwards, and `told` lists declarations with the class around
them and the comment before them, by the events alone. -/

namespace JavaModel

namespace Event

def package? : Event → Option Written.Package
  | package p => some p
  | _ => none

def import? : Event → Option Import
  | imports i => some i
  | _ => none

/-- A constructor that an event begins. -/
def constructor? (e : Event) : Option Written.Method := e.method?.filter (·.isConstructor)

/-- A method that an event begins and that is no constructor. -/
def ordinaryMethod? (e : Event) : Option Written.Method := e.method?.filter (!·.isConstructor)

/-- The event begins a field, a method or a constructor. -/
def beginsMember (e : Event) : Bool := e.field?.isSome || e.method?.isSome

end Event

/-! ### Open classes -/

@[simp] theorem classesBegun_nil : classesBegun [] = 0 := rfl

@[simp] theorem classesEnded_nil : classesEnded [] = 0 := rfl

theorem classesBegun_singleton (e : Event) : classesBegun [e] = if e.beginsClass then 1 else 0 := by
  simp [classesBegun, List.countP_cons]

theorem classesEnded_singleton (e : Event) : classesEnded [e] = if e.endsClass then 1 else 0 := by
  simp [classesEnded, List.countP_cons]

/-- Reads events backwards up to the beginning of the class that is open behind them when `n` open
classes inside it are passed over. A class that has ended is passed over too. Classes are numbered
as they begin. -/
def openBack : Nat → List Event → Option ClassIndex
  | _, [] => none
  | n, e :: before =>
    if e.endsClass then openBack (n + 1) before
    else if e.beginsClass then
      match n with
      | 0 => some ⟨classesBegun before⟩
      | n + 1 => openBack n before
    else openBack n before

/-- The class innermost open behind events. -/
def innermost? (es : List Event) : Option ClassIndex := openBack 0 es.reverse

/-- An event that neither begins nor ends a class leaves the same classes open. -/
theorem openBack_cons {e : Event} (hbegins : e.beginsClass = false) (hends : e.endsClass = false)
    (n : Nat) (before : List Event) : openBack n (e :: before) = openBack n before := by
  simp [openBack, hbegins, hends]

theorem openBack_endClass (n : Nat) (before : List Event) :
    openBack n (.endClass :: before) = openBack (n + 1) before := rfl

theorem openBack_beginClass (c : Written.Class) (before : List Event) :
    openBack 0 (.beginClass c :: before) = some ⟨classesBegun before⟩ := rfl

/-- Read backwards, the events begin `n` classes more than they end, and on the way never more. -/
def OpensBack (n : Nat) (back : List Event) : Prop :=
  classesBegun back = classesEnded back + n ∧
    ∀ last, last <+: back → classesBegun last ≤ classesEnded last + n

theorem opensBack_nil {n : Nat} : OpensBack n [] ↔ n = 0 := by
  simp [OpensBack, eq_comm]

theorem opensBack_cons {n : Nat} {e : Event} {back : List Event} : OpensBack n (e :: back) ↔
    classesBegun [e] ≤ n + classesEnded [e] ∧
      OpensBack (n + classesEnded [e] - classesBegun [e]) back := by
  have hbegun (es : List Event) : classesBegun (e :: es) = classesBegun [e] + classesBegun es :=
    Telling.classesBegun_append [e] es
  have hended (es : List Event) : classesEnded (e :: es) = classesEnded [e] + classesEnded es :=
    Telling.classesEnded_append [e] es
  constructor
  · rintro ⟨htotal, hlast⟩
    have hfirst := hlast [e] ⟨back, rfl⟩
    rw [hbegun, hended] at htotal
    refine ⟨by omega, by omega, fun last hprefix => ?_⟩
    have := hlast (e :: last) ((List.prefix_cons_inj e).mpr hprefix)
    rw [hbegun, hended] at this
    omega
  · rintro ⟨hfirst, htotal, hlast⟩
    refine ⟨by rw [hbegun, hended]; omega, fun last hprefix => ?_⟩
    cases last with
    | nil => simp
    | cons f last =>
      obtain ⟨rfl, hprefix'⟩ := List.cons_prefix_cons.mp hprefix
      have := hlast last hprefix'
      rw [hbegun, hended]
      omega

/-- The class found is the one behind whose beginning the events are balanced. -/
theorem openBack_eq_some_iff {n : Nat} {back : List Event} {i : ClassIndex} :
    openBack n back = some i ↔ ∃ between c before, back = between ++ .beginClass c :: before ∧
      classesBegun before = i.number ∧ OpensBack n between := by
  induction back generalizing n with
  | nil => simp [openBack]
  | cons e back ih =>
    -- Either the first event is the beginning looked for, or it is passed over.
    have hcases : (∃ between c before, e :: back = between ++ .beginClass c :: before ∧
        classesBegun before = i.number ∧ OpensBack n between) ↔
        (n = 0 ∧ e.beginsClass ∧ classesBegun back = i.number) ∨
          (classesBegun [e] ≤ n + classesEnded [e] ∧
            openBack (n + classesEnded [e] - classesBegun [e]) back = some i) := by
      constructor
      · rintro ⟨between, c, before, heq, hnumber, hopens⟩
        cases between with
        | nil =>
          obtain ⟨rfl, rfl⟩ := List.cons.inj heq
          exact .inl ⟨opensBack_nil.mp hopens, rfl, hnumber⟩
        | cons f between =>
          obtain ⟨rfl, rfl⟩ := List.cons.inj heq
          obtain ⟨hfirst, hopens⟩ := opensBack_cons.mp hopens
          exact .inr ⟨hfirst, ih.mpr ⟨between, c, before, rfl, hnumber, hopens⟩⟩
      · rintro (⟨rfl, hbegins, hnumber⟩ | ⟨hfirst, hfound⟩)
        · cases e <;> cases hbegins
          exact ⟨[], _, back, rfl, hnumber, opensBack_nil.mpr rfl⟩
        · obtain ⟨between, c, before, rfl, hnumber, hopens⟩ := ih.mp hfound
          exact ⟨e :: between, c, before, rfl, hnumber, opensBack_cons.mpr ⟨hfirst, hopens⟩⟩
    rw [hcases, classesBegun_singleton, classesEnded_singleton]
    simp only [openBack]
    cases hends : e.endsClass with
    | true =>
      have hbegins : e.beginsClass = false := by cases e <;> first | rfl | cases hends
      simp [hbegins]
    | false =>
      cases hbegins : e.beginsClass with
      | false => simp
      | true =>
        cases n with
        | zero =>
          obtain ⟨number⟩ := i
          simp
        | succ n => simp

/-- A class that is found has begun. -/
theorem openBack_lt {n : Nat} {back : List Event} {i : ClassIndex} (h : openBack n back = some i) :
    i.number < classesBegun back := by
  obtain ⟨between, c, before, rfl, hnumber, _⟩ := openBack_eq_some_iff.mp h
  have hbegun : classesBegun (.beginClass c :: before) = classesBegun before + 1 := by
    rw [← List.singleton_append, Telling.classesBegun_append, classesBegun_singleton, Nat.add_comm]
    rfl
  rw [Telling.classesBegun_append, hbegun]
  omega

/-- The class innermost open is the last one begun behind whose beginning as many classes begin as
end, and at whose ends never more begin than end. -/
theorem innermost?_eq_some_iff {es : List Event} {i : ClassIndex} : innermost? es = some i ↔
    ∃ before c between, es = before ++ .beginClass c :: between ∧ classesBegun before = i.number ∧
      classesBegun between = classesEnded between ∧
      ∀ last, last <:+ between → classesBegun last ≤ classesEnded last := by
  have hbegun (es : List Event) : classesBegun es.reverse = classesBegun es := List.countP_reverse
  have hended (es : List Event) : classesEnded es.reverse = classesEnded es := List.countP_reverse
  rw [innermost?, openBack_eq_some_iff]
  constructor
  · rintro ⟨between, c, before, heq, hnumber, htotal, hlast⟩
    refine ⟨before.reverse, c, between.reverse, ?_, by rwa [hbegun], by rwa [hbegun, hended],
      fun last hsuffix => ?_⟩
    · rw [← List.reverse_reverse es, heq]
      simp
    · have := hlast last.reverse (List.reverse_suffix.mp (by rwa [List.reverse_reverse]))
      rwa [hbegun, hended] at this
  · rintro ⟨before, c, between, rfl, hnumber, htotal, hlast⟩
    refine ⟨between.reverse, c, before.reverse, by simp, by rwa [hbegun], by rwa [hbegun, hended],
      fun last hprefix => ?_⟩
    have := hlast last.reverse (List.reverse_prefix.mp (by rwa [List.reverse_reverse]))
    rwa [hbegun, hended] at this

theorem innermost?_lt {es : List Event} {i : ClassIndex} (h : innermost? es = some i) :
    i.number < classesBegun es := by
  have := openBack_lt h
  rwa [classesBegun, List.countP_reverse] at this

/-! ### Declarations where they stand -/

/-- Each event with the events before it. -/
def tellings (es : List Event) : List (List Event × Event) := es.inits.zip es

theorem tellings_concat (es : List Event) (e : Event) :
    tellings (es ++ [e]) = tellings es ++ [(es, e)] := by
  unfold tellings
  refine List.ext_getElem (by simp) fun n hn _ => ?_
  have hle : n < es.length + 1 := by simpa using hn
  rw [List.getElem_zip, List.getElem_inits]
  rcases Nat.lt_succ_iff_lt_or_eq.mp hle with hlt | rfl
  · rw [List.take_append_of_le_length hlt.le]
    simp [List.getElem_append_left, hlt]
  · simp

/-- The text of a comment that comes last. -/
def commentBehind (es : List Event) : Option String :=
  match es.getLast? with
  | some (.doc text _) => some text
  | _ => none

/-- A declaration with the class around it and the comment before it. -/
structure Told (α : Type) where
  decl : α
  inside : Option ClassIndex
  comment : Option String

variable {α : Type} {pick : Event → Option α} {es : List Event}

/-- The declarations of a kind, in order, where the events tell them. -/
def told (pick : Event → Option α) (es : List Event) : List (Told α) :=
  (tellings es).filterMap fun (before, e) =>
    (pick e).map fun d => ⟨d, innermost? before, commentBehind before⟩

/-- The declarations of a kind that stand directly in a class. -/
def toldIn (i : ClassIndex) (pick : Event → Option α) (es : List Event) : List (Told α) :=
  (told pick es).filter (·.inside = some i)

theorem told_concat (pick : Event → Option α) (es : List Event) (e : Event) :
    told pick (es ++ [e]) = told pick es ++
      ((pick e).map fun d => ⟨d, innermost? es, commentBehind es⟩).toList := by
  simp only [told, tellings_concat, List.filterMap_append, List.filterMap_cons, List.filterMap_nil]
  cases pick e <;> rfl

theorem told_concat_none {e : Event} (h : pick e = none) :
    told pick (es ++ [e]) = told pick es := by
  rw [told_concat, h]
  exact List.append_nil _

theorem told_concat_some {e : Event} {d : α} (h : pick e = some d) : told pick (es ++ [e]) =
    told pick es ++ [⟨d, innermost? es, commentBehind es⟩] := by
  rw [told_concat, h]
  rfl

theorem toldIn_concat_none {e : Event} (h : pick e = none) (i : ClassIndex) :
    toldIn i pick (es ++ [e]) = toldIn i pick es := by
  rw [toldIn, told_concat_none h]
  rfl

/-- A declaration is one more of the class that is innermost open before it. -/
theorem toldIn_concat_inside {e : Event} {d : α} (h : pick e = some d) {i : ClassIndex}
    (hi : innermost? es = some i) : toldIn i pick (es ++ [e]) =
      toldIn i pick es ++ [⟨d, innermost? es, commentBehind es⟩] := by
  rw [toldIn, told_concat_some h, List.filter_append]
  simp [toldIn, hi]

theorem toldIn_concat_outside {e : Event} {i : ClassIndex} (hi : innermost? es ≠ some i) :
    toldIn i pick (es ++ [e]) = toldIn i pick es := by
  rw [toldIn, told_concat, List.filter_append]
  cases pick e <;> simp [toldIn, hi]

/-- No declaration is left out, and none comes twice. -/
theorem map_decl_told (pick : Event → Option α) (es : List Event) :
    (told pick es).map (·.decl) = es.filterMap pick := by
  induction es using List.reverseRecOn with
  | nil => rfl
  | append_singleton es e ih =>
    rw [told_concat, List.map_append, ih, List.filterMap_append]
    cases h : pick e <;> simp [h]

theorem told_eq_nil (h : ∀ e ∈ es, pick e = none) : told pick es = [] := by
  rw [← List.map_eq_nil_iff, map_decl_told]
  exact List.filterMap_eq_nil_iff.mpr h

/-- As many classes are told as begin. -/
theorem length_told_class (es : List Event) : (told Event.class? es).length = classesBegun es := by
  have hbegins : (fun e : Event => e.class?.isSome) = Event.beginsClass := by
    funext e
    cases e <;> rfl
  rw [← List.length_map (f := Told.decl), map_decl_told, List.length_filterMap_eq_countP, hbegins]
  rfl

/-- A class around a declaration began before it. -/
theorem inside_lt {t : Told α} (h : t ∈ told pick es) {i : ClassIndex} (hi : t.inside = some i) :
    i.number < classesBegun es := by
  induction es using List.reverseRecOn with
  | nil => cases h
  | append_singleton es e ih =>
    rw [told_concat, List.mem_append] at h
    rw [Telling.classesBegun_append]
    rcases h with h | h
    · exact Nat.lt_add_right _ (ih h)
    · obtain ⟨d, _, rfl⟩ := Option.map_eq_some_iff.mp (Option.mem_toList.mp h)
      exact Nat.lt_add_right _ (innermost?_lt hi)

/-- A class that has not begun has no declarations yet. -/
theorem toldIn_next {i : ClassIndex} (h : classesBegun es ≤ i.number) : toldIn i pick es = [] := by
  refine List.filter_eq_nil_iff.mpr fun t ht hi => ?_
  have := inside_lt ht (of_decide_eq_true hi)
  omega

end JavaModel
