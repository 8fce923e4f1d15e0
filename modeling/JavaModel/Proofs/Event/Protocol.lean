import JavaModel.Event

/-! The protocol of events. `WellTold` says what a consumer may rely on: one beginning, at most one
package, then the imports, then the declarations, properly nested, and each documentation comment
just before the declaration that it names. `Telling` follows a sequence of events with the little
that has to be remembered of it, and `wellTold_of_run` reads the protocol off the stages that a
sequence passes through. -/

namespace JavaModel

/-- What the beginning of a method or a constructor answers to as the target of a comment. -/
def Written.Method.target (m : Written.Method) : DocTarget :=
  if m.isConstructor then .onConstructor m.name else .onMethod m.name

/-- The event begins the declaration that a comment names. -/
inductive DocTarget.Begins : DocTarget → Event → Prop
  | package (p : Written.Package) : Begins .onPackage (.package p)
  | class (c : Written.Class) : Begins (.onClass c.name) (.beginClass c)
  | field (f : Written.Field) : Begins (.onField f.name) (.beginField f)
  | method (m : Written.Method) : m.isConstructor = false →
      Begins (.onMethod m.name) (.beginMethod m)
  | constructor (m : Written.Method) : m.isConstructor = true →
      Begins (.onConstructor m.name) (.beginMethod m)

namespace Event

/-- The event begins a class. -/
def beginsClass : Event → Bool
  | beginClass _ => true
  | _ => false

/-- The event ends a class. -/
def endsClass : Event → Bool
  | endClass => true
  | _ => false

end Event

/-- The number of classes begun. -/
def classesBegun (es : List Event) : Nat := es.countP Event.beginsClass

/-- The number of classes ended. -/
def classesEnded (es : List Event) : Nat := es.countP Event.endsClass

/-- The protocol that the events of a source unit keep, told to the end or broken off. -/
structure WellTold (es : List Event) (complete : Bool) : Prop where
  /-- The unit begins, and begins only once. -/
  beginning : ∃ rest, es = .beginSource :: rest ∧ .beginSource ∉ rest
  /-- There is one package at most, and it comes before the imports. -/
  package : ∀ pre p post, es = pre ++ .package p :: post →
    (∀ q, .package q ∉ post) ∧ ∀ i, .imports i ∉ pre
  /-- The imports come before the classes. -/
  imports : ∀ pre i post, es = pre ++ .imports i :: post → ∀ c, .beginClass c ∉ pre
  /-- No class ends that has not begun. -/
  nesting : ∀ pre post, es = pre ++ post → classesEnded pre ≤ classesBegun pre
  /-- A field stands in a class and ends at once. -/
  field : ∀ pre f post, es = pre ++ .beginField f :: post →
    classesEnded pre < classesBegun pre ∧ ∃ rest, post = .endField :: rest
  /-- A method or a constructor stands in a class and ends at once. -/
  method : ∀ pre m post, es = pre ++ .beginMethod m :: post →
    classesEnded pre < classesBegun pre ∧ ∃ rest, post = .endMethod :: rest
  /-- A comment stands just before the declaration that it names, unless the events break off. -/
  doc : ∀ pre text target post, es = pre ++ .doc text target :: post →
    (∃ e rest, post = e :: rest ∧ target.Begins e) ∨ (post = [] ∧ complete = false)
  /-- A unit that is complete has ended all its classes and ends, once. -/
  ending : complete = true →
    classesBegun es = classesEnded es ∧ ∃ pre, es = pre ++ [.endSource] ∧ .endSource ∉ pre
  /-- A unit that breaks off does not end. -/
  brokenOff : complete = false → .endSource ∉ es

/-! ### Stages -/

/-- The parts of a source unit in their order. -/
inductive Phase where
  | unopened | prologue | imports | types | closed
deriving DecidableEq

/-- What the next event has to be. -/
inductive Due where
  | anything
  | declaration (target : DocTarget)
  | endField
  | endMethod
deriving DecidableEq

/-- A declaration may begin: none is due, or this one. -/
def Due.admits (d : Due) (target : DocTarget) : Bool := d = anything || d = declaration target

/-- How far a sequence of events has come: the part of the unit, the number of open classes, and
what is due next. -/
structure Telling where
  phase : Phase
  depth : Nat
  due : Due
deriving DecidableEq

namespace Phase

/-- The place of a part among the others. -/
def rank : Phase → Nat
  | unopened => 0
  | prologue => 1
  | imports => 2
  | types => 3
  | closed => 4

/-- The unit has begun and has not ended. -/
def isOpen (p : Phase) : Prop := 1 ≤ p.rank ∧ p.rank ≤ 3

instance (p : Phase) : Decidable p.isOpen := inferInstanceAs (Decidable (_ ∧ _))

theorem types_isOpen : types.isOpen := by decide

end Phase

/-- The earliest part of a unit that an event leads to. -/
def Event.rank : Event → Nat
  | .beginSource | .doc _ _ => Phase.prologue.rank
  | .package _ | .imports _ => Phase.imports.rank
  | .endSource => Phase.closed.rank
  | _ => Phase.types.rank

namespace Telling

/-- Nothing has been told. -/
def start : Telling := ⟨.unopened, 0, .anything⟩

/-- A unit has begun of which nothing is known. -/
def opened : Telling := ⟨.prologue, 0, .anything⟩

/-- The stage behind one more event of a unit that has begun and has not ended, if the protocol
allows that event. -/
def inside? (s : Telling) : Event → Option Telling
  | .beginSource => none
  | .package _ =>
    if s.phase = .prologue ∧ s.due.admits .onPackage then some ⟨.imports, s.depth, .anything⟩
    else none
  | .imports _ =>
    if s.phase ≠ .types ∧ s.due = .anything then some ⟨.imports, s.depth, .anything⟩ else none
  | .doc _ target => if s.due = .anything then some { s with due := .declaration target } else none
  | .beginClass c =>
    if s.due.admits (.onClass c.name) then some ⟨.types, s.depth + 1, .anything⟩ else none
  | .endClass =>
    if 0 < s.depth ∧ s.due = .anything then some ⟨.types, s.depth - 1, .anything⟩ else none
  | .beginField f =>
    if 0 < s.depth ∧ s.due.admits (.onField f.name) then some ⟨.types, s.depth, .endField⟩ else none
  | .endField => if s.due = .endField then some ⟨.types, s.depth, .anything⟩ else none
  | .beginMethod m =>
    if 0 < s.depth ∧ s.due.admits m.target then some ⟨.types, s.depth, .endMethod⟩ else none
  | .endMethod => if s.due = .endMethod then some ⟨.types, s.depth, .anything⟩ else none
  | .endSource =>
    if s.depth = 0 ∧ s.due = .anything then some ⟨.closed, 0, .anything⟩ else none

/-- The stage behind one more event, if the protocol allows that event. -/
def after? (s : Telling) (e : Event) : Option Telling :=
  if s = start then (match e with | .beginSource => some opened | _ => none)
  else if s.phase.isOpen then s.inside? e
  else none

/-- The stage behind events, if the protocol allows them all. -/
def run (s : Telling) (es : List Event) : Option Telling := es.foldlM after? s

@[simp] theorem run_nil (s : Telling) : s.run [] = some s := rfl

@[simp] theorem run_cons (s : Telling) (e : Event) (es : List Event) :
    s.run (e :: es) = (s.after? e).bind fun t => t.run es := rfl

theorem run_append (s : Telling) (es fs : List Event) :
    s.run (es ++ fs) = (s.run es).bind fun t => t.run fs := by
  induction es generalizing s with
  | nil => rfl
  | cons e es ih =>
    simp only [List.cons_append, run_cons]
    cases s.after? e with
    | none => rfl
    | some t => exact ih t

/-- A sequence that the protocol allows, cut before an event. -/
theorem run_split {s t : Telling} {pre post : List Event} {e : Event}
    (h : s.run (pre ++ e :: post) = some t) :
    ∃ u v, s.run pre = some u ∧ u.after? e = some v ∧ v.run post = some t := by
  rw [run_append, Option.bind_eq_some_iff] at h
  obtain ⟨u, hu, h⟩ := h
  rw [run_cons, Option.bind_eq_some_iff] at h
  obtain ⟨v, hv, h⟩ := h
  exact ⟨u, v, hu, hv, h⟩

/-- One event: either the beginning of the unit, or one of a unit that has begun. -/
theorem after?_cases {s t : Telling} {e : Event} (h : s.after? e = some t) :
    (s = start ∧ e = .beginSource ∧ t = opened) ∨
      (s.phase.isOpen ∧ e ≠ .beginSource ∧ s.inside? e = some t) := by
  unfold after? at h
  split at h
  · split at h
    · exact .inl ⟨‹_›, rfl, by simpa using h.symm⟩
    · cases h
  · split at h
    · refine .inr ⟨‹_›, ?_, h⟩
      rintro rfl
      cases h
    · cases h

/-- An event inside a unit leads on in the order of the parts, and only the end of the unit closes
it. -/
theorem inside?_rank {s t : Telling} {e : Event} (h : s.inside? e = some t)
    (hs : s.phase.isOpen) :
    s.phase.rank ≤ t.phase.rank ∧ e.rank ≤ t.phase.rank ∧ (t.phase = .closed → e = .endSource) := by
  obtain ⟨phase, depth, due⟩ := s
  cases e <;> simp only [inside?] at h <;> try split at h
  all_goals cases h
  all_goals cases phase <;> simp_all [Phase.isOpen, Phase.rank, Event.rank]

/-- An event inside a unit moves the depth as classes begin and end. -/
theorem inside?_depth {s t : Telling} {e : Event} (h : s.inside? e = some t) :
    s.depth + classesBegun [e] = t.depth + classesEnded [e] := by
  cases e <;> simp only [inside?] at h <;> try split at h
  all_goals cases h
  all_goals simp [classesBegun, classesEnded, Event.beginsClass, Event.endsClass]
  all_goals omega

theorem classesBegun_append (es fs : List Event) :
    classesBegun (es ++ fs) = classesBegun es + classesBegun fs := List.countP_append

theorem classesEnded_append (es fs : List Event) :
    classesEnded (es ++ fs) = classesEnded es + classesEnded fs := List.countP_append

/-- What a stage remembers of the events behind it. -/
structure Recalls (s : Telling) (es : List Event) : Prop where
  depth : classesBegun es = classesEnded es + s.depth
  rank : ∀ e ∈ es, e.rank ≤ s.phase.rank
  begun : (s = start ∧ es = []) ∨
    (1 ≤ s.phase.rank ∧ ∃ rest, es = .beginSource :: rest ∧ .beginSource ∉ rest)
  closed : s.phase = .closed → ∃ pre, es = pre ++ [.endSource] ∧ .endSource ∉ pre

theorem Recalls.step {s t : Telling} {es : List Event} {e : Event} (h : s.Recalls es)
    (he : s.after? e = some t) : t.Recalls (es ++ [e]) := by
  rcases after?_cases he with ⟨rfl, rfl, rfl⟩ | ⟨hopen, hne, hin⟩
  · -- A unit that begins has nothing behind it.
    obtain ⟨_, rfl⟩ | ⟨hrank, _⟩ := h.begun
    · exact ⟨rfl, by simp [Event.rank, opened], .inr ⟨by decide, [], rfl, by simp⟩,
        by simp [opened]⟩
    · simp [start, Phase.rank] at hrank
  · obtain ⟨hle, hrank, hclose⟩ := inside?_rank hin hopen
    refine ⟨?_, ?_, ?_, ?_⟩
    · have := inside?_depth hin
      have := h.depth
      rw [classesBegun_append, classesEnded_append]
      omega
    · intro f hf
      rcases List.mem_append.mp hf with hf | hf
      · exact Nat.le_trans (h.rank f hf) hle
      · simp only [List.mem_singleton] at hf
        exact hf ▸ hrank
    · obtain ⟨rfl, _⟩ | ⟨hbegun, rest, rfl, hrest⟩ := h.begun
      · exact absurd hopen.1 (by decide)
      · exact .inr ⟨Nat.le_trans hbegun hle, rest ++ [e], rfl, by simp [hrest, Ne.symm hne]⟩
    · intro hc
      rw [hclose hc]
      refine ⟨es, rfl, fun hmem => ?_⟩
      -- The end of a unit would have closed it before.
      have h4 : 4 ≤ s.phase.rank := h.rank _ hmem
      have := hopen.2
      omega

/-- The stage behind a run recalls the events of the run. -/
theorem recalls_of_run {s t : Telling} {pre es : List Event} (h : s.Recalls pre)
    (hrun : s.run es = some t) : t.Recalls (pre ++ es) := by
  induction es generalizing s pre with
  | nil =>
    obtain rfl : s = t := by simpa using hrun
    simpa using h
  | cons e es ih =>
    rw [run_cons, Option.bind_eq_some_iff] at hrun
    obtain ⟨u, hu, hrun⟩ := hrun
    simpa using ih (h.step hu) hrun

theorem recalls_start : start.Recalls [] :=
  ⟨rfl, by simp, .inl ⟨rfl, rfl⟩, by simp [start]⟩

end Telling

/-! ### The protocol read off the stages -/

open Telling

/-- A stage at which a reading that stops may leave its events: a unit has begun and not ended, and
at most a comment waits for its declaration. -/
def Telling.Interrupted (s : Telling) : Prop :=
  s.phase.isOpen ∧ (s.due = .anything ∨ ∃ target, s.due = .declaration target)

/-- The stage behind a unit told to the end. -/
def Telling.finished : Telling := ⟨.closed, 0, .anything⟩

variable {es : List Event} {t : Telling}

/-- An event inside a unit that stands somewhere in a run. -/
theorem inside_of_run {pre post : List Event} {e : Event}
    (h : start.run (pre ++ e :: post) = some t) (he : e ≠ .beginSource) :
    ∃ s u : Telling, s.Recalls pre ∧ s.phase.isOpen ∧ s.inside? e = some u ∧
      u.run post = some t := by
  obtain ⟨s, u, hpre, hse, hpost⟩ := run_split h
  obtain ⟨_, rfl, _⟩ | ⟨hopen, _, hin⟩ := after?_cases hse
  · exact absurd rfl he
  · exact ⟨s, u, recalls_of_run recalls_start hpre, hopen, hin, hpost⟩

/-- The next event of a run from a stage inside a unit. -/
theorem run_next {s : Telling} (hs : s.phase.isOpen) (h : s.run es = some t) :
    (es = [] ∧ t = s) ∨ ∃ e rest, es = e :: rest ∧ (s.inside? e).isSome := by
  cases es with
  | nil => exact .inl ⟨rfl, by simpa using h.symm⟩
  | cons e rest =>
    rw [run_cons, Option.bind_eq_some_iff] at h
    obtain ⟨u, hu, _⟩ := h
    obtain ⟨rfl, _⟩ | ⟨_, _, hin⟩ := after?_cases hu
    · exact absurd hs.1 (by decide)
    · exact .inr ⟨e, rest, rfl, by rw [hin]; rfl⟩

/-- A package stands in the prologue. -/
theorem prologue_of_package {s u : Telling} {p : Written.Package}
    (h : s.inside? (.package p) = some u) : s.phase.rank ≤ 1 := by
  simp only [inside?] at h
  split at h
  · rename_i hp
    rw [hp.1]
    decide
  · cases h

theorem package_of_run {pre post : List Event} {p : Written.Package}
    (h : start.run (pre ++ .package p :: post) = some t) :
    (∀ q, .package q ∉ post) ∧ ∀ i, .imports i ∉ pre := by
  obtain ⟨s, u, hs, _, hin, _⟩ := inside_of_run h (by simp)
  have hp := prologue_of_package hin
  refine ⟨fun q hq => ?_, fun i hi => ?_⟩
  · obtain ⟨mid, post, rfl⟩ := List.append_of_mem hq
    have h' : start.run ((pre ++ .package p :: mid) ++ .package q :: post) = some t := by
      simpa using h
    obtain ⟨s, u, hs, _, hin, _⟩ := inside_of_run h' (by simp)
    have h2 : 2 ≤ s.phase.rank := hs.rank (.package p) (by simp)
    have := prologue_of_package hin
    omega
  · have h2 : 2 ≤ s.phase.rank := hs.rank _ hi
    omega

theorem imports_of_run {pre post : List Event} {i : Import}
    (h : start.run (pre ++ .imports i :: post) = some t) (c : Written.Class) :
    .beginClass c ∉ pre := by
  intro hc
  obtain ⟨⟨phase, depth, due⟩, u, hs, hopen, hin, _⟩ := inside_of_run h (by simp)
  have h3 : 3 ≤ phase.rank := hs.rank _ hc
  simp only [inside?] at hin
  split at hin
  · cases phase <;> simp_all [Phase.isOpen, Phase.rank]
  · cases hin

theorem nesting_of_run {pre post : List Event} (h : start.run (pre ++ post) = some t) :
    classesEnded pre ≤ classesBegun pre := by
  rw [run_append, Option.bind_eq_some_iff] at h
  obtain ⟨s, hs, _⟩ := h
  have := (recalls_of_run recalls_start hs).depth
  simp only [List.nil_append] at this
  omega

theorem eq_endField {s : Telling} {e : Event} (hs : s.due = .endField)
    (h : (s.inside? e).isSome) : e = .endField := by
  cases e <;> simp_all [inside?, Due.admits]

theorem eq_endMethod {s : Telling} {e : Event} (hs : s.due = .endMethod)
    (h : (s.inside? e).isSome) : e = .endMethod := by
  cases e <;> simp_all [inside?, Due.admits]

/-- Where a declaration is due, the next event begins it. -/
theorem begins_of_due {s : Telling} {e : Event} {target : DocTarget}
    (hs : s.due = .declaration target) (h : (s.inside? e).isSome) : target.Begins e := by
  cases e <;> simp only [inside?, hs, Due.admits] at h <;> simp at h
  case package => exact h.2 ▸ .package _
  case beginClass c => exact h ▸ .class c
  case beginField f => exact h.2 ▸ .field f
  case beginMethod m =>
    rw [h.2]
    unfold Written.Method.target
    split
    · exact .constructor m ‹_›
    · exact .method m (by simpa using ‹¬m.isConstructor = true›)

theorem field_of_run {pre post : List Event} {f : Written.Field} (ht : t.due ≠ .endField)
    (h : start.run (pre ++ .beginField f :: post) = some t) :
    classesEnded pre < classesBegun pre ∧ ∃ rest, post = .endField :: rest := by
  obtain ⟨s, u, hs, _, hin, hpost⟩ := inside_of_run h (by simp)
  simp only [inside?] at hin
  split at hin <;> cases hin
  rename_i hf
  refine ⟨by have := hs.depth; omega, ?_⟩
  obtain ⟨_, rfl⟩ | ⟨e, rest, rfl, he⟩ := run_next Phase.types_isOpen hpost
  · exact absurd rfl ht
  · exact ⟨rest, by rw [eq_endField rfl he]⟩

theorem method_of_run {pre post : List Event} {m : Written.Method} (ht : t.due ≠ .endMethod)
    (h : start.run (pre ++ .beginMethod m :: post) = some t) :
    classesEnded pre < classesBegun pre ∧ ∃ rest, post = .endMethod :: rest := by
  obtain ⟨s, u, hs, _, hin, hpost⟩ := inside_of_run h (by simp)
  simp only [inside?] at hin
  split at hin <;> cases hin
  rename_i hm
  refine ⟨by have := hs.depth; omega, ?_⟩
  obtain ⟨_, rfl⟩ | ⟨e, rest, rfl, he⟩ := run_next Phase.types_isOpen hpost
  · exact absurd rfl ht
  · exact ⟨rest, by rw [eq_endMethod rfl he]⟩

theorem doc_of_run {pre post : List Event} {text : String} {target : DocTarget}
    (h : start.run (pre ++ .doc text target :: post) = some t) :
    (∃ e rest, post = e :: rest ∧ target.Begins e) ∨
      (post = [] ∧ t.due = .declaration target) := by
  obtain ⟨s, u, hs, hopen, hin, hpost⟩ := inside_of_run h (by simp)
  simp only [inside?] at hin
  split at hin <;> cases hin
  have hdue : (Telling.mk s.phase s.depth (.declaration target)).phase.isOpen := hopen
  obtain ⟨rfl, rfl⟩ | ⟨e, rest, rfl, he⟩ := run_next hdue hpost
  · exact .inr ⟨rfl, rfl⟩
  · exact .inl ⟨e, rest, rfl, begins_of_due rfl he⟩

/-- Events that the stages allow are told by the protocol, to the end if the unit is finished and
broken off if it is interrupted. -/
theorem wellTold_of_run {complete : Bool} (h : start.run es = some t)
    (hdone : complete = true → t = finished) (hbroken : complete = false → t.Interrupted) :
    WellTold es complete := by
  have hend : t.Recalls es := by simpa using recalls_of_run recalls_start h
  have hdue : t.due ≠ .endField ∧ t.due ≠ .endMethod ∧ t ≠ start := by
    cases complete with
    | true => rw [hdone rfl]; decide
    | false =>
      obtain ⟨hopen, hdue⟩ := hbroken rfl
      refine ⟨?_, ?_, ?_⟩
      · rintro he; simp [he] at hdue
      · rintro he; simp [he] at hdue
      · rintro rfl; exact absurd hopen (by decide)
  refine ⟨?_, ?_, ?_, ?_, ?_, ?_, ?_, ?_, ?_⟩
  · obtain ⟨rfl, _⟩ | ⟨_, hes⟩ := hend.begun
    · exact absurd rfl hdue.2.2
    · exact hes
  · rintro pre p post rfl
    exact package_of_run h
  · rintro pre i post rfl c
    exact imports_of_run h c
  · rintro pre post rfl
    exact nesting_of_run h
  · rintro pre f post rfl
    exact field_of_run hdue.1 h
  · rintro pre m post rfl
    exact method_of_run hdue.2.1 h
  · rintro pre text target post rfl
    refine (doc_of_run h).imp_right fun ⟨hnil, ht⟩ => ⟨hnil, ?_⟩
    cases complete with
    | true => rw [hdone rfl] at ht; cases ht
    | false => rfl
  · intro hc
    obtain rfl := hdone hc
    exact ⟨by simpa [finished] using hend.depth, hend.closed rfl⟩
  · intro hc hmem
    have h4 : 4 ≤ t.phase.rank := hend.rank .endSource hmem
    have := (hbroken hc).1.2
    omega

end JavaModel
