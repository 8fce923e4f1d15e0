import JavaModel.Proofs.Session.Regular

/-! Sources that cannot be added. A source that fails, at whatever point of it, takes an id at most
and leaves no other trace in the session: whatever is said to the session later, the replies are
those without the failed addition, but for the ids of the units added later. -/

namespace JavaModel

namespace Session

variable {s t : Session}

theorem fixes_shift (first n : Nat) : Fixes (.shift first n) first := by
  intro id hid
  exact if_pos hid

/-- A session is the same when it leaves out ids, which moves the later ones. -/
theorem Regular.alike_later (h : s.Regular) (n : Nat) :
    s.Alike (.shift s.sources.nextId n) True (s.withNext (s.sources.nextId + n)) :=
  h.alike_withNext (fixes_shift _ n) (Renaming.shift_next _ n)

/-! ### One addition -/

theorem addText_malformed {text : String} {e : SyntaxError} (h : (parse text).error = some e)
    (path : FilePath) (s : Session) :
    addText path text s = (.error (.malformed e), s.withNext (s.sources.nextId + 1)) := by
  have hread (id : UnitId) : SourceUnit.ofText id path text = .error (.malformed e) := by
    simp only [SourceUnit.ofText, h]
  rw [addText, bind_apply, hread]
  rfl

/-- A unit that cannot be read only takes its id. -/
theorem state_addRead_error {read : UnitId → Except SourceError SourceUnit} {e : SourceError}
    (h : ((reserveId >>= fun id => insertRead (read id)) s).1 = .error e) :
    ((reserveId >>= fun id => insertRead (read id)) s).2 = s.withNext (s.sources.nextId + 1) := by
  rw [bind_apply] at h ⊢
  cases hread : read (reserveId s).1 with
  | error e => rfl
  | ok u =>
    rw [hread] at h
    cases h

/-- A source that fails takes an id at most. -/
theorem state_addSource_error {x : Source} {e : SourceError} (h : (addSource x s).1 = .error e) :
    ∃ n ≤ 1, (addSource x s).2 = s.withNext (s.sources.nextId + n) := by
  cases x with
  | text path text => exact ⟨1, Nat.le_refl 1, state_addRead_error h⟩
  | reader path given => exact ⟨1, Nat.le_refl 1, state_addRead_error h⟩
  | file path =>
    cases hread : s.tree.read path with
    | error fault =>
      rw [addSource, addFile_unreadable hread]
      exact ⟨0, Nat.zero_le 1, rfl⟩
    | ok text =>
      rw [addSource, addFile_readable hread] at h ⊢
      exact ⟨1, Nat.le_refl 1, state_addRead_error h⟩

/-! ### Dialogues -/

/-- Behind any dialogue, a source that fails changes nothing but the id that comes next, by one at
most, and no later dialogue tells that it was added, but for the ids that come later. -/
theorem failure_unnoticed (options : SessionOptions) (tree : FileTree) (parts : List ChainPart)
    (before : List Turn) (x : Source) (e : SourceError)
    (hfails : (addSource x (converse before (start options tree parts)).2).1 = .error e) :
    let s := (converse before (start options tree parts)).2
    let t := (addSource x s).2
    ∃ n ≤ 1, t = { s with sources := { s.sources with nextId := s.sources.nextId + n } } ∧
      ∀ later : List Turn,
        let ρ := Renaming.shift s.sources.nextId n
        (converse (later.map (Turn.rename ρ)) t).1 =
          (converse later s).1.map (Reply.rename ρ) := by
  intro s t
  have hregular : s.Regular := (regular_start options tree parts).converse before
  obtain ⟨n, hn, hstate⟩ := state_addSource_error hfails
  refine ⟨n, hn, hstate, fun later => ?_⟩
  have halike : s.Alike (.shift s.sources.nextId n) True t := by
    rw [show t = _ from hstate]
    exact hregular.alike_later n
  exact (alike_converse later (fun _ _ _ => trivial) s t halike).1.symm

/-- A text that ends inside a class. -/
def openText : String := "package p; class A \x7b B b; "

theorem addSource_openText (s : Session) :
    (addSource (.text ⟨"A.java"⟩ openText) s).1 = .error (.malformed
      (.grammatical ⟨26, ⟨0, 26⟩, "'\x7d' to close the class body", "end of input"⟩)) := by
  have herror : (parse openText).error =
      some (.grammatical ⟨26, ⟨0, 26⟩, "'\x7d' to close the class body", "end of input"⟩) := by
    decide +kernel
  rw [addSource, addText_malformed herror]

/-- A session with a unit, and a text that fails behind the beginning of a class and a field. -/
theorem failure_unnoticed_openText :
    let before : List Turn := [.add (.text ⟨"B.java"⟩ "package p; class B \x7b\x7d")]
    let s := (converse before (start .standard (.empty ⟨"/"⟩) [.parsedSources])).2
    let t := (addSource (.text ⟨"A.java"⟩ openText) s).2
    (∃ e, (addSource (.text ⟨"A.java"⟩ openText) s).1 = .error e) ∧
      ∃ n ≤ 1, t = { s with sources := { s.sources with nextId := s.sources.nextId + n } } ∧
        ∀ later : List Turn,
          let ρ := Renaming.shift s.sources.nextId n
          (converse (later.map (Turn.rename ρ)) t).1 =
            (converse later s).1.map (Reply.rename ρ) :=
  ⟨⟨_, addSource_openText _⟩, failure_unnoticed .standard (.empty ⟨"/"⟩) [.parsedSources] _ _ _
    (addSource_openText _)⟩

end Session

end JavaModel
