import Mathlib.Data.List.Forall2
import JavaModel.Proofs.Library.Memory

/-! Names that a chain has been asked for in vain. Behind such a question every entry that was asked
has recorded the miss, apart from those that look among the units of the session. From then on the
name is known just when there is such an entry and a unit declares it, and a question for the name
that fails again changes nothing. -/

namespace JavaModel

namespace ChainEntry

/-- The entry has been asked for the name in vain, if it is one whose answers count as existing. -/
def Exhausted (name : String) (e : ChainEntry) : Prop :=
  e.strategy.isAuthoritative → e.found.find? name = none ∧
    (e.strategy.cachesMisses → name ∈ e.absent)

/-- What an entry remembers when a question has passed it by: the same classes, and no fewer misses.
-/
structure PassedBy (e e' : ChainEntry) : Prop where
  strategy : e'.strategy = e.strategy
  found : e'.found = e.found
  absent : e.absent ⊆ e'.absent

variable {tree : FileTree} {sources sources' : SourceSet} {e e' : ChainEntry} {name other : String}

theorem PassedBy.refl (e : ChainEntry) : e.PassedBy e := ⟨rfl, rfl, List.Subset.refl _⟩

theorem Exhausted.passedBy (h : e.Exhausted other) (hpassed : e.PassedBy e') :
    e'.Exhausted other := by
  intro hauthoritative
  rw [hpassed.strategy] at hauthoritative ⊢
  obtain ⟨hfound, habsent⟩ := h hauthoritative
  exact ⟨hpassed.found ▸ hfound, fun hcaches => hpassed.absent (habsent hcaches)⟩

theorem found_of_remembered_absent (h : e.remembered name = .absent) :
    e.found.find? name = none := by
  unfold remembered at h
  split at h
  · cases h
  · assumption

theorem found_of_remembered_unknown (h : e.remembered name = .unknown) :
    e.found.find? name = none := by
  unfold remembered at h
  split at h
  · cases h
  · assumption

theorem absent_keep_none (e : ChainEntry) (name : String) :
    e.absent ⊆ (e.keep name none).absent := by
  unfold keep
  dsimp only
  split
  · exact List.subset_append_left _ _
  · exact List.Subset.refl _

theorem mem_absent_keep_none (hcaches : e.strategy.cachesMisses) :
    name ∈ (e.keep name none).absent := by
  unfold keep
  dsimp only
  rw [hcaches, Bool.true_and]
  split
  · exact List.mem_append_right _ (List.mem_singleton_self name)
  · simpa using ‹¬ (!e.absent.contains name) = true›

theorem found_keep_none (e : ChainEntry) (name : String) : (e.keep name none).found = e.found := by
  unfold keep
  dsimp only
  split <;> rfl

/-- An exhausted entry does not remember a class, and one whose misses are final remembers the
miss. -/
theorem Exhausted.remembered_of_cachesMisses (h : e.Exhausted name)
    (hauthoritative : e.strategy.isAuthoritative) (hcaches : e.strategy.cachesMisses) :
    e.remembered name = .absent := by
  obtain ⟨hfound, habsent⟩ := h hauthoritative
  unfold remembered
  rw [hfound]
  exact if_pos (List.contains_iff_mem.mpr (habsent hcaches))

theorem Exhausted.remembered_of_parsedSources (h : e.Exhausted name)
    (he : e.Faithful tree sources) (hstrategy : e.strategy = .parsedSources) :
    e.remembered name = .unknown := by
  have hfound : e.found.find? name = none := (h (by rw [hstrategy]; rfl)).1
  have habsent : name ∉ e.absent := by
    intro hmem
    have hmisses := he.absent name hmem
    rw [Misses, hstrategy] at hmisses
    exact hmisses
  unfold remembered
  rw [hfound]
  exact if_neg fun h => habsent (List.contains_iff_mem.mp h)

end ChainEntry

open ChainEntry

variable {tree : FileTree} {sources : SourceSet} {es : List ChainEntry} {name other : String}
  {onlyExisting : Bool} {position : Nat}

/-- An entry that does not answer has forgotten nothing, and has recorded the miss. -/
theorem Responds.passedBy {e e' : ChainEntry} {sources' : SourceSet}
    (h : Responds tree onlyExisting name e sources none e' sources') : e.PassedBy e' := by
  have hasks := ask_asks e tree sources name
  cases h with
  | skipped | absent => exact .refl e
  | asked =>
    refine ⟨(strategy_keep ..).trans hasks.strategy, (found_keep_none ..).trans hasks.found, ?_⟩
    rw [← hasks.absent]
    exact absent_keep_none _ name

theorem Responds.exhausted {e e' : ChainEntry} {sources' : SourceSet}
    (h : Responds tree true name e sources none e' sources') : e'.Exhausted name := by
  cases h with
  | skipped hskips =>
    intro hauthoritative
    simp [Skips, hauthoritative] at hskips
  | absent _ hremembered =>
    exact fun _ => ⟨found_of_remembered_absent hremembered, fun _ => remembered_absent hremembered⟩
  | asked _ hremembered =>
    intro _
    rw [strategy_keep, found_keep_none, (ask_asks e tree sources name).found]
    exact ⟨found_of_remembered_unknown hremembered, mem_absent_keep_none⟩

/-- A question for an existing class that fails passes every entry by and leaves it exhausted. -/
theorem exhausted_of_consult
    (hnone : (consult tree true name position es sources).answer = none) :
    (∀ e ∈ (consult tree true name position es sources).entries, e.Exhausted name) ∧
      List.Forall₂ PassedBy es (consult tree true name position es sources).entries := by
  refine consult_induction (motive := fun _ es _ r => r.answer = none →
    (∀ e ∈ r.entries, e.Exhausted name) ∧ List.Forall₂ PassedBy es r.entries)
    ?nil ?passed ?answered position es sources hnone
  case nil => exact fun _ _ _ => ⟨by simp, .nil⟩
  case passed =>
    intro _ e es sources e' sources' tally hresponds r ih hnone
    obtain ⟨hexhausted, hpassed⟩ := ih hnone
    exact ⟨List.forall_mem_cons.mpr ⟨hresponds.exhausted, hexhausted⟩,
      .cons hresponds.passedBy hpassed⟩
  case answered =>
    intro _ e es sources c e' sources' tally _ hnone
    cases hnone

/-- Names that were asked for in vain before stay so when another question fails. -/
theorem exhausted_of_forall₂ {es' : List ChainEntry} (hpassed : List.Forall₂ PassedBy es es')
    (h : ∀ e ∈ es, e.Exhausted other) : ∀ e ∈ es', e.Exhausted other := by
  induction hpassed with
  | nil => exact h
  | cons he _ ih =>
    obtain ⟨hfirst, hrest⟩ := List.forall_mem_cons.mp h
    exact List.forall_mem_cons.mpr ⟨hfirst.passedBy he, ih hrest⟩

/-- The chain asks the units of the session, and one of them declares the class. -/
def Declares (sources : SourceSet) (es : List ChainEntry) (name : String) : Prop :=
  (∃ e ∈ es, e.strategy = .parsedSources) ∧ (sources.class? name).isSome

/-- A question for a name that was asked for in vain before either finds a class that a unit has
declared since, or fails and changes nothing. -/
theorem consult_of_exhausted (hfaithful : ∀ e ∈ es, e.Faithful tree sources)
    (hexhausted : ∀ e ∈ es, e.Exhausted name) (position : Nat) :
    (Declares sources es name ∧ (consult tree true name position es sources).answer.isSome) ∨
      (¬ Declares sources es name ∧ (consult tree true name position es sources).answer = none ∧
        (consult tree true name position es sources).entries = es ∧
        (consult tree true name position es sources).sources = sources) := by
  induction es generalizing position with
  | nil => exact .inr ⟨by simp [Declares], rfl, rfl, rfl⟩
  | cons e es ih =>
    obtain ⟨he, hes⟩ := List.forall_mem_cons.mp hfaithful
    obtain ⟨hfirst, hrest⟩ := List.forall_mem_cons.mp hexhausted
    have hbehind := ih hes hrest (position + 1)
    have hother : e.strategy ≠ .parsedSources →
        (Declares sources (e :: es) name ↔ Declares sources es name) := by
      intro hne
      simp [Declares, hne]
    by_cases hskips : Skips true e
    · have hne : e.strategy ≠ .parsedSources := by
        rintro h
        simp [Skips, h, Strategy.isAuthoritative] at hskips
      rw [consult_skipped hskips, hother hne]
      exact hbehind.imp_right fun ⟨hnot, hnone, hentries, hsources⟩ =>
        ⟨hnot, hnone, congrArg (e :: ·) hentries, hsources⟩
    have hauthoritative : e.strategy.isAuthoritative := by simpa [Skips] using hskips
    by_cases hparsed : e.strategy = .parsedSources
    · have hremembered := hfirst.remembered_of_parsedSources he hparsed
      cases hclass : sources.class? name with
      | some c =>
        have hask : e.ask tree sources name = (sources.class? name, e, sources) :=
          ask_parsedSources hparsed
        rw [hclass] at hask
        rw [consult_answered hskips hremembered hask]
        exact .inl ⟨⟨⟨e, List.mem_cons_self .., hparsed⟩, by rw [hclass]; rfl⟩, rfl⟩
      | none =>
        have hnot : ∀ es', ¬ Declares sources es' name := by
          rintro es' ⟨_, hsome⟩
          rw [hclass] at hsome
          cases hsome
        have hask : e.ask tree sources name = (sources.class? name, e, sources) :=
          ask_parsedSources hparsed
        rw [hclass] at hask
        have hkeep : e.keep name none = e := by simp [keep, hparsed, Strategy.cachesMisses]
        rw [consult_missed hskips hremembered hask, hkeep]
        obtain ⟨hdeclares, _⟩ | ⟨_, hnone, hentries, hsources⟩ := hbehind
        · exact absurd hdeclares (hnot es)
        · exact .inr ⟨hnot _, hnone, congrArg (e :: ·) hentries, hsources⟩
    · have hcaches : e.strategy.cachesMisses := by
        unfold Strategy.cachesMisses
        split
        · exact absurd ‹_› hparsed
        · rfl
      rw [consult_absent hskips (hfirst.remembered_of_cachesMisses hauthoritative hcaches),
        hother hparsed]
      exact hbehind.imp_right fun ⟨hnot, hnone, hentries, hsources⟩ =>
        ⟨hnot, hnone, congrArg (e :: ·) hentries, hsources⟩

end JavaModel
