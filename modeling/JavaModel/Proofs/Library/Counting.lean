import JavaModel.Proofs.Library.Memory

/-! How a question to a chain counts. It counts unless every entry is passed over, and it counts as
a miss only if some strategy was run for it. -/

namespace JavaModel

open ChainEntry

variable {tree : FileTree} {onlyExisting : Bool} {name : String} {e : ChainEntry}
  {es : List ChainEntry}

/-- A question runs a strategy: that of the first entry which is not passed over and does not
remember the name as absent, if this entry does not remember a class either. -/
def RunsStrategy (onlyExisting : Bool) (name : String) (es : List ChainEntry) : Prop :=
  ∃ front e back, es = front ++ e :: back ∧
    (∀ d ∈ front, Skips onlyExisting d ∨ d.remembered name = .absent) ∧
    ¬ Skips onlyExisting e ∧ e.remembered name = .unknown

theorem runsStrategy_cons (he : Skips onlyExisting e ∨ e.remembered name = .absent)
    (h : RunsStrategy onlyExisting name es) : RunsStrategy onlyExisting name (e :: es) := by
  obtain ⟨front, d, back, rfl, hfront, hd⟩ := h
  exact ⟨e :: front, d, back, rfl, List.forall_mem_cons.mpr ⟨he, hfront⟩, hd⟩

theorem not_skips (h : e.strategy.isAuthoritative) : ¬ Skips onlyExisting e := by
  simp [Skips, h]

namespace Consulted

variable {r : Consulted} {asked : Bool}

/-- An entry in front that answered nothing leaves uncounted only what has an answer behind it. -/
theorem behind_uncounted (h : (r.behind e asked).tally = .uncounted) :
    r.answer.isSome ∧ r.tally = .uncounted := by
  unfold behind at h
  dsimp only at h
  split at h
  · exact ⟨‹_›, h⟩
  · split at h <;> cases h

theorem behind_miss (h : (r.behind e false).tally = .miss) : r.tally = .miss := by
  unfold behind at h
  dsimp only at h
  split at h
  · exact h
  · split at h
    · simpa using ‹(false || decide (r.tally = .miss)) = true›
    · cases h

end Consulted

/-- Every question counts that is put to some entry. -/
theorem consult_uncounted {position : Nat} {sources : SourceSet}
    (h : (consult tree onlyExisting name position es sources).tally = .uncounted) :
    (consult tree onlyExisting name position es sources).answer = none ∧
      ∀ e ∈ es, Skips onlyExisting e := by
  induction es generalizing position sources with
  | nil => exact ⟨rfl, fun _ he => absurd he List.not_mem_nil⟩
  | cons e es ih =>
    -- What is counted behind an entry that misses is counted by it.
    have hbehind {position : Nat} {sources : SourceSet} {e' : ChainEntry} {asked : Bool}
        (h : ((consult tree onlyExisting name position es sources).behind e' asked).tally =
          .uncounted) : False := by
      obtain ⟨hanswer, htally⟩ := Consulted.behind_uncounted h
      rw [(ih htally).1] at hanswer
      cases hanswer
    by_cases hskips : Skips onlyExisting e
    · rw [consult_skipped hskips] at h ⊢
      obtain ⟨hanswer, hall⟩ := ih h
      exact ⟨hanswer, List.forall_mem_cons.mpr ⟨hskips, hall⟩⟩
    cases hremembered : e.remembered name with
    | found c =>
      rw [consult_found hskips hremembered] at h
      cases h
    | absent =>
      rw [consult_absent hskips hremembered] at h
      exact (hbehind h).elim
    | unknown =>
      rcases hask : e.ask tree sources name with ⟨_ | c, e', sources'⟩
      · rw [consult_missed hskips hremembered hask] at h
        exact (hbehind h).elim
      · rw [consult_answered hskips hremembered hask] at h
        cases h

theorem strategies_consult (tree : FileTree) (onlyExisting : Bool) (name : String) (position : Nat)
    (es : List ChainEntry) (sources : SourceSet) :
    (consult tree onlyExisting name position es sources).entries.map (·.strategy) =
      es.map (·.strategy) := by
  refine consult_induction (motive := fun _ es _ r =>
    r.entries.map (·.strategy) = es.map (·.strategy)) ?nil ?passed ?answered position es sources
  case nil => exact fun _ _ => rfl
  case passed =>
    intro _ e es _ e' _ _ hresponds _ ih
    rw [List.map_cons, List.map_cons, hresponds.strategy, ih]
  case answered =>
    intro _ e es _ _ e' _ _ hresponds
    rw [List.map_cons, List.map_cons, hresponds.strategy]

/-- A question for which no strategy is run is answered from memory, and is no miss. -/
theorem consult_unrun (h : ¬ RunsStrategy onlyExisting name es) (position : Nat)
    (sources : SourceSet) :
    let r := consult tree onlyExisting name position es sources
    r.entries = es ∧ r.sources = sources ∧ r.tally ≠ .miss := by
  induction es generalizing position with
  | nil => exact ⟨rfl, rfl, nofun⟩
  | cons e es ih =>
    by_cases hskips : Skips onlyExisting e
    · obtain ⟨hentries, hsources, htally⟩ :=
        ih (fun hrest => h (runsStrategy_cons (.inl hskips) hrest)) (position + 1)
      rw [consult_skipped hskips]
      exact ⟨congrArg (e :: ·) hentries, hsources, htally⟩
    cases hremembered : e.remembered name with
    | found c =>
      rw [consult_found hskips hremembered]
      exact ⟨rfl, rfl, nofun⟩
    | absent =>
      obtain ⟨hentries, hsources, htally⟩ :=
        ih (fun hrest => h (runsStrategy_cons (.inr hremembered) hrest)) (position + 1)
      rw [consult_absent hskips hremembered]
      exact ⟨congrArg (e :: ·) hentries, hsources, fun hmiss =>
        htally (Consulted.behind_miss hmiss)⟩
    | unknown =>
      exact absurd ⟨[], e, es, rfl, fun _ hd => absurd hd List.not_mem_nil, hskips, hremembered⟩ h

end JavaModel
