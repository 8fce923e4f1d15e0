import JavaModel.Proofs.Library.Memory

/-! A chain that has forgotten its answers. Where the units of the session are asked before any
source roots, faithful entries answer every question as they do with their memory emptied. -/

namespace JavaModel

/-- The units of the session are asked before all source roots. -/
def ParsedFirst (strategies : List Strategy) : Prop :=
  ∀ pre locators post, strategies = pre ++ .sourceRoots locators :: post → .parsedSources ∈ pre

theorem ParsedFirst.tail {first : Strategy} {rest : List Strategy}
    (h : ParsedFirst (first :: rest)) (hfirst : first ≠ .parsedSources) : ParsedFirst rest := by
  rintro pre locators post rfl
  have hmem := h (first :: pre) locators post rfl
  exact (List.mem_cons.mp hmem).resolve_left (Ne.symm hfirst)

theorem ParsedFirst.not_sourceRoots {locators : List Locator} {rest : List Strategy} :
    ¬ ParsedFirst (.sourceRoots locators :: rest) := fun h => by
  simpa using h [] locators rest rfl

/-- The units of the session are asked before all source roots, or have been asked in vain. -/
def Guarded (sources : SourceSet) (name : String) (es : List ChainEntry) : Prop :=
  ParsedFirst (es.map (·.strategy)) ∨ sources.class? name = none

open ChainEntry

variable {tree : FileTree} {sources : SourceSet} {e : ChainEntry} {es : List ChainEntry}
  {name : String}

theorem Guarded.class?_of_sourceRoots {locators : List Locator}
    (h : Guarded sources name (e :: es)) (hstrategy : e.strategy = .sourceRoots locators) :
    sources.class? name = none := by
  refine h.resolve_left fun hfirst => ?_
  rw [List.map_cons, hstrategy] at hfirst
  exact ParsedFirst.not_sourceRoots hfirst

theorem Guarded.tail (h : Guarded sources name (e :: es)) (hfirst : e.strategy ≠ .parsedSources) :
    Guarded sources name es :=
  h.imp_left fun h => h.tail hfirst

/-- An entry that was asked in vain leaves those behind it guarded. -/
theorem Guarded.ask (h : Guarded sources name (e :: es))
    (hnone : (e.ask tree sources name).1 = none) :
    Guarded (e.ask tree sources name).2.2 name es := by
  cases hstrategy : e.strategy with
  | parsedSources =>
    rw [ask_parsedSources hstrategy] at hnone ⊢
    exact .inr hnone
  | registry r =>
    rw [ask_registry hstrategy]
    exact h.tail (by simp [hstrategy])
  | sourceRoots locators =>
    rw [ask_sourceRoots hstrategy] at hnone ⊢
    exact .inr hnone
  | stub =>
    rw [ask_stub hstrategy]
    exact h.tail (by simp [hstrategy])

namespace ChainEntry

/-- Asking does not depend on what is remembered. -/
theorem ask_forget (e : ChainEntry) (tree : FileTree) (sources : SourceSet) (name : String) :
    (e.forget.ask tree sources name).1 = (e.ask tree sources name).1 ∧
      (e.forget.ask tree sources name).2.2 = (e.ask tree sources name).2.2 := by
  unfold ask forget
  cases e.strategy <;> exact ⟨rfl, rfl⟩

/-- An entry that remembers a class gives it again when it is asked. -/
theorem ask_of_found (he : e.Faithful tree sources) (hguard : Guarded sources name (e :: es))
    {c : Class} (hfound : e.found.find? name = some c) :
    (e.ask tree sources name).1 = some c ∧ (e.ask tree sources name).2.2 = sources := by
  have hfinds := he.found name c hfound
  cases hstrategy : e.strategy with
  | parsedSources =>
    rw [hstrategy] at hfinds
    rw [ask_parsedSources hstrategy]
    exact ⟨hfinds, rfl⟩
  | registry r =>
    rw [hstrategy] at hfinds
    rw [ask_registry hstrategy]
    exact ⟨hfinds, rfl⟩
  | sourceRoots locators =>
    -- The units of the session would have answered before.
    rw [hstrategy] at hfinds
    have hnone := hguard.class?_of_sourceRoots hstrategy
    rw [show sources.class? name = some c from hfinds] at hnone
    cases hnone
  | stub =>
    rw [hstrategy] at hfinds
    obtain ⟨hname, rfl⟩ := hfinds
    rw [ask_stub hstrategy, if_pos hname]
    exact ⟨rfl, rfl⟩

/-- An entry that remembers a miss misses again when it is asked. -/
theorem ask_of_absent (he : e.Faithful tree sources) (hguard : Guarded sources name (e :: es))
    (habsent : name ∈ e.absent) :
    (e.ask tree sources name).1 = none ∧ (e.ask tree sources name).2.2 = sources := by
  have hmisses := he.absent name habsent
  unfold Misses at hmisses
  cases hstrategy : e.strategy with
  | parsedSources =>
    rw [hstrategy] at hmisses
    exact hmisses.elim
  | registry r =>
    rw [hstrategy] at hmisses
    rw [ask_registry hstrategy, show r.find? name = none from hmisses]
    exact ⟨rfl, rfl⟩
  | sourceRoots locators =>
    rw [hstrategy] at hmisses
    have hsearch : e.searched locators tree sources name = ⟨sources, e.attempted⟩ :=
      Loading.search_of_attempted hmisses
    rw [ask_sourceRoots hstrategy, hsearch]
    exact ⟨hguard.class?_of_sourceRoots hstrategy, rfl⟩
  | stub =>
    rw [hstrategy] at hmisses
    rw [ask_stub hstrategy, if_neg hmisses]
    exact ⟨rfl, rfl⟩

end ChainEntry

/-- A question to entries that have forgotten their answers has the answer, and leaves the units, of
the question to entries that remember. -/
theorem consult_forget (hfaithful : ∀ e ∈ es, e.Faithful tree sources) (hvalid : sources.Valid)
    (hguard : Guarded sources name es) (onlyExisting : Bool) (position : Nat) :
    (consult tree onlyExisting name position (es.map forget) sources).answer =
        (consult tree onlyExisting name position es sources).answer ∧
      (consult tree onlyExisting name position (es.map forget) sources).sources =
        (consult tree onlyExisting name position es sources).sources := by
  induction es generalizing sources position with
  | nil => exact ⟨rfl, rfl⟩
  | cons e es ih =>
    obtain ⟨he, hes⟩ := List.forall_mem_cons.mp hfaithful
    rw [List.map_cons]
    by_cases hskips : Skips onlyExisting e
    · -- Only the stub is passed over.
      have hstub : e.strategy ≠ .parsedSources := by
        rintro h
        simp [Skips, h, Strategy.isAuthoritative] at hskips
      rw [consult_skipped hskips, consult_skipped (e := e.forget) hskips]
      exact ih hes hvalid (hguard.tail hstub) (position + 1)
    have hskips' : ¬ Skips onlyExisting e.forget := hskips
    obtain ⟨hanswer, hsources⟩ := ask_forget e tree sources name
    rcases hask : e.forget.ask tree sources name with ⟨answer, e', sources'⟩
    simp only [hask] at hanswer hsources
    cases hremembered : e.remembered name with
    | found c =>
      obtain ⟨hc, hsame⟩ := ask_of_found he hguard (remembered_found hremembered)
      rw [consult_found hskips hremembered]
      obtain rfl : answer = some c := hanswer.trans hc
      rw [consult_answered hskips' (remembered_forget e name) hask]
      exact ⟨rfl, hsources.trans hsame⟩
    | absent =>
      obtain ⟨hnone, hsame⟩ := ask_of_absent he hguard (remembered_absent hremembered)
      have htail := hguard.ask hnone
      rw [consult_absent hskips hremembered]
      obtain rfl : answer = none := hanswer.trans hnone
      rw [consult_missed hskips' (remembered_forget e name) hask]
      obtain rfl : sources' = sources := hsources.trans hsame
      rw [hsame] at htail
      exact ih hes hvalid htail (position + 1)
    | unknown =>
      have hasks := ask_asks e tree sources name
      have hgrown := fun d hd => (hes d hd).mono hasks.grows
      rcases hask' : e.ask tree sources name with ⟨answer', e'', sources''⟩
      simp only [hask'] at hanswer hsources hasks hgrown
      subst hanswer hsources
      cases answer with
      | some c =>
        rw [consult_answered hskips hremembered hask',
          consult_answered hskips' (remembered_forget e name) hask]
        exact ⟨rfl, rfl⟩
      | none =>
        have htail : Guarded (e.ask tree sources name).2.2 name es := hguard.ask (by rw [hask'])
        rw [hask'] at htail
        rw [consult_missed hskips hremembered hask',
          consult_missed hskips' (remembered_forget e name) hask]
        exact ih hgrown (hasks.valid hvalid) htail (position + 1)

end JavaModel
