import JavaModel.Proofs.Library.Memory
import JavaModel.Proofs.SourceSet.Renaming
import Mathlib.Data.List.Forall2

/-! Chains over source sets that are the same but for the ids of their units. A question finds the
same class in both, under its other id where a unit declares it, and leaves the chains and the sets
the same again: no strategy looks at an id. -/

namespace JavaModel

variable {ρ : Renaming} {ordered : Prop}

def Answer.rename (ρ : Renaming) (a : Answer) : Answer := { a with found := a.found.rename ρ }

namespace Loading

variable {l l' : Loading}

/-- Both have tried the same files. -/
structure Alike (ρ : Renaming) (ordered : Prop) (l l' : Loading) : Prop where
  sources : l.sources.Alike ρ ordered l'.sources
  attempted : l'.attempted = l.attempted

theorem Alike.attempt (h : l.Alike ρ ordered l') (tree : FileTree) (locator : Locator)
    (p : FilePath) :
    (l.attempt tree locator p).1.Alike ρ ordered (l'.attempt tree locator p).1 ∧
      (l'.attempt tree locator p).2 = (l.attempt tree locator p).2 := by
  obtain ⟨hsources, hattempted⟩ := h
  obtain ⟨hid, hreserved⟩ := hsources.reserveId
  unfold Loading.attempt
  dsimp only
  rw [hattempted]
  cases locator.read tree p with
  | error fault => exact ⟨⟨hsources, rfl⟩, rfl⟩
  | ok text =>
    dsimp only
    rw [hid, SourceUnit.ofText_rename]
    cases SourceUnit.ofText l.sources.reserveId.1 p text with
    | error e => exact ⟨⟨hreserved, rfl⟩, rfl⟩
    | ok u => exact ⟨⟨(hreserved.insert u).1, rfl⟩, rfl⟩

theorem Alike.search (h : l.Alike ρ ordered l') (tree : FileTree) (name : String)
    (files : List (Locator × FilePath)) :
    (search tree name files l).Alike ρ ordered (search tree name files l') := by
  induction files generalizing l l' with
  | nil => exact h
  | cons f files ih =>
    obtain ⟨locator, p⟩ := f
    obtain ⟨hattempt, hadded⟩ := h.attempt tree locator p
    unfold Loading.search
    rw [h.attempted]
    split
    · exact ih h
    · dsimp only
      rw [hadded, hattempt.sources.contains]
      split
      · exact hattempt
      · exact ih hattempt

end Loading

namespace ChainEntry

variable {e e' : ChainEntry} {sources sources' : SourceSet}

/-- Both remember the same, of classes that units declare under their ids. -/
structure Alike (ρ : Renaming) (e e' : ChainEntry) : Prop where
  strategy : e'.strategy = e.strategy
  found : ∀ name, e'.found.find? name = (e.found.find? name).map (Class.rename ρ)
  absent : e'.absent = e.absent
  attempted : e'.attempted = e.attempted

theorem Alike.refl (e : ChainEntry) : e.Alike (.refl UnitId) e :=
  ⟨rfl, fun name => by simp, rfl, rfl⟩

theorem alike_fresh (strategy : Strategy) : Alike ρ (fresh strategy) (fresh strategy) :=
  ⟨rfl, fun _ => rfl, rfl, rfl⟩

theorem Alike.ask (h : e.Alike ρ e') (hsources : sources.Alike ρ ordered sources')
    (tree : FileTree) (name : String) :
    (e'.ask tree sources' name).1 = (e.ask tree sources name).1.map (Class.rename ρ) ∧
      (e.ask tree sources name).2.1.Alike ρ (e'.ask tree sources' name).2.1 ∧
      (e.ask tree sources name).2.2.Alike ρ ordered (e'.ask tree sources' name).2.2 := by
  cases hstrategy : e.strategy with
  | parsedSources =>
    rw [ask_parsedSources hstrategy, ask_parsedSources (h.strategy.trans hstrategy)]
    exact ⟨hsources.class? name, h, hsources⟩
  | registry r =>
    rw [ask_registry hstrategy, ask_registry (h.strategy.trans hstrategy)]
    refine ⟨?_, h, hsources⟩
    cases r.find? name with
    | none => rfl
    | some shape => exact congrArg some (shape.toClass_rename ρ).symm
  | sourceRoots locators =>
    have hloading : Loading.Alike ρ ordered ⟨sources, e.attempted⟩ ⟨sources', e'.attempted⟩ :=
      ⟨hsources, h.attempted⟩
    have hsearched := hloading.search tree name (Locator.filesFor locators tree name)
    rw [ask_sourceRoots hstrategy, ask_sourceRoots (h.strategy.trans hstrategy)]
    exact ⟨hsearched.sources.class? name, ⟨h.strategy, h.found, h.absent, hsearched.attempted⟩,
      hsearched.sources⟩
  | stub =>
    rw [ask_stub hstrategy, ask_stub (h.strategy.trans hstrategy)]
    refine ⟨?_, h, hsources⟩
    split <;> rfl

theorem Alike.keep (h : e.Alike ρ e') (name : String) (answer : Option Class) :
    (e.keep name answer).Alike ρ (e'.keep name (answer.map (Class.rename ρ))) := by
  cases answer with
  | some c =>
    refine ⟨h.strategy, fun n => ?_, h.absent, h.attempted⟩
    simp only [Option.map_some, ChainEntry.keep, Table.find?_record, h.found]
    cases e.found.find? n with
    | some d => rfl
    | none => by_cases hname : name = n <;> simp [hname]
  | none =>
    simp only [Option.map_none, ChainEntry.keep, h.strategy, h.absent]
    split
    · exact ⟨rfl, h.found, rfl, h.attempted⟩
    · exact h

end ChainEntry

/-! ### A question to a chain -/

open ChainEntry

variable {tree : FileTree} {es es' : List ChainEntry} {sources sources' : SourceSet}

/-- Outcomes that are the same but for ids. -/
structure Consulted.Alike (ρ : Renaming) (ordered : Prop) (r r' : Consulted) : Prop where
  answer : r'.answer = r.answer.map (Answer.rename ρ)
  entries : List.Forall₂ (ChainEntry.Alike ρ) r.entries r'.entries
  sources : r.sources.Alike ρ ordered r'.sources
  tally : r'.tally = r.tally

theorem Consulted.Alike.behind {r r' : Consulted} (h : r.Alike ρ ordered r') {e e' : ChainEntry}
    (he : e.Alike ρ e') (asked : Bool) : (r.behind e asked).Alike ρ ordered (r'.behind e' asked) := by
  refine ⟨h.answer, .cons he h.entries, h.sources, ?_⟩
  simp only [Consulted.behind, h.answer, Option.isSome_map, h.tally]

theorem ChainEntry.Alike.remembered {e e' : ChainEntry} (h : e.Alike ρ e') (name : String) :
    e'.remembered name = match e.remembered name with
      | .found c => .found (c.rename ρ)
      | .absent => .absent
      | .unknown => .unknown := by
  unfold ChainEntry.remembered
  rw [h.found, h.absent]
  cases e.found.find? name with
  | some c => rfl
  | none =>
    dsimp only [Option.map_none]
    split <;> rfl

/-- One question put to chains that are the same but for ids. -/
theorem consult_alike (hentries : List.Forall₂ (ChainEntry.Alike ρ) es es')
    (hsources : sources.Alike ρ ordered sources') (onlyExisting : Bool) (name : String)
    (position : Nat) :
    (consult tree onlyExisting name position es sources).Alike ρ ordered
      (consult tree onlyExisting name position es' sources') := by
  induction hentries generalizing sources sources' position with
  | nil => exact ⟨rfl, .nil, hsources, rfl⟩
  | @cons e e' es es' he hes ih =>
    have hskips' : Skips onlyExisting e' ↔ Skips onlyExisting e := by
      unfold Skips
      rw [he.strategy]
    have hremembered' := he.remembered name
    by_cases hskips : Skips onlyExisting e
    · rw [consult_skipped hskips, consult_skipped (hskips'.mpr hskips)]
      obtain ⟨hanswer, hentries, hsources, htally⟩ := ih hsources (position + 1)
      exact ⟨hanswer, .cons he hentries, hsources, htally⟩
    have hskips' : ¬ Skips onlyExisting e' := fun h => hskips (hskips'.mp h)
    cases hremembered : e.remembered name with
    | found c =>
      rw [hremembered] at hremembered'
      rw [consult_found hskips hremembered, consult_found hskips' hremembered']
      exact ⟨rfl, .cons he hes, hsources, rfl⟩
    | absent =>
      rw [hremembered] at hremembered'
      rw [consult_absent hskips hremembered, consult_absent hskips' hremembered']
      exact (ih hsources (position + 1)).behind he false
    | unknown =>
      rw [hremembered] at hremembered'
      obtain ⟨hanswer, hasked, hgrown⟩ := he.ask hsources tree name
      rcases hask : e.ask tree sources name with ⟨answer, d, sources₁⟩
      rcases hask' : e'.ask tree sources' name with ⟨answer', d', sources₁'⟩
      rw [hask, hask'] at hanswer hasked hgrown
      obtain rfl : answer' = answer.map (Class.rename ρ) := hanswer
      have hkept := hasked.keep name answer
      cases answer with
      | some c =>
        rw [consult_answered hskips hremembered hask, consult_answered hskips' hremembered' hask']
        exact ⟨rfl, .cons hkept hes, hgrown, rfl⟩
      | none =>
        rw [consult_missed hskips hremembered hask, consult_missed hskips' hremembered' hask']
        exact (ih hgrown (position + 1)).behind hkept true

end JavaModel
