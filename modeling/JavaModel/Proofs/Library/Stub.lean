import JavaModel.Proofs.Library.Memory

/-! A stub at the end of a chain. The entries in front of it are asked as they are without it, so
that it only adds an answer where there is none, and none at all where only existing classes count.
No other strategy answers with a stub. -/

namespace JavaModel

/-- The class is one that the stub makes up. -/
def Class.IsStub (c : Class) : Prop := ∃ name, c = .stub name

theorem Class.IsStub.isStub {c : Class} (h : c.IsStub) : c.isStub := by
  obtain ⟨_, rfl⟩ := h
  rfl

namespace SourceSet

/-- Every class of every unit carries the id of its unit and its own place. -/
def Placed (s : SourceSet) : Prop := ∀ u ∈ s.units, u.Placed

variable {s : SourceSet}

theorem placed_empty : empty.Placed := fun u hu => by simp [empty] at hu

theorem Placed.insert (h : s.Placed) {u : SourceUnit} (hu : u.Placed) :
    (s.insert u).1.Placed := by
  intro v hv
  rcases List.mem_append.mp hv with hv | hv
  · exact h v hv
  · rw [List.mem_singleton.mp hv]
    exact hu

/-- A unit declares no stub. -/
theorem Placed.class?_not_stub (h : s.Placed) {name : String} {c : Class}
    (hc : s.class? name = some c) : c.isStub = false := by
  obtain ⟨id, u, _, hu, hc⟩ := class?_eq_some_iff.mp hc
  have hplaced : u.Placed := h u (List.mem_of_find?_eq_some hu)
  unfold SourceUnit.class? SourceUnit.classAt? at hc
  obtain ⟨_, hc⟩ := Option.ite_none_right_eq_some.mp hc
  simp [Class.isStub, hplaced _ c hc]

end SourceSet

/-- Only the stub finds stubs. -/
theorem Strategy.Finds.not_stub {strategy : Strategy} {sources : SourceSet} {name : String}
    {c : Class} (h : strategy.Finds sources name c) (hplaced : sources.Placed)
    (hstrategy : strategy.isAuthoritative) : c.isStub = false := by
  cases strategy with
  | parsedSources => exact hplaced.class?_not_stub h
  | registry r =>
    obtain ⟨shape, _, rfl⟩ := Option.map_eq_some_iff.mp h
    rfl
  | sourceRoots locators => exact hplaced.class?_not_stub h
  | stub => cases hstrategy

namespace ChainEntry

variable {tree : FileTree} {sources : SourceSet} {e : ChainEntry} {name : String}

/-- The entry of a stub that remembers nothing but stubs. -/
structure OfStub (e : ChainEntry) : Prop where
  strategy : e.strategy = .stub
  found : ∀ name c, e.found.find? name = some c → c.IsStub

theorem ofStub_fresh : (fresh .stub).OfStub := ⟨rfl, fun name c h => by simp [fresh] at h⟩

theorem OfStub.keep (h : e.OfStub) {answer : Option Class} (hanswer : ∀ c ∈ answer, c.IsStub) :
    (e.keep name answer).OfStub := by
  refine ⟨(strategy_keep e name answer).trans h.strategy, fun n c hc => ?_⟩
  cases answer with
  | none =>
    refine h.found n c ?_
    unfold ChainEntry.keep at hc
    dsimp only at hc
    split at hc <;> exact hc
  | some d =>
    simp only [ChainEntry.keep, Table.find?_record, Option.or_eq_some_iff] at hc
    obtain hc | ⟨_, hc⟩ := hc
    · exact h.found n c hc
    · exact hanswer c (Option.ite_none_right_eq_some.mp hc).2

end ChainEntry

open ChainEntry

variable {tree : FileTree} {sources : SourceSet} {es : List ChainEntry} {e : ChainEntry}
  {name : String} {position : Nat} {onlyExisting : Bool}

theorem placed_consult (h : sources.Placed) (tree : FileTree) (onlyExisting : Bool)
    (name : String) (position : Nat) (es : List ChainEntry) :
    (consult tree onlyExisting name position es sources).sources.Placed :=
  units_consult (fun hread => (SourceUnit.ofText_places hread).2) h tree onlyExisting name position
    es

/-- An answer is a class that an entry of the chain finds. -/
theorem finds_of_consult (hfaithful : ∀ e ∈ es, e.Faithful tree sources) {a : Answer}
    (h : (consult tree onlyExisting name position es sources).answer = some a) :
    ∃ e ∈ es, e.strategy.Finds (consult tree onlyExisting name position es sources).sources name
      a.found := by
  refine consult_induction (motive := fun _ es sources r =>
    (∀ e ∈ es, e.Faithful tree sources) → r.answer = some a →
      ∃ e ∈ es, e.strategy.Finds r.sources name a.found)
    ?nil ?passed ?answered position es sources hfaithful h
  case nil =>
    intro _ _ _ h
    cases h
  case passed =>
    intro _ e es sources e' sources' tally hresponds r ih hfaithful h
    obtain ⟨_, hes⟩ := List.forall_mem_cons.mp hfaithful
    obtain ⟨d, hd, hfinds⟩ := ih (fun d hd => (hes d hd).mono hresponds.grows) h
    exact ⟨d, List.mem_cons_of_mem e hd, hfinds⟩
  case answered =>
    intro _ e es sources c e' sources' tally hresponds hfaithful h
    obtain rfl := Option.some.inj h
    exact ⟨e, List.mem_cons_self .., hresponds.finds (hfaithful e (List.mem_cons_self ..))⟩

/-- The outcomes of one question to a chain and to the chain with a stub behind it. -/
structure StubBehind (onlyExisting : Bool) (r r' : Consulted) : Prop where
  sources : r'.sources = r.sources
  entries : ∃ e : ChainEntry, e.OfStub ∧ r'.entries = r.entries ++ [e]
  answer : r'.answer = r.answer ∨
    onlyExisting = false ∧ r.answer = none ∧ ∃ a, r'.answer = some a ∧ a.found.IsStub

/-- What is put in front of both outcomes makes no difference. -/
theorem StubBehind.cons {r r' : Consulted} (h : StubBehind onlyExisting r r') (e : ChainEntry)
    (tally tally' : Tally) :
    StubBehind onlyExisting { r with entries := e :: r.entries, tally }
      { r' with entries := e :: r'.entries, tally := tally' } := by
  obtain ⟨last, hlast, hentries⟩ := h.entries
  exact ⟨h.sources, ⟨last, hlast, congrArg (e :: ·) hentries⟩, h.answer⟩

/-- A stub that is asked, the entries in front of it having had no answer. -/
theorem stubBehind_nil (h : e.OfStub) (tree : FileTree) (onlyExisting : Bool) (name : String)
    (position : Nat) (sources : SourceSet) :
    StubBehind onlyExisting ⟨none, [], sources, .uncounted⟩
      (consult tree onlyExisting name position [e] sources) := by
  have hmade (name : String) : (Class.stub name).IsStub := ⟨name, rfl⟩
  by_cases hskips : Skips onlyExisting e
  · rw [consult_skipped hskips]
    exact ⟨rfl, ⟨e, h, rfl⟩, .inl rfl⟩
  have hall : onlyExisting = false := by
    simpa [Skips, h.strategy, Strategy.isAuthoritative] using hskips
  cases hremembered : e.remembered name with
  | found c =>
    rw [consult_found hskips hremembered]
    exact ⟨rfl, ⟨e, h, rfl⟩,
      .inr ⟨hall, rfl, _, rfl, h.found name c (remembered_found hremembered)⟩⟩
  | absent =>
    rw [consult_absent hskips hremembered]
    exact ⟨rfl, ⟨e, h, rfl⟩, .inl rfl⟩
  | unknown =>
    have hask : e.ask tree sources name =
        (if Name.isQualified name then some (.stub name) else none, e, sources) :=
      ask_stub h.strategy
    by_cases hname : Name.isQualified name
    · rw [if_pos hname] at hask
      rw [consult_answered hskips hremembered hask]
      exact ⟨rfl, ⟨_, h.keep fun c hc => Option.some.inj hc ▸ hmade name, rfl⟩,
        .inr ⟨hall, rfl, _, rfl, hmade name⟩⟩
    · rw [if_neg hname] at hask
      rw [consult_missed hskips hremembered hask]
      have hkept : (e.keep name none).OfStub := h.keep (by simp)
      exact ⟨rfl, ⟨_, hkept, rfl⟩, .inl rfl⟩

/-- A stub at the end of a chain is asked last, and changes nothing in front of it. -/
theorem consult_stubBehind (h : e.OfStub) (tree : FileTree) (onlyExisting : Bool) (name : String)
    (position : Nat) (es : List ChainEntry) (sources : SourceSet) :
    StubBehind onlyExisting (consult tree onlyExisting name position es sources)
      (consult tree onlyExisting name position (es ++ [e]) sources) := by
  induction es generalizing sources position with
  | nil => exact stubBehind_nil h tree onlyExisting name position sources
  | cons d es ih =>
    rw [List.cons_append]
    obtain ⟨answer, d', sources', hresponds⟩ := exists_responds tree onlyExisting name d sources
    cases answer with
    | none =>
      obtain ⟨_, hfront⟩ := consult_passed hresponds position es
      obtain ⟨_, hall⟩ := consult_passed hresponds position (es ++ [e])
      rw [hfront, hall]
      exact (ih (position + 1) sources').cons d' _ _
    | some c =>
      obtain ⟨_, hfront⟩ := consult_ended hresponds position es
      obtain ⟨_, hall⟩ := consult_ended hresponds position (es ++ [e])
      rw [hfront, hall]
      exact ⟨rfl, ⟨e, h, rfl⟩, .inl rfl⟩

/-! ### Composing a chain -/

def ChainPart.isStub : ChainPart → Bool
  | .stub => true
  | _ => false

/-- The parts of a chain but for stubs. -/
def withoutStubParts (parts : List ChainPart) : List ChainPart :=
  parts.filter fun part => !part.isStub

namespace ChainPlan

theorem hasStub_add (p : ChainPlan) (part : ChainPart) :
    (p.add part).hasStub = (p.hasStub || part.isStub) := by
  unfold add
  split
  case h_3 ls => split <;> simp [ChainPart.isStub]
  all_goals simp [ChainPart.isStub]

theorem hasStub_foldl (p : ChainPlan) (parts : List ChainPart) :
    (parts.foldl add p).hasStub = (p.hasStub || parts.any ChainPart.isStub) := by
  induction parts generalizing p with
  | nil => simp
  | cons part parts ih => rw [List.foldl_cons, ih, hasStub_add, List.any_cons, Bool.or_assoc]

/-- Apart from the stub, a plan takes no notice of one. -/
theorem add_withStub (p : ChainPlan) {part : ChainPart} (h : part.isStub = false)
    (hasStub : Bool) : add { p with hasStub } part = { p.add part with hasStub } := by
  cases part with
  | stub => cases h
  | locators ls =>
    unfold add
    dsimp only
    split <;> rfl
  | parsedSources | registry r | implicitPackages ps => rfl

theorem foldl_withoutStubParts (p : ChainPlan) (hasStub : Bool) (parts : List ChainPart) :
    (withoutStubParts parts).foldl add { p with hasStub } =
      { parts.foldl add p with hasStub } := by
  induction parts generalizing p with
  | nil => rfl
  | cons part parts ih =>
    cases h : part.isStub with
    | true =>
      cases part with
      | stub =>
        rw [show withoutStubParts (.stub :: parts) = withoutStubParts parts from rfl]
        exact ih { p with hasStub := true }
      | _ => cases h
    | false =>
      rw [show withoutStubParts (part :: parts) = part :: withoutStubParts parts by
        simp [withoutStubParts, h], List.foldl_cons, add_withStub p h]
      exact ih (p.add part)

theorem authoritative_add {p : ChainPlan} (h : ∀ x ∈ p.strategies, x.isAuthoritative)
    (part : ChainPart) : ∀ x ∈ (p.add part).strategies, x.isAuthoritative := by
  have hmore {x : Strategy} (hx : x.isAuthoritative) :
      ∀ y ∈ p.strategies ++ [x], y.isAuthoritative := by
    intro y hy
    rcases List.mem_append.mp hy with hy | hy
    · exact h y hy
    · rwa [List.mem_singleton.mp hy]
  cases part with
  | parsedSources => exact hmore rfl
  | registry r => exact hmore rfl
  | locators ls =>
    unfold add
    dsimp only
    split
    · exact h
    · exact hmore rfl
  | stub | implicitPackages ps => exact h

theorem authoritative_foldl {p : ChainPlan} (h : ∀ x ∈ p.strategies, x.isAuthoritative)
    (parts : List ChainPart) : ∀ x ∈ (parts.foldl add p).strategies, x.isAuthoritative := by
  induction parts generalizing p with
  | nil => exact h
  | cons part parts ih => exact ih (authoritative_add h part)

end ChainPlan

end JavaModel
