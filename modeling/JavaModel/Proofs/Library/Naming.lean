import JavaModel.Proofs.Library.Stub
import JavaModel.Proofs.Model.Renaming
import JavaModel.Proofs.SourceSet.Filling

/-! Which class answers a question for a name. Questions fill a source set step by step, so that it
stays indexed and leads from a name to a class of this name. A chain that ends in a stub answers as
the entries in front of the stub do, and makes up a class for a valid name that they do not answer.
-/

namespace JavaModel

/-! ### Filling a source set -/

/-- Steps lead from `s` to `t`, whatever ids have been handed out before. -/
def SourceSet.Reaches (s t : SourceSet) : Prop :=
  ∀ unused, ∃ unused', Relation.ReflTransGen Filling.Step ⟨s, unused⟩ ⟨t, unused'⟩

/-- Steps lead to the source set from nothing. -/
def SourceSet.IsFilled (s : SourceSet) : Prop :=
  ∃ unused, Relation.ReflTransGen Filling.Step .empty ⟨s, unused⟩

namespace SourceSet

variable {s t : SourceSet}

theorem Reaches.refl (s : SourceSet) : s.Reaches s := fun unused => ⟨unused, .refl⟩

theorem Reaches.trans {r : SourceSet} (h : r.Reaches s) (h' : s.Reaches t) : r.Reaches t := by
  intro unused
  obtain ⟨unused', hfirst⟩ := h unused
  obtain ⟨unused'', hrest⟩ := h' unused'
  exact ⟨unused'', hfirst.trans hrest⟩

theorem isFilled_empty : empty.IsFilled := ⟨[], .refl⟩

theorem IsFilled.reaches (h : s.IsFilled) (hreaches : s.Reaches t) : t.IsFilled := by
  obtain ⟨unused, hs⟩ := h
  obtain ⟨unused', ht⟩ := hreaches unused
  exact ⟨unused', hs.trans ht⟩

theorem IsFilled.indexed (h : s.IsFilled) : s.Indexed := by
  obtain ⟨unused, hs⟩ := h
  exact (Filling.fair_empty.reach hs).consistent.indexed

/-- The class of a name has this name, and is a class of a unit. -/
theorem IsFilled.class?_spec (h : s.IsFilled) {name : String} {c : Class}
    (hc : s.class? name = some c) : c.fullName = name ∧ c ∈ s.declared := by
  rw [h.indexed.class?] at hc
  obtain ⟨hmem, hname⟩ := mem_of_first? hc
  exact ⟨hname, hmem⟩

theorem reaches_reserveId (s : SourceSet) : s.Reaches s.reserveId.2 :=
  fun _ => ⟨_, .single .reserve⟩

/-- A unit is read under the next id and added. -/
theorem reaches_insert_next {u : SourceUnit} (hid : u.id = s.reserveId.1) (hread : u.IsRead) :
    s.Reaches (s.reserveId.2.insert u).1 := by
  intro unused
  have hawaits : (Filling.reserve ⟨s, unused⟩).Awaits u :=
    ⟨hid ▸ List.mem_cons_self .., hread⟩
  exact ⟨_, (Relation.ReflTransGen.single .reserve).tail (.insert u hawaits)⟩

end SourceSet

open SourceSet

namespace Loading

theorem reaches_attempt (l : Loading) (tree : FileTree) (locator : Locator) (p : FilePath) :
    l.sources.Reaches (l.attempt tree locator p).1.sources := by
  unfold attempt
  dsimp only
  split
  · exact .refl _
  · split
    · exact reaches_reserveId _
    · rename_i unit hunit
      exact reaches_insert_next (SourceUnit.ofText_places hunit).1 (SourceUnit.isRead_ofText hunit)

theorem reaches_search (tree : FileTree) (name : String) (files : List (Locator × FilePath))
    (l : Loading) : l.sources.Reaches (search tree name files l).sources := by
  induction files generalizing l with
  | nil => exact .refl _
  | cons f files ih =>
    obtain ⟨locator, p⟩ := f
    unfold search
    split
    · exact ih l
    · have hattempt := reaches_attempt l tree locator p
      dsimp only
      split
      · exact hattempt
      · exact hattempt.trans (ih _)

end Loading

open ChainEntry

variable {tree : FileTree} {sources : SourceSet} {e : ChainEntry} {es : List ChainEntry}
  {name : String} {position : Nat} {onlyExisting : Bool}

theorem ChainEntry.reaches_ask (e : ChainEntry) (tree : FileTree) (sources : SourceSet)
    (name : String) : sources.Reaches (e.ask tree sources name).2.2 := by
  cases h : e.strategy with
  | parsedSources => rw [ask_parsedSources h]; exact .refl _
  | registry r => rw [ask_registry h]; exact .refl _
  | sourceRoots locators =>
    rw [ask_sourceRoots h]
    exact Loading.reaches_search tree name (Locator.filesFor locators tree name)
      ⟨sources, e.attempted⟩
  | stub => rw [ask_stub h]; exact .refl _

theorem reaches_consult (tree : FileTree) (onlyExisting : Bool) (name : String) (position : Nat)
    (es : List ChainEntry) (sources : SourceSet) :
    sources.Reaches (consult tree onlyExisting name position es sources).sources :=
  consult_sources .refl .trans (fun e sources => e.reaches_ask tree sources name) onlyExisting
    position es sources

/-! ### Names of answers -/

/-- Whatever a strategy finds under a name has this name. -/
theorem Strategy.Finds.fullName_eq {strategy : Strategy} {c : Class}
    (h : strategy.Finds sources name c) (hfilled : sources.IsFilled) : c.fullName = name := by
  cases strategy with
  | parsedSources | sourceRoots locators => exact (hfilled.class?_spec h).1
  | registry r =>
    obtain ⟨shape, hshape, rfl⟩ := Option.map_eq_some_iff.mp h
    exact r.named name shape hshape
  | stub =>
    obtain ⟨_, rfl⟩ := h
    rfl

/-- An answer has the name that was asked for. -/
theorem fullName_of_consult (hfaithful : ∀ e ∈ es, e.Faithful tree sources)
    (hfilled : sources.IsFilled) {a : Answer}
    (h : (consult tree onlyExisting name position es sources).answer = some a) :
    a.found.fullName = name := by
  obtain ⟨e, _, hfinds⟩ := finds_of_consult hfaithful h
  exact hfinds.fullName_eq (hfilled.reaches
    (reaches_consult tree onlyExisting name position es sources))

/-! ### Chains end to end -/

/-- What is behind in a chain answers what is in front does not. -/
theorem answer_append (tree : FileTree) (onlyExisting : Bool) (name : String) (position : Nat)
    (es ds : List ChainEntry) (sources : SourceSet) :
    (consult tree onlyExisting name position (es ++ ds) sources).answer =
      (consult tree onlyExisting name position es sources).answer.or
        (consult tree onlyExisting name (position + es.length) ds
          (consult tree onlyExisting name position es sources).sources).answer := by
  induction es generalizing sources position with
  | nil => rfl
  | cons e es ih =>
    have hlast : position + (e :: es).length = position + 1 + es.length := by
      rw [List.length_cons]
      omega
    rw [List.cons_append, hlast]
    obtain ⟨answer, e', sources', h⟩ := exists_responds tree onlyExisting name e sources
    cases answer with
    | none =>
      obtain ⟨_, hfront⟩ := consult_passed h position es
      obtain ⟨_, hall⟩ := consult_passed h position (es ++ ds)
      rw [hfront, hall]
      exact ih (position + 1) sources'
    | some c =>
      obtain ⟨_, hfront⟩ := consult_ended h position es
      obtain ⟨_, hall⟩ := consult_ended h position (es ++ ds)
      rw [hfront, hall]
      rfl

/-- Where all strategies are authoritative, only existing classes are found anyway. -/
theorem consult_authoritative (h : ∀ e ∈ es, e.strategy.isAuthoritative) (tree : FileTree)
    (name : String) (position : Nat) (sources : SourceSet) :
    consult tree true name position es sources = consult tree false name position es sources := by
  induction es generalizing sources position with
  | nil => rfl
  | cons e es ih =>
    obtain ⟨he, hes⟩ := List.forall_mem_cons.mp h
    have hasked (onlyExisting : Bool) : ¬ Skips onlyExisting e := by
      simp [Skips, he]
    cases hremembered : e.remembered name with
    | found c =>
      rw [consult_found (hasked true) hremembered, consult_found (hasked false) hremembered]
    | absent =>
      rw [consult_absent (hasked true) hremembered, consult_absent (hasked false) hremembered,
        ih hes]
    | unknown =>
      rcases hask : e.ask tree sources name with ⟨_ | c, e', sources'⟩
      · rw [consult_missed (hasked true) hremembered hask,
          consult_missed (hasked false) hremembered hask, ih hes]
      · rw [consult_answered (hasked true) hremembered hask,
          consult_answered (hasked false) hremembered hask]

/-- A stub by itself answers valid names, but says of no class that it exists. -/
theorem answer_stub (hstrategy : e.strategy = .stub) (he : e.Faithful tree sources)
    (name : String) (position : Nat) :
    (consult tree true name position [e] sources).answer = none ∧
      (consult tree false name position [e] sources).answer =
        if Name.isQualified name then some ⟨position, .stub name⟩ else none := by
  have hskips : Skips true e := by
    simp [Skips, hstrategy, Strategy.isAuthoritative]
  have hasked : ¬ Skips false e := by
    simp [Skips]
  refine ⟨by rw [consult_skipped hskips]; rfl, ?_⟩
  cases hremembered : e.remembered name with
  | found c =>
    have hfinds := he.found name c (remembered_found hremembered)
    rw [hstrategy] at hfinds
    obtain ⟨hname, rfl⟩ := hfinds
    rw [consult_found hasked hremembered, if_pos hname]
  | absent =>
    have hmisses := he.absent name (remembered_absent hremembered)
    unfold Misses at hmisses
    rw [hstrategy] at hmisses
    rw [consult_absent hasked hremembered, if_neg hmisses]
    rfl
  | unknown =>
    have hask : e.ask tree sources name =
        (if Name.isQualified name then some (.stub name) else none, e, sources) :=
      ask_stub hstrategy
    by_cases hname : Name.isQualified name
    · rw [if_pos hname] at hask
      rw [consult_answered hasked hremembered hask, if_pos hname]
    · rw [if_neg hname] at hask
      rw [consult_missed hasked hremembered hask, if_neg hname]
      rfl

/-- Behind authoritative strategies a stub answers the valid names that they do not, and adds to no
answer that counts existing classes only. -/
theorem answer_stubBehind (hauthoritative : ∀ e ∈ es, e.strategy.isAuthoritative)
    (hstrategy : e.strategy = .stub) (he : e.Faithful tree sources) (name : String) :
    (consult tree true name 0 (es ++ [e]) sources).answer =
        (consult tree false name 0 es sources).answer ∧
      (consult tree false name 0 (es ++ [e]) sources).answer =
        (consult tree false name 0 es sources).answer.or
          (if Name.isQualified name then some ⟨es.length, .stub name⟩ else none) := by
  have hlater := he.mono (grows_consult tree false name 0 es sources)
  obtain ⟨hexisting, hany⟩ := answer_stub hstrategy hlater name (0 + es.length)
  rw [answer_append, answer_append, consult_authoritative hauthoritative, hexisting, hany,
    Option.or_none, Nat.zero_add]
  exact ⟨rfl, rfl⟩

end JavaModel
