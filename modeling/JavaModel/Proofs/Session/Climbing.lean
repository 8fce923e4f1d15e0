import Mathlib.Data.Finset.Basic
import Mathlib.Data.Finset.Card
import JavaModel.Proofs.Library.Discovery
import JavaModel.Proofs.Library.Stock
import JavaModel.Proofs.Session.Discovery
import JavaModel.Proofs.Session.Later

/-! Walking upwards ends, if the registries know finitely many classes. Each class found is seen once,
and unless it is made up it goes by a name that the units, the registries and the files have that the
library has when the walk begins, even where source roots read further files on the way. Nothing is
above a class that is made up. -/

namespace JavaModel.Session

variable {s t : Session} {a : Answer} {c : Class} {seen all : List String}
  {queue as found : List Answer}

/-! ### All classes that can be found -/

/-- The registries of the session are finite. -/
def IsFinite (s : Session) : Prop := ∀ e ∈ s.entries, e.strategy.IsFinite

/-- Whatever `t` has or can read declares classes of names that are listed. -/
structure Stocked (all : List String) (t : Session) : Prop where
  sources : t.sources.Stocked all
  entries : ∀ e ∈ t.entries, e.strategy.Stocked all t.tree

theorem IsFinite.exists_stock (h : s.IsFinite) : ∃ all, s.Stocked all := by
  have hstrategies : ∀ x ∈ s.entries.map (·.strategy), x.IsFinite :=
    List.forall_mem_map.mpr h
  obtain ⟨all, hall⟩ := Strategy.exists_stock hstrategies s.tree
  refine ⟨s.sources.units.flatMap SourceUnit.classNames ++ all, fun u hu name hname => ?_,
    fun e he => ?_⟩
  · exact List.mem_append_left _ (List.mem_flatMap.mpr ⟨u, hu, hname⟩)
  · exact (hall _ (List.mem_map_of_mem he)).mono (List.subset_append_right _ _)

theorem Stocked.find (h : s.Stocked all) (onlyExisting : Bool) (name : String) :
    (find onlyExisting name s).2.Stocked all := by
  obtain ⟨hsources, hentries⟩ := find_keeps (I := SourceSet.Stocked all)
    (J := fun e _ => e.strategy.Stocked all s.tree)
    (fun {e sources} hsources he => ⟨ChainEntry.stocked_ask hsources he name, by
      rwa [ChainEntry.strategy_keep, (e.ask_asks s.tree sources name).strategy]⟩)
    (fun he _ => he) onlyExisting h.sources h.entries
  refine ⟨hsources, ?_⟩
  rw [tree_find]
  exact hentries

theorem Stocked.questioned (h : s.Stocked all) (ht : s.Questioned t) : t.Stocked all :=
  ht.keeps (fun ht q => ask_keeps Stocked.find (fun ht _ _ => ⟨ht.sources, ht.entries⟩) ht q) h

/-- A class is made up or goes by a name that is listed. -/
def Known (all : List String) (a : Answer) : Prop := a.found.IsStub ∨ a.found.fullName ∈ all

theorem Reachable.knows_answer (h : s.Reachable) (hall : s.Stocked all) (name : String) :
    Query.Ensures s.Questioned (classNamed name) fun answer => ∀ a ∈ answer, Known all a := by
  intro t ht
  have hafter : s.Questioned (classNamed name t).2 := ht.ask (.classNamed name)
  refine ⟨hafter, fun a ha => ?_⟩
  obtain ⟨e, he, hfinds⟩ := finds_of_consult (h.later ht.later).regular.sound.entries ha
  have hsources : (classNamed name t).2.sources =
      (consult t.tree false name 0 t.entries t.sources).sources := sources_count _ _
  rw [← hsources] at hfinds
  exact hfinds.stocked (h.later hafter.later).isFilled (hall.questioned hafter).sources
    ((hall.questioned ht).entries e he)

theorem Reachable.knows_directSupertypes (h : s.Reachable) (hall : s.Stocked all) (c : Class) :
    Query.Ensures s.Questioned (directSupertypes c) fun as => ∀ a ∈ as, Known all a :=
  ensures_directSupertypes (h.knows_answer hall) fun r _ => ensures_questioned_resolveRef r

/-! ### What is left to walk -/

/-- How many of the names listed have not been seen. -/
def unseen (all seen : List String) : Nat := (all.toFinset \ seen.toFinset).card

open scoped Classical in
/-- How many classes of a queue are not made up. -/
noncomputable def reals (queue : List Answer) : Nat := queue.countP fun a => ¬ a.found.IsStub

theorem reals_stub (h : a.found.IsStub) (queue : List Answer) : reals (a :: queue) = reals queue := by
  simp [reals, h]

theorem reals_class (h : ¬ a.found.IsStub) (queue : List Answer) :
    reals (a :: queue) = reals queue + 1 := by
  simp [reals, h]

theorem reals_append (as bs : List Answer) : reals (as ++ bs) = reals as + reals bs :=
  List.countP_append

theorem unseen_cons_le (all seen : List String) (name : String) :
    unseen all (name :: seen) ≤ unseen all seen := by
  rw [unseen, List.toFinset_cons, Finset.sdiff_insert]
  exact Finset.card_erase_le

theorem unseen_cons_lt {name : String} (hall : name ∈ all) (hnew : name ∉ seen) :
    unseen all (name :: seen) + 1 = unseen all seen := by
  rw [unseen, List.toFinset_cons, Finset.sdiff_insert]
  exact Finset.card_erase_add_one (by simp [hall, hnew])

/-- New classes that are not made up take the place of as many names that have not been seen. -/
theorem reals_enqueue_le (has : ∀ a ∈ as, Known all a) (seen : List String) :
    reals (enqueue seen as).1 + unseen all (enqueue seen as).2 ≤ unseen all seen := by
  induction as generalizing seen with
  | nil => exact Nat.le_of_eq (Nat.zero_add _)
  | cons a as ih =>
    obtain ⟨ha, has⟩ := List.forall_mem_cons.mp has
    by_cases hseen : a.found.fullName ∈ seen
    · rw [enqueue_seen hseen]
      exact ih has seen
    · rw [enqueue_new hseen]
      have hrest := ih has (a.found.fullName :: seen)
      have hle := unseen_cons_le all seen a.found.fullName
      dsimp only
      by_cases hstub : a.found.IsStub
      · rw [reals_stub hstub]
        omega
      · have hlt := unseen_cons_lt (ha.resolve_left hstub) hseen
        rw [reals_class hstub]
        omega

/-- There is an end to a walk over classes that are made up or listed, if there are only such classes
above them. A class that is not made up leaves less to walk; one that is leaves as much, and the queue
is shorter. -/
theorem exists_walks {I : Session → Prop} {A : Answer → Prop} (hall : ∀ a, A a → Known all a)
    (hnext : ∀ a, A a → Query.Ensures I (directSupertypes a.found) fun above => ∀ b ∈ above, A b)
    (hs : I s) (hqueue : ∀ a ∈ queue, A a) : ∃ found t, Walks seen queue s found t := by
  induction hleft : reals queue + unseen all seen using Nat.strong_induction_on
    generalizing seen queue s with
  | _ left ih =>
    induction queue with
    | nil => exact ⟨[], s, .done⟩
    | cons a queue ihqueue =>
      obtain ⟨ha, hqueue⟩ := List.forall_mem_cons.mp hqueue
      by_cases hstub : a.found.IsStub
      · rw [reals_stub hstub] at hleft
        obtain ⟨found, t, hwalks⟩ := ihqueue hqueue hleft
        exact ⟨a :: found, t, hwalks.cons_stub hstub⟩
      · obtain ⟨hafter, habove⟩ := hnext a ha s hs
        have hless : reals (queue ++ (enqueue seen (directSupertypes a.found s).1).1) +
            unseen all (enqueue seen (directSupertypes a.found s).1).2 < left := by
          have hle := reals_enqueue_le (fun b hb => hall b (habove b hb)) seen
          rw [reals_class hstub] at hleft
          rw [reals_append]
          omega
        obtain ⟨found, t, hwalks⟩ := ih _ hless hafter
          (List.forall_mem_append.mpr ⟨hqueue, fun b hb => habove b (mem_of_mem_enqueue hb)⟩) rfl
        exact ⟨a :: found, t, .next hwalks⟩

theorem IsFinite.later (h : s.IsFinite) (hs : s.Sound) (ht : s.Later t) : t.IsFinite := by
  intro e he
  obtain ⟨d, hd, hsame⟩ := exists_same_strategy (hs.later ht).2.strategies.symm he
  exact hsame ▸ h d hd

/-- The library that options ask for has no registry but that of `java.lang`. -/
theorem isFinite_standard (options : SessionOptions) (tree : FileTree) :
    (standard options tree).IsFinite := by
  intro e he
  obtain h | ⟨_, h⟩ | ⟨_, h⟩ | ⟨_, h⟩ := mem_strategies_standard.mp (List.mem_map_of_mem he)
  · rw [h]
    trivial
  · rw [h]
    exact JavaLang.memory.isFinite_registry
  · rw [h]
    trivial
  · rw [h]
    trivial

/-- The classes above a class can be listed at any time. -/
theorem Reachable.isSome_ancestors (h : s.Reachable) (hfinite : s.IsFinite) (ht : s.Later t)
    (c : Class) : (ancestors c t).1.isSome := by
  have hreachable := h.later ht
  obtain ⟨all, hall⟩ := (hfinite.later h.regular.sound ht).exists_stock
  obtain ⟨hafter, habove⟩ := hreachable.knows_directSupertypes hall c t (.refl t)
  obtain ⟨found, t', hwalks⟩ : ∃ found t', WalksAbove c t found t' :=
    exists_walks (fun _ ha => ha) (fun a _ => hreachable.knows_directSupertypes hall a.found) hafter
      fun a ha => habove a (mem_of_mem_enqueue ha)
  rw [hwalks.ancestors]
  rfl

end JavaModel.Session
