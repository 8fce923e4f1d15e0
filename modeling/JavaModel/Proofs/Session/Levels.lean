import Mathlib.Data.Nat.Find
import Mathlib.Logic.Relation
import JavaModel.Proofs.Session.Ascent
import JavaModel.Proofs.Session.Questions

/-! A walk upwards over classes that stay as they are, level by level. A round holds the classes at
one distance, and what has been seen are the names of those that are no further. So the walk lists
the closure of its first class under what is directly above, the closer classes first, and those
directly above one class in their order. -/

namespace JavaModel.Session

variable {above : Answer → List Answer} {a b c d : Answer} {k m n : Nat} {seen : List String}
  {round as bs found : List Answer}

/-! ### Distances -/

/-- From the class `a` there is a way of `n` steps upwards to another. -/
inductive Steps (above : Answer → List Answer) (a : Answer) : Nat → Answer → Prop
  | here : Steps above a 0 a
  | up {n : Nat} {b c : Answer} (below : Steps above a n b) (habove : c ∈ above b) :
      Steps above a (n + 1) c

/-- From the class `a` the shortest way upwards to another has `n` steps. -/
structure Distance (above : Answer → List Answer) (a : Answer) (n : Nat) (b : Answer) : Prop where
  steps : Steps above a n b
  least : ∀ m < n, ¬ Steps above a m b

theorem distance_zero : Distance above a 0 b ↔ b = a := by
  refine ⟨fun h => ?_, ?_⟩
  · cases h.steps
    rfl
  · rintro rfl
    exact ⟨.here, fun m hm => absurd hm (Nat.not_lt_zero m)⟩

/-- What some way leads to has a distance. -/
theorem Steps.distance (h : Steps above a n b) : ∃ m ≤ n, Distance above a m b := by
  classical
  have hsome : ∃ m, Steps above a m b := ⟨n, h⟩
  exact ⟨Nat.find hsome, Nat.find_min' hsome h, Nat.find_spec hsome, fun _ => Nat.find_min hsome⟩

/-- A shortest way goes through a class that is one step closer. -/
theorem Distance.below (h : Distance above a (n + 1) b) :
    ∃ p, Distance above a n p ∧ b ∈ above p := by
  obtain ⟨hsteps, hleast⟩ := h
  cases hsteps with
  | up hbelow habove =>
    exact ⟨_, ⟨hbelow, fun m hm hfewer => hleast (m + 1) (by omega) (hfewer.up habove)⟩, habove⟩

theorem Distance.exists_of_le (h : Distance above a n b) (hk : k ≤ n) :
    ∃ p, Distance above a k p := by
  induction n, hk using Nat.le_induction generalizing b with
  | base => exact ⟨b, h⟩
  | succ n _ ih =>
    obtain ⟨p, hp, _⟩ := h.below
    exact ih hp

/-- The classes at the next distance are those directly above the ones at this distance, except for
those that are no further than this. -/
theorem distance_succ_iff : Distance above a (k + 1) b ↔
    (∃ p, Distance above a k p ∧ b ∈ above p) ∧ ∀ j ≤ k, ¬ Distance above a j b := by
  refine ⟨fun h => ⟨h.below, fun j hj hsooner => h.least j (by omega) hsooner.steps⟩, ?_⟩
  rintro ⟨⟨p, hp, habove⟩, hnew⟩
  refine ⟨hp.steps.up habove, fun m hm hfewer => ?_⟩
  obtain ⟨j, hj, hsooner⟩ := hfewer.distance
  exact hnew j (by omega) hsooner

/-- The classes at a distance are those that can be reached upwards. -/
theorem exists_distance_iff :
    (∃ n, Distance above a n b) ↔ Relation.ReflTransGen (fun p q => q ∈ above p) a b := by
  constructor
  · rintro ⟨n, ⟨hsteps, _⟩⟩
    clear * - hsteps
    induction hsteps with
    | here => exact .refl
    | up _ habove ih => exact ih.tail habove
  · intro h
    have hsteps : ∃ n, Steps above a n b := by
      induction h with
      | refl => exact ⟨0, .here⟩
      | tail _ habove ih =>
        obtain ⟨n, hn⟩ := ih
        exact ⟨n + 1, hn.up habove⟩
    obtain ⟨n, hn⟩ := hsteps
    exact hn.distance.imp fun _ => And.right

/-! ### What is new in a list -/

/-- In the list, `b` comes up before `d` does. -/
def Precedes (as : List Answer) (b d : Answer) : Prop :=
  ∃ front back, as = front ++ b :: back ∧ d ∉ front

theorem Precedes.cons (h : Precedes as b d) (hne : d ≠ a) : Precedes (a :: as) b d := by
  obtain ⟨front, back, rfl, hd⟩ := h
  exact ⟨a :: front, back, rfl, fun hmem => (List.mem_cons.mp hmem).elim hne hd⟩

/-- What is new stays in its order. -/
theorem pairwise_enqueue (seen : List String) (as : List Answer) :
    (enqueue seen as).1.Pairwise (Precedes as) := by
  induction as generalizing seen with
  | nil => exact .nil
  | cons a as ih =>
    have hmore {seen' : List String} (hseen : a.found.fullName ∈ seen') :
        (enqueue seen' as).1.Pairwise (Precedes (a :: as)) := by
      refine (ih seen').imp_of_mem fun {b d} _ hd h => h.cons ?_
      rintro rfl
      exact (fresh_enqueue seen' as).unseen _ (List.mem_map_of_mem hd) hseen
    by_cases h : a.found.fullName ∈ seen
    · rw [enqueue_seen h]
      exact hmore h
    · rw [enqueue_new h]
      exact .cons (fun d _ => ⟨[], as, rfl, List.not_mem_nil⟩) (hmore (List.mem_cons_self ..))

theorem mem_seen_enqueue {name : String} :
    name ∈ (enqueue seen as).2 ↔ name ∈ seen ∨ name ∈ names as := by
  induction as generalizing seen with
  | nil => exact (or_iff_left List.not_mem_nil).symm
  | cons a as ih =>
    have hcons : name ∈ names (a :: as) ↔ name = a.found.fullName ∨ name ∈ names as :=
      List.mem_cons
    by_cases h : a.found.fullName ∈ seen
    · rw [enqueue_seen h, ih, hcons, ← or_assoc]
      refine or_congr_left (or_iff_left_of_imp ?_).symm
      rintro rfl
      exact h
    · rw [enqueue_new h, ih, hcons, List.mem_cons, or_assoc, or_left_comm]

/-- Where no two classes share a name, those are new whose names have not been seen. -/
theorem mem_enqueue_iff (hunique : ∀ b ∈ as, ∀ c ∈ as, b.found.fullName = c.found.fullName → b = c) :
    b ∈ (enqueue seen as).1 ↔ b ∈ as ∧ b.found.fullName ∉ seen := by
  have hfresh := fresh_enqueue seen as
  refine ⟨fun h => ⟨mem_of_mem_enqueue h, hfresh.unseen _ (List.mem_map_of_mem h)⟩, ?_⟩
  rintro ⟨hb, hnew⟩
  have hname : b.found.fullName ∈ names (enqueue seen as).1 :=
    ((hfresh.seen _).mp (mem_seen_enqueue.mpr (.inr (List.mem_map_of_mem hb)))).resolve_left hnew
  obtain ⟨c, hc, hsame⟩ := List.mem_map.mp hname
  rwa [hunique b hb c (mem_of_mem_enqueue hc) hsame.symm]

/-! ### Levels -/

/-- From a round on, classes are listed round by round until there is nothing new above them. -/
inductive Levels (above : Answer → List Answer) : List String → List Answer → List Answer → Prop
  | done {seen : List String} : Levels above seen [] []
  | round {seen : List String} {a : Answer} {as found : List Answer}
      (more : Levels above (enqueue seen ((a :: as).flatMap above)).2
        (enqueue seen ((a :: as).flatMap above)).1 found) :
      Levels above seen (a :: as) (a :: as ++ found)

/-- All classes listed behind the first round are what is new above the classes listed. -/
theorem Levels.eq_enqueue (h : Levels above seen round found) :
    found = round ++ (enqueue seen (found.flatMap above)).1 := by
  induction h with
  | done => rfl
  | @round seen a as found more ih =>
    rw [List.flatMap_append, enqueue_append, ← ih]

/-- A round holds the classes at one distance, and the names of those that are no further have been
seen. -/
structure Level (above : Answer → List Answer) (a : Answer) (k : Nat) (seen : List String)
    (round : List Answer) : Prop where
  round : ∀ b, b ∈ round ↔ Distance above a k b
  seen : ∀ name, name ∈ seen ↔ ∃ j ≤ k, ∃ b, Distance above a j b ∧ b.found.fullName = name

theorem level_zero (above : Answer → List Answer) (a : Answer) :
    Level above a 0 [a.found.fullName] [a] := by
  refine ⟨fun b => ?_, fun name => ?_⟩
  · rw [List.mem_singleton, distance_zero]
  · simp [distance_zero, eq_comm]

/-- No two of the classes that can be reached from `a` upwards share a name. -/
def Unequivocal (above : Answer → List Answer) (a : Answer) : Prop :=
  ∀ {m n b c}, Steps above a m b → Steps above a n c → b.found.fullName = c.found.fullName → b = c

variable (hunique : Unequivocal above a)

include hunique

/-- What is new above a round is the next one. -/
theorem Level.next (h : Level above a k seen round) :
    Level above a (k + 1) (enqueue seen (round.flatMap above)).2
      (enqueue seen (round.flatMap above)).1 := by
  have habove (b : Answer) :
      b ∈ round.flatMap above ↔ ∃ p, Distance above a k p ∧ b ∈ above p := by
    simp [List.mem_flatMap, h.round]
  have hsteps {b : Answer} (hb : b ∈ round.flatMap above) : Steps above a (k + 1) b := by
    obtain ⟨p, hp, hb⟩ := (habove b).mp hb
    exact hp.steps.up hb
  have hround (b : Answer) :
      b ∈ (enqueue seen (round.flatMap above)).1 ↔ Distance above a (k + 1) b := by
    rw [mem_enqueue_iff fun b hb c hc => hunique (hsteps hb) (hsteps hc), distance_succ_iff,
      ← habove]
    refine and_congr_right fun hb => ?_
    rw [h.seen]
    constructor
    · exact fun hnew j hj hsooner => hnew ⟨j, hj, b, hsooner, rfl⟩
    · rintro hnew ⟨j, hj, c, hc, hsame⟩
      exact hnew j hj (hunique hc.steps (hsteps hb) hsame ▸ hc)
  refine ⟨hround, fun name => ?_⟩
  rw [(fresh_enqueue seen _).seen, h.seen, names, List.mem_map]
  simp only [hround]
  constructor
  · rintro (⟨j, hj, b, hb⟩ | ⟨b, hb⟩)
    · exact ⟨j, by omega, b, hb⟩
    · exact ⟨k + 1, le_rfl, b, hb⟩
  · rintro ⟨j, hj, b, hb⟩
    obtain hj | rfl := Nat.le_succ_iff.mp hj
    · exact .inl ⟨j, hj, b, hb⟩
    · exact .inr ⟨b, hb⟩

/-- From the round at a distance on, the classes at this distance and further ones are listed, the
closer ones first. -/
theorem Levels.spec (h : Levels above seen round found) (hlevel : Level above a k seen round) :
    (∀ b, b ∈ found ↔ ∃ n ≥ k, Distance above a n b) ∧
      found.Pairwise fun b d => ∃ m n, m ≤ n ∧ Distance above a m b ∧ Distance above a n d := by
  induction h generalizing k with
  | done =>
    refine ⟨fun b => iff_of_false List.not_mem_nil ?_, .nil⟩
    rintro ⟨n, hn, hb⟩
    obtain ⟨p, hp⟩ := hb.exists_of_le hn
    exact List.not_mem_nil ((hlevel.round p).mpr hp)
  | @round seen a' as found more ih =>
    obtain ⟨hmem, hordered⟩ := ih (hlevel.next hunique)
    refine ⟨fun b => ?_, List.pairwise_append.mpr ⟨?_, hordered, fun b hb d hd => ?_⟩⟩
    · rw [List.mem_append, hlevel.round, hmem]
      constructor
      · rintro (hb | ⟨n, hn, hb⟩)
        · exact ⟨k, le_rfl, hb⟩
        · exact ⟨n, by omega, hb⟩
      · rintro ⟨n, hn, hb⟩
        obtain rfl | hn := Nat.eq_or_lt_of_le hn
        · exact .inl hb
        · exact .inr ⟨n, hn, hb⟩
    · refine List.pairwise_of_forall_mem_list fun b hb d hd => ⟨k, k, le_rfl, ?_, ?_⟩
      · exact (hlevel.round b).mp hb
      · exact (hlevel.round d).mp hd
    · obtain ⟨n, hn, hd⟩ := (hmem d).mp hd
      exact ⟨k, n, by omega, (hlevel.round b).mp hb, hd⟩

/-! ### The closure -/

omit hunique in
/-- What there is to say of the classes above `a`, if they are listed in this order. Each full name
is listed once, and that of `a` is not. The classes are those that can be reached upwards, the closer
ones first. Those that are directly above a class, and not above one that is listed before it, stand
side by side, in the order in which they are directly above it. -/
structure Closure (above : Answer → List Answer) (a : Answer) (as : List Answer) : Prop where
  distinct : (names as).Nodup
  apart : a.found.fullName ∉ names as
  members : ∀ b, b ∈ as ↔ Relation.TransGen (fun p q => q ∈ above p) a b ∧ b ≠ a
  ordered : as.Pairwise fun b d => ∃ m n, m ≤ n ∧ Distance above a m b ∧ Distance above a n d
  siblings : ∀ front p back, a :: as = front ++ p :: back → ∃ before new after,
    as = before ++ new ++ after ∧
    (∀ b, b ∈ new ↔ b ∈ above p ∧ b ≠ a ∧ ∀ q ∈ front, b ∉ above q) ∧
    new.Pairwise (Precedes (above p))

omit hunique in
theorem Levels.listed (h : Levels above [a.found.fullName] [a] (a :: as)) :
    as = (enqueue [a.found.fullName] ((a :: as).flatMap above)).1 :=
  (List.cons.inj h.eq_enqueue).2

theorem Levels.siblings (h : Levels above [a.found.fullName] [a] (a :: as)) {front back : List Answer}
    {p : Answer} (hsplit : a :: as = front ++ p :: back) : ∃ before new after,
      as = before ++ new ++ after ∧
      (∀ b, b ∈ new ↔ b ∈ above p ∧ b ≠ a ∧ ∀ q ∈ front, b ∉ above q) ∧
      new.Pairwise (Precedes (above p)) := by
  have habove {q b : Answer} (hq : q ∈ a :: as) (hb : b ∈ above q) : ∃ n, Steps above a n b := by
    obtain ⟨n, _, hn⟩ := ((h.spec hunique (level_zero above a)).1 q).mp hq
    exact ⟨n + 1, hn.steps.up hb⟩
  have hp : p ∈ a :: as := hsplit ▸ List.mem_append_right _ (List.mem_cons_self ..)
  have hfront {q : Answer} (hq : q ∈ front) : q ∈ a :: as := hsplit ▸ List.mem_append_left _ hq
  let before := enqueue [a.found.fullName] (front.flatMap above)
  let new := enqueue before.2 (above p)
  let after := enqueue new.2 (back.flatMap above)
  refine ⟨before.1, new.1, after.1, ?_, fun b => ?_, pairwise_enqueue _ _⟩
  · rw [h.listed, hsplit, List.flatMap_append, List.flatMap_cons, enqueue_append, enqueue_append,
      ← List.append_assoc]
  · have hunique' (b : Answer) (hb : b ∈ above p) (c : Answer) (hc : c ∈ above p)
        (hsame : b.found.fullName = c.found.fullName) : b = c := by
      obtain ⟨_, hb⟩ := habove hp hb
      obtain ⟨_, hc⟩ := habove hp hc
      exact hunique hb hc hsame
    rw [mem_enqueue_iff hunique', mem_seen_enqueue, not_or]
    refine and_congr_right fun hb => ?_
    obtain ⟨_, hb⟩ := habove hp hb
    refine and_congr (not_congr ?_) ?_
    · rw [List.mem_singleton]
      exact ⟨fun hsame => hunique hb .here hsame, fun hsame => hsame ▸ rfl⟩
    · constructor
      · exact fun hnew q hq hmem =>
          hnew (List.mem_map_of_mem (List.mem_flatMap.mpr ⟨q, hq, hmem⟩))
      · rintro hnew hmem
        obtain ⟨c, hc, hsame⟩ := List.mem_map.mp hmem
        obtain ⟨q, hq, hc⟩ := List.mem_flatMap.mp hc
        obtain ⟨_, hreached⟩ := habove (hfront hq) hc
        exact hnew q hq (hunique hreached hb hsame ▸ hc)

/-- A walk level by level lists the closure. -/
theorem Levels.closure (h : Levels above [a.found.fullName] [a] (a :: as)) : Closure above a as := by
  have hfresh := fresh_enqueue [a.found.fullName] ((a :: as).flatMap above)
  have hnames := congrArg names h.listed
  have hdistinct : (names as).Nodup := by
    rw [hnames]
    exact hfresh.distinct
  have hapart : a.found.fullName ∉ names as := by
    rw [hnames]
    exact fun hmem => hfresh.unseen _ hmem (List.mem_singleton_self _)
  obtain ⟨hmem, hordered⟩ := h.spec hunique (level_zero above a)
  refine ⟨hdistinct, hapart, fun b => ?_, (List.pairwise_cons.mp hordered).2,
    fun _ _ _ => h.siblings hunique⟩
  have hreached : b ∈ a :: as ↔ Relation.ReflTransGen (fun p q => q ∈ above p) a b := by
    rw [hmem, ← exists_distance_iff]
    exact exists_congr fun n => and_iff_right (Nat.zero_le n)
  rw [List.mem_cons, Relation.reflTransGen_iff_eq_or_transGen] at hreached
  constructor
  · intro hb
    have hne : b ≠ a := fun hself => hapart (hself ▸ List.mem_map_of_mem hb)
    exact ⟨(hreached.mp (.inr hb)).resolve_left hne, hne⟩
  · rintro ⟨hb, hne⟩
    exact (hreached.mpr (.inr hb)).resolve_left hne

end JavaModel.Session
