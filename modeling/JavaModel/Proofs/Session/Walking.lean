import JavaModel.Session.Hierarchy

/-! The loop behind a walk upwards, as a relation and with a bound. What the loop comes to is what
the relation says, and a bounded loop comes to it as soon as the bound is not met. So a property of
every bounded loop is one of the walk, and where a walk ends a bounded loop computes it. -/

namespace JavaModel.Session

variable {c : Class} {s t : Session} {seen : List String} {queue found : List Answer} {n : Nat}

/-! ### The loop as a relation -/

/-- The loop over a queue: the class at the front is listed, and what is directly above it and has
not been seen goes to the end, until the queue is empty. -/
inductive Walks : List String → List Answer → Session → List Answer → Session → Prop
  | done {seen : List String} {s : Session} : Walks seen [] s [] s
  | next {seen : List String} {a : Answer} {queue found : List Answer} {s t : Session}
      (more : Walks (enqueue seen (directSupertypes a.found s).1).2
        (queue ++ (enqueue seen (directSupertypes a.found s).1).1) (directSupertypes a.found s).2
        found t) :
      Walks seen (a :: queue) s (a :: found) t

/-- The loop lists whatever is in its queue. -/
theorem Walks.queue_subset (h : Walks seen queue s found t) : queue ⊆ found := by
  induction h with
  | done => exact List.Subset.refl _
  | next _ ih =>
    exact List.cons_subset_cons _ (List.Subset.trans (List.subset_append_left _ _) ih)

theorem walk_cons (seen : List String) (a : Answer) (queue : List Answer) (s : Session) :
    walk seen (a :: queue) s =
      (walk (enqueue seen (directSupertypes a.found s).1).2
        (queue ++ (enqueue seen (directSupertypes a.found s).1).1)
        (directSupertypes a.found s).2).bind fun rest => some (a :: rest.1, rest.2) := by
  rw [walk.eq_def]
  rfl

theorem Walks.walk_eq (h : Walks seen queue s found t) : walk seen queue s = some (found, t) := by
  induction h with
  | done => rw [walk.eq_def]
  | next _ ih =>
    rw [walk_cons, ih]
    rfl

theorem walks_of_walk (h : walk seen queue s = some (found, t)) : Walks seen queue s found t := by
  refine walk.partial_correctness (fun seen queue s outcome => Walks seen queue s outcome.1 outcome.2)
    (fun walk ih seen queue s outcome h => ?_) seen queue s (found, t) h
  cases queue with
  | nil =>
    obtain rfl := Option.some.inj h
    exact .done
  | cons a queue =>
    obtain ⟨⟨found, t⟩, hmore, houtcome⟩ := Option.bind_eq_some_iff.mp h
    obtain rfl := Option.some.inj houtcome
    exact .next (ih _ _ _ _ hmore)

theorem walk_eq_some_iff : walk seen queue s = some (found, t) ↔ Walks seen queue s found t :=
  ⟨walks_of_walk, Walks.walk_eq⟩

/-- The loop that lists the classes above a class. -/
def WalksAbove (c : Class) (s : Session) (found : List Answer) (t : Session) : Prop :=
  Walks (enqueue [c.fullName] (directSupertypes c s).1).2
    (enqueue [c.fullName] (directSupertypes c s).1).1 (directSupertypes c s).2 found t

theorem ancestors_eq (c : Class) (s : Session) :
    ancestors c s =
      match walk (enqueue [c.fullName] (directSupertypes c s).1).2
        (enqueue [c.fullName] (directSupertypes c s).1).1 (directSupertypes c s).2 with
      | some (found, t) => (some found, t)
      | none => (none, s) := rfl

theorem WalksAbove.ancestors (h : WalksAbove c s found t) :
    Session.ancestors c s = (some found, t) := by
  rw [ancestors_eq, Walks.walk_eq h]

theorem ancestors_endless (h : ∀ found t, ¬ WalksAbove c s found t) : ancestors c s = (none, s) := by
  rw [ancestors_eq]
  split
  · rename_i found t hwalk
    exact absurd (walks_of_walk hwalk) (h found t)
  · rfl

/-- The classes above a class are those that the loop ends with. -/
theorem ancestors_eq_some_iff : ancestors c s = (some found, t) ↔ WalksAbove c s found t := by
  refine ⟨fun h => ?_, WalksAbove.ancestors⟩
  by_cases hends : ∃ found t, WalksAbove c s found t
  · obtain ⟨found', t', h'⟩ := hends
    obtain ⟨rfl, rfl⟩ := by simpa using h'.ancestors.symm.trans h
    exact h'
  · rw [ancestors_endless fun found t h => hends ⟨found, t, h⟩] at h
    cases congrArg Prod.fst h

theorem walksAbove_of_ancestors (h : (ancestors c s).1 = some found) :
    WalksAbove c s found (ancestors c s).2 :=
  ancestors_eq_some_iff.mp (Prod.ext h rfl)

/-- A class without an end to what is above it leaves the session as it is. -/
theorem ancestors_eq_none (h : (ancestors c s).1 = none) : ancestors c s = (none, s) := by
  refine ancestors_endless fun found t hwalks => ?_
  rw [hwalks.ancestors] at h
  cases h

/-! ### The loop with a bound -/

/-- The loop over a queue, unless it goes through more classes than the bound. -/
def walkWithin : Nat → List String → List Answer → Query (Option (List Answer))
  | _, _, [] => pure (some [])
  | 0, _, _ :: _ => pure none
  | n + 1, seen, a :: queue => do
    let above ← directSupertypes a.found
    let (new, seen) := enqueue seen above
    let found ← walkWithin n seen (queue ++ new)
    pure (found.map (a :: ·))

/-- The classes above a class, unless there are more than the bound. -/
def ancestorsWithin (n : Nat) (c : Class) : Query (Option (List Answer)) := do
  let above ← directSupertypes c
  let (queue, seen) := enqueue [c.fullName] above
  walkWithin n seen queue

theorem walkWithin_cons (n : Nat) (seen : List String) (a : Answer) (queue : List Answer) :
    walkWithin (n + 1) seen (a :: queue) =
      directSupertypes a.found >>= fun above =>
        walkWithin n (enqueue seen above).2 (queue ++ (enqueue seen above).1) >>= fun found =>
          pure (found.map (a :: ·)) := rfl

theorem ancestorsWithin_eq (n : Nat) (c : Class) :
    ancestorsWithin n c = directSupertypes c >>= fun above =>
      walkWithin n (enqueue [c.fullName] above).2 (enqueue [c.fullName] above).1 := rfl

theorem walks_of_walkWithin (h : (walkWithin n seen queue s).1 = some found) :
    Walks seen queue s found (walkWithin n seen queue s).2 := by
  induction n generalizing seen queue s found with
  | zero =>
    cases queue with
    | nil =>
      obtain rfl := Option.some.inj h
      exact .done
    | cons a queue => cases h
  | succ n ih =>
    cases queue with
    | nil =>
      obtain rfl := Option.some.inj h
      exact .done
    | cons a queue =>
      obtain ⟨found, hfound, rfl⟩ := Option.map_eq_some_iff.mp h
      exact .next (ih hfound)

/-- The number of classes listed is a bound that is not met. -/
theorem Walks.within (h : Walks seen queue s found t) :
    walkWithin found.length seen queue s = (some found, t) := by
  induction h with
  | done => rfl
  | @next seen a queue found s t more ih =>
    rw [List.length_cons, walkWithin_cons]
    exact congrArg (fun r => (r.1.map (a :: ·), r.2)) ih

theorem ancestors_of_within (n : Nat) (h : (ancestorsWithin n c s).1.isSome) :
    ancestors c s = ancestorsWithin n c s := by
  obtain ⟨found, hfound⟩ := Option.isSome_iff_exists.mp h
  have hwalks : WalksAbove c s found (ancestorsWithin n c s).2 := walks_of_walkWithin hfound
  rw [hwalks.ancestors]
  exact Prod.ext hfound.symm rfl

/-- If every bound is met, there is no end to the walk. -/
theorem ancestors_of_unbounded (h : ∀ n, (ancestorsWithin n c s).1 = none) :
    ancestors c s = (none, s) := by
  refine ancestors_endless fun found t hwalks => ?_
  have hbounded : ancestorsWithin found.length c s = (some found, t) := Walks.within hwalks
  have hnone := h found.length
  rw [hbounded] at hnone
  cases hnone

/-- Some bound is not met, and the walk is the bounded one, or every bound is met. -/
theorem ancestors_cases (c : Class) (s : Session) :
    (∃ n, (ancestorsWithin n c s).1.isSome ∧ ancestors c s = ancestorsWithin n c s) ∨
      (∀ n, (ancestorsWithin n c s).1 = none) ∧ ancestors c s = (none, s) := by
  by_cases h : ∃ n, (ancestorsWithin n c s).1.isSome
  · obtain ⟨n, hn⟩ := h
    exact .inl ⟨n, hn, ancestors_of_within n hn⟩
  · have hnone (n : Nat) : (ancestorsWithin n c s).1 = none :=
      Option.not_isSome_iff_eq_none.mp fun hn => h ⟨n, hn⟩
    exact .inr ⟨hnone, ancestors_of_unbounded hnone⟩

/-! ### Below a class -/

theorem isA_eq (c : Class) (fullName : String) (s : Session) :
    isA c fullName s =
      if c.fullName = fullName then (some true, s)
      else ((ancestors c s).1.map fun as => as.any fun a => a.found.fullName = fullName,
        (ancestors c s).2) := by
  unfold isA
  split <;> rfl

end JavaModel.Session
