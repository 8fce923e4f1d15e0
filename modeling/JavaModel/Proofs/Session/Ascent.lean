import Mathlib.Data.List.Nodup
import JavaModel.Proofs.Session.Stub

/-! The classes above a class, with and without a stub at the end of the chain. A walk lists each
full name once. Two walks side by side go through the same rounds, but for the stubs in them, as
long as no stub of the one goes by the name of a class of the other: a name that a stub has taken is
not listed again when a file read in the meantime declares it. -/

namespace JavaModel.Session

/-- The full names of answers. -/
def names (as : List Answer) : List String := as.map fun a => a.found.fullName

/-- The full names of the stubs among answers. -/
def stubNames (as : List Answer) : List String := names (as.filter fun a => a.found.isStub)

theorem names_append (as bs : List Answer) : names (as ++ bs) = names as ++ names bs :=
  List.map_append

theorem mem_stubNames {as : List Answer} {n : String} :
    n ∈ stubNames as ↔ ∃ a ∈ as, a.found.isStub ∧ a.found.fullName = n := by
  simp [stubNames, names, and_assoc]

theorem stubNames_mono {as bs : List Answer} (h : as ⊆ bs) : stubNames as ⊆ stubNames bs := by
  intro n hn
  obtain ⟨a, ha, hstub⟩ := mem_stubNames.mp hn
  exact mem_stubNames.mpr ⟨a, h ha, hstub⟩

theorem stubNames_append (as bs : List Answer) :
    stubNames (as ++ bs) = stubNames as ++ stubNames bs := by
  rw [stubNames, List.filter_append]
  exact names_append _ _

variable {seen seen' : List String} {as bs : List Answer} {a b : Answer}

theorem enqueue_seen (h : a.found.fullName ∈ seen) : enqueue seen (a :: as) = enqueue seen as := by
  rw [enqueue, if_pos (List.contains_iff_mem.mpr h)]

theorem enqueue_new (h : a.found.fullName ∉ seen) :
    enqueue seen (a :: as) =
      (a :: (enqueue (a.found.fullName :: seen) as).1,
        (enqueue (a.found.fullName :: seen) as).2) := by
  rw [enqueue, if_neg fun hseen => h (List.contains_iff_mem.mp hseen)]

theorem enqueue_append (seen : List String) (as bs : List Answer) :
    enqueue seen (as ++ bs) =
      ((enqueue seen as).1 ++ (enqueue (enqueue seen as).2 bs).1,
        (enqueue (enqueue seen as).2 bs).2) := by
  induction as generalizing seen with
  | nil => rfl
  | cons a as ih =>
    rw [List.cons_append]
    by_cases h : a.found.fullName ∈ seen
    · rw [enqueue_seen h, enqueue_seen h, ih]
    · rw [enqueue_new h, enqueue_new h, ih]
      rfl

/-! ### Each name once -/

/-- Classes found above a round: their names are distinct and were not seen before, and have been
seen now. -/
structure Fresh (seen : List String) (found : List Answer × List String) : Prop where
  distinct : (names found.1).Nodup
  unseen : ∀ n ∈ names found.1, n ∉ seen
  seen : ∀ n, n ∈ found.2 ↔ n ∈ seen ∨ n ∈ names found.1

theorem Fresh.append {p q : List Answer × List String} (h : Fresh seen p) (h' : Fresh p.2 q) :
    Fresh seen (p.1 ++ q.1, q.2) := by
  have hunseen (n : String) (hn : n ∈ names q.1) : n ∉ seen ∧ n ∉ names p.1 :=
    not_or.mp fun hseen => h'.unseen n hn ((h.seen n).mpr hseen)
  refine ⟨?_, fun n hn => ?_, fun n => ?_⟩
  · rw [names_append]
    refine List.nodup_append.mpr ⟨h.distinct, h'.distinct, fun n hn m hm heq => ?_⟩
    exact (hunseen m hm).2 (heq ▸ hn)
  · rw [names_append] at hn
    exact (List.mem_append.mp hn).elim (h.unseen n) fun hn => (hunseen n hn).1
  · rw [h'.seen, h.seen, names_append, List.mem_append, or_assoc]

theorem fresh_nil (seen : List String) : Fresh seen ([], seen) :=
  ⟨.nil, by simp [names], by simp [names]⟩

theorem fresh_enqueue (seen : List String) (as : List Answer) : Fresh seen (enqueue seen as) := by
  induction as generalizing seen with
  | nil => exact fresh_nil seen
  | cons a as ih =>
    by_cases h : a.found.fullName ∈ seen
    · rw [enqueue_seen h]
      exact ih seen
    · rw [enqueue_new h]
      have hfirst : Fresh seen ([a], a.found.fullName :: seen) :=
        ⟨by simp [names], by simpa [names] using h, by simp [names, or_comm]⟩
      exact hfirst.append (ih _)

/-- A walk lists the names in its queue and further ones not seen before, each once. -/
theorem Walks.distinct {queue found : List Answer} {s t : Session}
    (h : Walks seen queue s found t) (hdistinct : (names queue).Nodup)
    (hseen : ∀ n ∈ names queue, n ∈ seen) :
    (names found).Nodup ∧ ∀ n ∈ names found, n ∈ names queue ∨ n ∉ seen := by
  induction h with
  | done => exact ⟨.nil, fun n hn => by cases hn⟩
  | @next seen a queue found s t _ ih =>
    obtain ⟨ha, hqueue⟩ := List.nodup_cons.mp hdistinct
    have hfresh := fresh_enqueue seen (directSupertypes a.found s).1
    generalize enqueue seen (directSupertypes a.found s).1 = new at hfresh ih
    rw [names_append] at ih
    have hold {n : String} (hn : n ∈ names queue) : n ∈ seen := hseen n (List.mem_cons_of_mem _ hn)
    obtain ⟨hrest, hnew⟩ := ih
      (List.nodup_append.mpr ⟨hqueue, hfresh.distinct, fun n hn m hm heq =>
        hfresh.unseen m hm (heq ▸ hold hn)⟩)
      (fun n hn => (hfresh.seen n).mpr ((List.mem_append.mp hn).imp_left hold))
    have hlisted (n : String) (hn : n ∈ names found) : n ∈ names queue ∨ n ∉ seen := by
      obtain hn | hn := hnew n hn
      · exact (List.mem_append.mp hn).imp_right (hfresh.unseen n)
      · exact .inr fun h => hn ((hfresh.seen n).mpr (.inl h))
    refine ⟨List.nodup_cons.mpr ⟨fun h => ?_, hrest⟩, fun n hn => ?_⟩
    · exact (hlisted _ h).elim ha fun h => h (hseen _ (List.mem_cons_self ..))
    · obtain rfl | hn := List.mem_cons.mp hn
      · exact .inl (List.mem_cons_self ..)
      · exact (hlisted n hn).imp_left (List.mem_cons_of_mem _)

/-- No two classes above a class have the same full name. -/
theorem ancestors_distinct {c : Class} {s : Session} (h : (ancestors c s).1 = some as) :
    (names as).Nodup := by
  have hfresh := fresh_enqueue [c.fullName] (directSupertypes c s).1
  exact ((walksAbove_of_ancestors h).distinct hfresh.distinct
    fun n hn => (hfresh.seen n).mpr (.inr hn)).1

/-! ### Two walks side by side -/

/-- The second walk has seen the names that the first has seen and those of stubs. -/
def SeenBeside (stubs seen seen' : List String) : Prop := ∀ n, n ∈ seen' ↔ n ∈ seen ∨ n ∈ stubs

/-- No answer goes by one of the names. -/
def Apart (ns : List String) (as : List Answer) : Prop := ∀ n ∈ names as, n ∉ ns

/-- What is new to each of two walks: unless a stub seen so far goes by the name of a class that is
new to the first one, the same is new to both but for stubs. -/
def FoundBeside (seen seen' : List String) (found found' : List Answer × List String) : Prop :=
  ∀ stubs, SeenBeside stubs seen seen' → Apart (stubs ++ stubNames found'.1) found.1 →
    StubsAmong found.1 found'.1 ∧ SeenBeside (stubs ++ stubNames found'.1) found.2 found'.2

theorem Apart.mono {ns ns' : List String} {as as' : List Answer} (h : Apart ns as)
    (hnames : ns' ⊆ ns) (hanswers : as' ⊆ as) : Apart ns' as' := by
  intro n hn hmem
  obtain ⟨a, ha, rfl⟩ := List.mem_map.mp hn
  exact h _ (List.mem_map_of_mem (hanswers ha)) (hnames hmem)

theorem Apart.append {ns ms : List String} (h : Apart ns as) (h' : Apart ms as) :
    Apart (ns ++ ms) as :=
  fun n hn hmem => (List.mem_append.mp hmem).elim (h n hn) (h' n hn)

theorem foundBeside_nil : FoundBeside seen seen' ([], seen) ([], seen') :=
  fun stubs hseen _ => ⟨.nil, by simpa [stubNames, names] using hseen⟩

theorem FoundBeside.append {p p' q q' : List Answer × List String}
    (h : FoundBeside seen seen' p p') (h' : FoundBeside p.2 p'.2 q q') :
    FoundBeside seen seen' (p.1 ++ q.1, q.2) (p'.1 ++ q'.1, q'.2) := by
  intro stubs hseen hapart
  rw [stubNames_append, ← List.append_assoc] at hapart ⊢
  obtain ⟨hfirst, hseen⟩ := h stubs hseen
    (hapart.mono (List.subset_append_left _ _) (List.subset_append_left _ _))
  obtain ⟨hrest, hseen⟩ := h' _ hseen (hapart.mono (List.Subset.refl _)
    (List.subset_append_right _ _))
  exact ⟨hfirst.append hrest, hseen⟩

/-- A stub that is new to the second walk. -/
theorem foundBeside_stub (h : b.found.IsStub) :
    FoundBeside seen seen' ([], seen) ([b], b.found.fullName :: seen') := by
  intro stubs hseen _
  have hname : stubNames [b] = [b.found.fullName] := by simp [stubNames, names, h.isStub]
  refine ⟨.single h, fun n => ?_⟩
  rw [hname, List.mem_cons, hseen, List.mem_append, List.mem_singleton, or_comm, or_assoc]

/-- A class that is new to the first walk is new to the second, or a stub goes by its name. -/
theorem foundBeside_new (hb : b.found.isStub = false) (hnew : b.found.fullName ∉ seen)
    {found : List Answer × List String}
    (h : FoundBeside (b.found.fullName :: seen) (b.found.fullName :: seen') found
      (enqueue (b.found.fullName :: seen') bs)) :
    FoundBeside seen seen' (b :: found.1, found.2) (enqueue seen' (b :: bs)) := by
  intro stubs hseen hapart
  by_cases hknown : b.found.fullName ∈ seen'
  · have hstub : b.found.fullName ∈ stubs := ((hseen _).mp hknown).resolve_left hnew
    exact absurd (List.mem_append_left _ hstub) (hapart _ (by simp [names]))
  · rw [enqueue_new hknown] at hapart ⊢
    have hfirst : FoundBeside seen seen' ([b], b.found.fullName :: seen)
        ([b], b.found.fullName :: seen') := by
      intro stubs hseen _
      refine ⟨.refl (by simpa using hb), fun n => ?_⟩
      simp [stubNames, names, hb, hseen n, or_assoc]
    exact hfirst.append h stubs hseen hapart

theorem foundBeside_enqueue (h : StubsAmong as bs) :
    FoundBeside seen seen' (enqueue seen as) (enqueue seen' bs) := by
  induction bs generalizing as seen seen' with
  | nil =>
    obtain rfl := h.eq_nil
    exact foundBeside_nil
  | cons b bs ih =>
    obtain ⟨hb, hbs⟩ | ⟨hb, rest, rfl, hbs⟩ := h.cons_cases
    · by_cases hknown : b.found.fullName ∈ seen'
      · rw [enqueue_seen hknown]
        exact ih hbs
      · rw [enqueue_new hknown]
        exact (foundBeside_stub hb).append (ih hbs)
    · by_cases hknown : b.found.fullName ∈ seen
      · rw [enqueue_seen hknown]
        intro stubs hseen hapart
        rw [enqueue_seen ((hseen _).mpr (.inl hknown))] at hapart ⊢
        exact ih hbs stubs hseen hapart
      · rw [enqueue_new hknown]
        exact foundBeside_new hb hknown (ih hbs)

/-- Nothing is above a stub. -/
theorem directSupertypes_stub {c : Class} (h : c.IsStub) (s : Session) :
    directSupertypes c s = ([], s) := by
  obtain ⟨name, rfl⟩ := h
  rfl

theorem Walks.cons_stub {s t : Session} {queue found : List Answer} (ha : a.found.IsStub)
    (h : Walks seen queue s found t) : Walks seen (a :: queue) s (a :: found) t := by
  refine .next ?_
  rw [directSupertypes_stub ha, enqueue, List.append_nil]
  exact h

variable {s t s' t' : Session} {stubs : List String} {found found' : List Answer}

/-- Walks side by side stay so, unless a stub of the second goes by the name of a class of the
first. -/
theorem Walks.beside (h' : Walks seen' bs t found' t') (h : Walks seen as s found s')
    (hst : s.Beside t) (hqueue : StubsAmong as bs) (hseen : SeenBeside stubs seen seen')
    (hstubs : Apart stubs found) (hapart : Apart (stubNames found') found) :
    StubsAmong found found' ∧ s'.Beside t' := by
  induction h' generalizing seen as s found stubs with
  | done =>
    obtain rfl := hqueue.eq_nil
    cases h
    exact ⟨.nil, hst⟩
  | @next seen' b bs found' t t' more ih =>
    have hrest : Apart (stubNames found') found :=
      hapart.mono (stubNames_mono (List.subset_cons_self ..)) (List.Subset.refl _)
    obtain ⟨hb, hbs⟩ | ⟨hb, as, rfl, hbs⟩ := hqueue.cons_cases
    · -- Nothing is above a stub, and the first walk waits for the second.
      rw [directSupertypes_stub hb, enqueue, List.append_nil] at ih
      obtain ⟨hfound, hlast⟩ := ih h hst hbs hseen hstubs hrest
      exact ⟨(StubsAmong.single hb).append hfound, hlast⟩
    · cases h with
      | @next _ _ _ found _ _ hmore =>
        obtain ⟨habove, hst⟩ := relates_directSupertypes b.found s t hst
        generalize directSupertypes b.found s = above at hmore habove hst
        generalize directSupertypes b.found t = above' at more ih habove hst
        have hnew : (enqueue seen above.1).1 ⊆ found :=
          List.Subset.trans (List.subset_append_right _ _) hmore.queue_subset
        have hnew' : (enqueue seen' above'.1).1 ⊆ found' :=
          List.Subset.trans (List.subset_append_right _ _) more.queue_subset
        have hstubs := hstubs.mono (List.Subset.refl _) (List.subset_cons_self b found)
        have hrest := hrest.mono (List.Subset.refl _) (List.subset_cons_self b found)
        have hnewStubs := hstubs.append (hrest.mono (stubNames_mono hnew') (List.Subset.refl _))
        obtain ⟨hqueue, hseen⟩ :=
          foundBeside_enqueue habove stubs hseen (hnewStubs.mono (List.Subset.refl _) hnew)
        obtain ⟨hfound, hlast⟩ := ih hmore hst (hbs.append hqueue) hseen hnewStubs hrest
        have hself : StubsAmong [b] [b] := .refl (by simpa using hb)
        exact ⟨hself.append hfound, hlast⟩

/-- A stub of the second walk goes by the name of a class of the first. -/
def Masks (bs as : List Answer) : Prop :=
  ∃ b ∈ bs, b.found.isStub ∧ ∃ a ∈ as, a.found.fullName = b.found.fullName

theorem not_masks_iff : ¬ Masks bs as ↔ Apart (stubNames bs) as := by
  constructor
  · intro h n hn hstub
    obtain ⟨a, ha, rfl⟩ := List.mem_map.mp hn
    obtain ⟨b, hb, hisStub, hname⟩ := mem_stubNames.mp hstub
    exact h ⟨b, hb, hisStub, a, ha, hname.symm⟩
  · rintro h ⟨b, hb, hisStub, a, ha, hname⟩
    exact h _ (List.mem_map_of_mem ha) (mem_stubNames.mpr ⟨b, hb, hisStub, hname.symm⟩)

/-- The walks from a class in two sessions both end or neither does, and no stub of the second
masks a class of the first. -/
structure WalksApart (c : Class) (s t : Session) : Prop where
  ends : (ancestors c s).1.isSome = (ancestors c t).1.isSome
  apart : ∀ as ∈ (ancestors c s).1, ∀ bs ∈ (ancestors c t).1, ¬ Masks bs as

/-- Unless a stub masks a class, the classes above a class are the same with a stub in the chain as
without, but for stubs, and the sessions stay beside each other. -/
theorem Beside.ancestors (h : s.Beside t) {c : Class} (hapart : WalksApart c s t) :
    (Session.ancestors c s).1 = (Session.ancestors c t).1.map withoutStubs ∧
      Beside (Session.ancestors c s).2 (Session.ancestors c t).2 := by
  obtain ⟨hends, hmasks⟩ := hapart
  cases hs : (Session.ancestors c s).1 with
  | none =>
    have ht : (Session.ancestors c t).1 = none := by simpa [hs] using hends
    rw [ancestors_eq_none hs, ancestors_eq_none ht]
    exact ⟨rfl, h⟩
  | some as =>
    obtain ⟨bs, ht⟩ : ∃ bs, (Session.ancestors c t).1 = some bs := by
      simpa [hs, Option.isSome_iff_exists] using hends
    have hwalk := walksAbove_of_ancestors hs
    have hwalk' := walksAbove_of_ancestors ht
    have hunmasked := not_masks_iff.mp (hmasks as hs bs ht)
    obtain ⟨habove, hst⟩ := relates_directSupertypes c s t h
    obtain ⟨hqueue, hseen⟩ := foundBeside_enqueue habove [] (fun n => by simp)
      (hunmasked.mono (stubNames_mono hwalk'.queue_subset) hwalk.queue_subset)
    obtain ⟨hfound, hlast⟩ := hwalk'.beside hwalk hst hqueue hseen
      (hunmasked.mono (stubNames_mono hwalk'.queue_subset) (List.Subset.refl _)) hunmasked
    rw [ht, Option.map_some]
    exact ⟨congrArg some hfound.rest.symm, hlast⟩

/-- The stubs apart, the classes above a class are the same in both sessions just when no stub masks
a class. -/
theorem Beside.ancestors_iff (h : s.Beside t) (c : Class) :
    (Session.ancestors c s).1 = (Session.ancestors c t).1.map withoutStubs ↔ WalksApart c s t := by
  refine ⟨fun hsame => ⟨?_, ?_⟩, fun hapart => (h.ancestors hapart).1⟩
  · rw [hsame, Option.isSome_map]
  · rintro as has bs hbs ⟨b, hb, hstub, a, ha, hname⟩
    rw [hsame, hbs] at has
    obtain rfl := Option.some.inj has
    obtain ⟨ha, hclass⟩ := List.mem_filter.mp ha
    obtain rfl : a = b := List.inj_on_of_nodup_map (ancestors_distinct hbs) ha hb hname
    simp [hstub] at hclass

theorem any_withoutStubs (bs : List Answer) (fullName : String) :
    (bs.any fun b => b.found.fullName = fullName) =
      ((withoutStubs bs).any (fun a => a.found.fullName = fullName) ||
        decide (fullName ∈ stubNames bs)) := by
  rw [Bool.eq_iff_iff]
  simp only [Bool.or_eq_true, List.any_eq_true, decide_eq_true_eq, mem_stubNames, withoutStubs,
    List.mem_filter, Bool.not_eq_true']
  constructor
  · rintro ⟨b, hb, hname⟩
    cases hstub : b.found.isStub with
    | true => exact .inr ⟨b, hb, hstub, hname⟩
    | false => exact .inl ⟨b, ⟨hb, hstub⟩, hname⟩
  · rintro (⟨b, ⟨hb, _⟩, hname⟩ | ⟨b, hb, _, hname⟩) <;> exact ⟨b, hb, hname⟩

/-- A class is what its own name says, and what the names of the classes above it say. -/
theorem isA_iff {c : Class} {fullName : String} {s : Session} :
    (isA c fullName s).1 = some true ↔
      c.fullName = fullName ∨ ∃ as ∈ (ancestors c s).1, fullName ∈ names as := by
  rw [isA_eq]
  by_cases hself : c.fullName = fullName
  · rw [if_pos hself]
    exact iff_of_true rfl (.inl hself)
  · rw [if_neg hself, or_iff_right hself, Option.map_eq_some_iff]
    refine exists_congr fun as => and_congr_right fun _ => ?_
    rw [List.any_eq_true, names, List.mem_map]
    simp only [decide_eq_true_eq]

/-- A class is below the same classes in both sessions, and with a stub in the chain it is also
below the stubs above it. -/
theorem Beside.isA (h : s.Beside t) {c : Class} {fullName : String}
    (hapart : c.fullName = fullName ∨ WalksApart c s t) :
    ((Session.isA c fullName s).1 = (Session.isA c fullName t).1 ∨
      ((Session.isA c fullName s).1 = some false ∧ (Session.isA c fullName t).1 = some true ∧
        ∃ bs ∈ (Session.ancestors c t).1, fullName ∈ stubNames bs)) ∧
      Beside (Session.isA c fullName s).2 (Session.isA c fullName t).2 := by
  rw [isA_eq, isA_eq]
  by_cases hself : c.fullName = fullName
  · rw [if_pos hself, if_pos hself]
    exact ⟨.inl rfl, h⟩
  · obtain ⟨hanswers, hst⟩ := h.ancestors (hapart.resolve_left hself)
    rw [if_neg hself, if_neg hself]
    refine ⟨?_, hst⟩
    dsimp only
    rw [hanswers]
    cases (Session.ancestors c t).1 with
    | none => exact .inl rfl
    | some bs =>
      simp only [Option.map_some, Option.mem_def, Option.some_inj, exists_eq_left',
        any_withoutStubs bs]
      cases (withoutStubs bs).any fun a => a.found.fullName = fullName with
      | true => exact .inl rfl
      | false =>
        by_cases hstub : fullName ∈ stubNames bs
        · exact .inr ⟨rfl, by simp [hstub], hstub⟩
        · exact .inl (by simp [hstub])

end JavaModel.Session
