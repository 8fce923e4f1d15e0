import Mathlib.Data.List.Perm.Subperm
import JavaModel.Proofs.Session.Regular
import JavaModel.Proofs.SourceSet.Reordering

/-! Texts added in different orders. If no two of their classes have one full name, no question but
for lists of all units, classes or references tells the order, apart from the ids of the units, each
of which goes with its text. -/

namespace JavaModel

/-- The places of a list as those behind one more member. -/
def placesBehind (σ : Nat ↪ Nat) : Nat ↪ Nat where
  toFun
    | 0 => 0
    | n + 1 => σ n + 1
  inj' := by
    intro m n heq
    cases m with
    | zero =>
      cases n with
      | zero => rfl
      | succ n => exact absurd heq.symm (Nat.succ_ne_zero _)
    | succ m =>
      cases n with
      | zero => exact absurd heq (Nat.succ_ne_zero _)
      | succ n => exact congrArg (· + 1) (σ.injective (Nat.succ.inj heq))

/-- A list in another order, place by place. -/
theorem exists_reordering {α : Type} {as bs : List α} (h : as.Perm bs) :
    ∃ σ : Nat ↪ Nat, (∀ n, bs[σ n]? = as[n]?) ∧ ∀ n, as.length ≤ n → σ n = n := by
  -- Along the steps of the permutation, each of which says where its places go.
  induction h with
  | nil => exact ⟨.refl Nat, fun _ => rfl, fun _ _ => rfl⟩
  | cons a _ ih =>
    obtain ⟨σ, hσ, hbeyond⟩ := ih
    refine ⟨placesBehind σ, fun n => ?_, fun n hn => ?_⟩
    · cases n with
      | zero => rfl
      | succ n => exact hσ n
    · obtain ⟨n, rfl⟩ : ∃ m, n = m + 1 := ⟨n - 1, by grind⟩
      exact congrArg (· + 1) (hbeyond n (Nat.le_of_succ_le_succ hn))
  | swap a b as =>
    refine ⟨(Equiv.swap 0 1).toEmbedding, fun n => ?_, fun n hn => ?_⟩
    · rcases n with _ | _ | n
      · rfl
      · rfl
      · have : Equiv.swap 0 1 (n + 2) = n + 2 := Equiv.swap_apply_of_ne_of_ne (by omega) (by omega)
        change (a :: b :: as)[Equiv.swap 0 1 (n + 2)]? = _
        rw [this]
        rfl
    · have hlength : 2 ≤ n := by
        simp only [List.length_cons] at hn
        omega
      exact Equiv.swap_apply_of_ne_of_ne (by omega) (by omega)
  | trans h _ ih ih' =>
    obtain ⟨σ, hσ, hbeyond⟩ := ih
    obtain ⟨τ, hτ, hbeyond'⟩ := ih'
    refine ⟨σ.trans τ, fun n => (hτ (σ n)).trans (hσ n), fun n hn => ?_⟩
    change τ (σ n) = n
    rw [hbeyond n hn, hbeyond' n (h.length_eq ▸ hn)]

/-- The members with their places, in another order. -/
theorem zipIdx_perm {α : Type} {as bs : List α} (hperm : as.Perm bs) {σ : Nat ↪ Nat}
    (hσ : ∀ n, bs[σ n]? = as[n]?) :
    bs.zipIdx.Perm (as.zipIdx.map fun x => (x.1, σ x.2)) := by
  -- The two lists are as long, so it is enough that one is in the other without repetition.
  have hnodup : (as.zipIdx.map fun x => (x.1, σ x.2)).Nodup := by
    refine List.Nodup.map (fun x y heq => ?_) (.of_map Prod.snd ?_)
    · obtain ⟨h, h'⟩ := Prod.mk.inj heq
      exact Prod.ext h (σ.injective h')
    · rw [List.zipIdx_map_snd]
      exact List.nodup_range'
  have hsub : (as.zipIdx.map fun x => (x.1, σ x.2)) ⊆ bs.zipIdx := by
    intro y hy
    obtain ⟨x, hx, rfl⟩ := List.mem_map.mp hy
    rw [List.mem_zipIdx_iff_getElem?] at hx ⊢
    exact (hσ x.2).trans hx
  refine ((hnodup.subperm hsub).perm_of_length_le ?_).symm
  simp [hperm.length_eq]

/-- Each id goes to the place that its number goes to. -/
def Renaming.ofPlaces (σ : Nat ↪ Nat) : Renaming where
  toFun id := ⟨σ id.number⟩
  inj' := by
    rintro ⟨i⟩ ⟨j⟩ h
    rw [UnitId.mk.injEq] at h ⊢
    exact σ.injective h

namespace Session

variable {s t : Session} {xs : List (FilePath × String)}

/-- The full names of the classes that a text declares. A malformed text declares none. -/
def declaredNames (x : FilePath × String) : List String :=
  match SourceUnit.ofText ⟨0⟩ x.1 x.2 with
  | .ok u => u.classes.map (·.fullName)
  | .error _ => []

/-- The session behind texts that are added one after the other. -/
def withTexts (xs : List (FilePath × String)) (s : Session) : Session :=
  (converse (xs.map fun x => .add (.text x.1 x.2)) s).2

/-- The unit of a text under the id of its place. -/
def unitAt? (x : (FilePath × String) × Nat) : Option SourceUnit :=
  (SourceUnit.ofText ⟨x.2⟩ x.1.1 x.1.2).toOption

theorem unitAt?_rename (σ : Nat ↪ Nat) (x : FilePath × String) (n : Nat) :
    unitAt? (x, σ n) = (unitAt? (x, n)).map (SourceUnit.rename (.ofPlaces σ)) := by
  have hunit := SourceUnit.ofText_rename (.ofPlaces σ) ⟨n⟩ x.1 x.2
  change SourceUnit.ofText ⟨σ n⟩ x.1 x.2 = _ at hunit
  unfold unitAt?
  rw [hunit]
  cases SourceUnit.ofText ⟨n⟩ x.1 x.2 <;> rfl

theorem unitAt?_id {x : (FilePath × String) × Nat} {u : SourceUnit} (h : unitAt? x = some u) :
    u.id = ⟨x.2⟩ := by
  unfold unitAt? at h
  cases hread : SourceUnit.ofText ⟨x.2⟩ x.1.1 x.1.2 with
  | error e =>
    rw [hread] at h
    cases h
  | ok v =>
    rw [hread] at h
    cases h
    exact (SourceUnit.ofText_places hread).1

/-- Under whatever id, a text declares the same names. -/
theorem names_unitAt? (x : FilePath × String) (n : Nat) :
    ((unitAt? (x, n)).toList.flatMap (·.classes)).map (·.fullName) = declaredNames x := by
  have hunit := SourceUnit.ofText_rename (.shift 0 n) ⟨0⟩ x.1 x.2
  have hid : Renaming.shift 0 n ⟨0⟩ = ⟨n⟩ := by
    rw [show (⟨0⟩ : UnitId) = ⟨0 + 0⟩ from rfl, Renaming.shift_next]
    simp
  rw [hid] at hunit
  unfold unitAt? declaredNames
  rw [hunit]
  cases SourceUnit.ofText ⟨0⟩ x.1 x.2 with
  | error e => rfl
  | ok u => simp [Except.map, Except.toOption]

/-- Texts have been added. -/
structure Holds (xs : List (FilePath × String)) (s t : Session) : Prop where
  rest : t = { s with sources := t.sources }
  units : t.sources.units = s.sources.units ++ (xs.zipIdx s.sources.nextId).filterMap unitAt?
  nextId : t.sources.nextId = s.sources.nextId + xs.length
  fair : ∀ unused, Filling.Fair ⟨s.sources, unused⟩ → ∃ unused, Filling.Fair ⟨t.sources, unused⟩

theorem holds_addText (x : FilePath × String) (s : Session) :
    Holds [x] s (addText x.1 x.2 s).2 := by
  have hstate : (addText x.1 x.2 s).2 =
      (insertRead (SourceUnit.ofText ⟨s.sources.nextId⟩ x.1 x.2)
        (s.withNext (s.sources.nextId + 1))).2 := rfl
  have hunits : ([x].zipIdx s.sources.nextId).filterMap unitAt? =
      (SourceUnit.ofText ⟨s.sources.nextId⟩ x.1 x.2).toOption.toList := by
    simp only [List.zipIdx_singleton, List.filterMap_cons, List.filterMap_nil, unitAt?]
    cases SourceUnit.ofText ⟨s.sources.nextId⟩ x.1 x.2 <;> rfl
  cases hread : SourceUnit.ofText ⟨s.sources.nextId⟩ x.1 x.2 with
  | error e =>
    rw [hread] at hstate hunits
    rw [hstate]
    refine ⟨rfl, ?_, rfl, fun unused hfair => ⟨_, hfair.reserve⟩⟩
    rw [hunits]
    exact (List.append_nil _).symm
  | ok u =>
    rw [hread] at hstate hunits
    rw [hstate]
    refine ⟨rfl, ?_, rfl, fun unused hfair => ⟨_, hfair.reserve.insert (u := u) ⟨?_, ?_⟩⟩⟩
    · rw [hunits]
      rfl
    · rw [(SourceUnit.ofText_places hread).1]
      exact List.mem_cons_self ..
    · exact SourceUnit.isRead_ofText hread

theorem holds_withTexts (xs : List (FilePath × String)) (s : Session) :
    Holds xs s (withTexts xs s) := by
  induction xs generalizing s with
  | nil => exact ⟨rfl, (List.append_nil _).symm, rfl, fun unused hfair => ⟨unused, hfair⟩⟩
  | cons x xs ih =>
    have hfirst := holds_addText x s
    have hmore := ih (addText x.1 x.2 s).2
    have hcons : withTexts (x :: xs) s = withTexts xs (addText x.1 x.2 s).2 := by
      rw [withTexts, converse, List.map_cons, List.mapM_cons, bind_apply, bind_apply]
      rfl
    rw [hcons]
    refine ⟨?_, ?_, ?_, fun unused hfair => ?_⟩
    · rw [hmore.rest, hfirst.rest]
    · rw [hmore.units, hfirst.units, hfirst.nextId, List.append_assoc, ← List.filterMap_append]
      rfl
    · rw [hmore.nextId, hfirst.nextId]
      change s.sources.nextId + 1 + xs.length = s.sources.nextId + (xs.length + 1)
      omega
    · obtain ⟨unused, hfair⟩ := hfirst.fair unused hfair
      exact hmore.fair unused hfair

theorem names_unitsAt (xs : List (FilePath × String)) (n : Nat) :
    (((xs.zipIdx n).filterMap unitAt?).flatMap (·.classes)).map (·.fullName) =
      xs.flatMap declaredNames := by
  induction xs generalizing n with
  | nil => rfl
  | cons x xs ih =>
    rw [List.zipIdx_cons, List.flatMap_cons, ← names_unitAt? x n, ← ih (n + 1), List.filterMap_cons]
    cases unitAt? (x, n) <;> simp

/-- A new session with texts has their units, with ids of their own, and an index of these. -/
theorem withTexts_start (options : SessionOptions) (tree : FileTree) (parts : List ChainPart)
    (xs : List (FilePath × String)) :
    let t := withTexts xs (start options tree parts)
    t.sources.units = xs.zipIdx.filterMap unitAt? ∧ t.sources.Consistent := by
  have hxs := holds_withTexts xs (start options tree parts)
  obtain ⟨unused, hfair⟩ := hxs.fair [] Filling.fair_empty
  exact ⟨hxs.units, hfair.consistent⟩

/-- The id of a unit is the place of its text. -/
theorem unit?_withTexts (options : SessionOptions) (tree : FileTree) (parts : List ChainPart)
    (xs : List (FilePath × String)) (n : Nat) :
    (withTexts xs (start options tree parts)).sources.unit? ⟨n⟩ =
      xs[n]?.bind fun x => unitAt? (x, n) := by
  obtain ⟨hunits, hconsistent⟩ := withTexts_start options tree parts xs
  refine Option.ext fun u => ?_
  rw [SourceSet.unit?, find?_key hconsistent.distinct, hunits, List.mem_filterMap, Option.bind_eq_some_iff]
  constructor
  · rintro ⟨⟨⟨x, m⟩, hx, hu⟩, hid⟩
    have hm := unitAt?_id hu
    rw [hid, UnitId.mk.injEq] at hm
    subst hm
    exact ⟨x, List.mem_zipIdx_iff_getElem?.mp hx, hu⟩
  · rintro ⟨x, hx, hu⟩
    exact ⟨⟨(x, n), List.mem_zipIdx_iff_getElem?.mpr hx, hu⟩, unitAt?_id hu⟩

/-- Whatever the order of the texts, the sessions are the same but for ids and the order of units. -/
theorem alike_withTexts (options : SessionOptions) (tree : FileTree) (parts : List ChainPart)
    {ys : List (FilePath × String)} (hperm : xs.Perm ys)
    (hnames : (xs.flatMap declaredNames).Nodup) {σ : Nat ↪ Nat} (hσ : ∀ n, ys[σ n]? = xs[n]?)
    (hbeyond : ∀ n, xs.length ≤ n → σ n = n) :
    let s := start options tree parts
    (withTexts xs s).Alike (.ofPlaces σ) False (withTexts ys s) := by
  intro s
  have hxs := holds_withTexts xs s
  have hys := holds_withTexts ys s
  obtain ⟨hunits, hconsistent⟩ := withTexts_start options tree parts xs
  obtain ⟨hunits', hconsistent'⟩ := withTexts_start options tree parts ys
  generalize withTexts xs s = t at hxs hunits hconsistent ⊢
  generalize withTexts ys s = t' at hys hunits' hconsistent' ⊢
  have hsources : t.sources.Alike (.ofPlaces σ) False t'.sources := by
    refine hconsistent.alike hconsistent' ?_ ?_ fun n => ?_
    · rw [hunits, hunits', List.map_filterMap]
      refine ((zipIdx_perm hperm hσ).filterMap unitAt?).trans (.of_eq ?_)
      rw [List.filterMap_map]
      exact List.filterMap_congr fun y _ => unitAt?_rename σ y.1 y.2
    · rw [SourceSet.declared, hunits, names_unitsAt]
      exact hnames
    · rw [hxs.nextId, hys.nextId, ← hperm.length_eq]
      refine congrArg UnitId.mk (hbeyond _ ?_)
      change xs.length ≤ 0 + xs.length + n
      omega
  rw [hxs.rest, hys.rest]
  refine ⟨rfl, rfl, rfl, hsources, ?_, fun _ => rfl, rfl, rfl⟩
  refine List.forall₂_same.mpr fun e he => ?_
  obtain ⟨strategy, _, rfl⟩ := List.mem_map.mp he
  exact ChainEntry.alike_fresh strategy

/-- The order in which texts are added to a new session makes no difference to what is found and
resolved later. The id of each unit is the place of its text, and each id of the one session goes to
that of the same text in the other; with it go the answers. -/
theorem order_irrelevant (options : SessionOptions) (tree : FileTree) (parts : List ChainPart)
    {xs ys : List (FilePath × String)} (hperm : xs.Perm ys)
    (hnames : (xs.flatMap declaredNames).Nodup) :
    let s := start options tree parts
    (∀ zs ∈ [xs, ys], ∀ n,
        (withTexts zs s).sources.unit? ⟨n⟩ = zs[n]?.bind fun x => unitAt? (x, n)) ∧
      ∃ ρ : Renaming, (∀ n, ys[(ρ ⟨n⟩).number]? = xs[n]?) ∧
        ∀ qs : List Question, (∀ q ∈ qs, ¬ q.isListing) →
          (converse (qs.map fun q => .ask (q.rename ρ)) (withTexts ys s)).1 =
            (converse (qs.map .ask) (withTexts xs s)).1.map (Reply.rename ρ) := by
  intro s
  refine ⟨fun zs _ => unit?_withTexts options tree parts zs, ?_⟩
  obtain ⟨σ, hσ, hbeyond⟩ := exists_reordering hperm
  have halike := alike_withTexts options tree parts hperm hnames hσ hbeyond
  refine ⟨.ofPlaces σ, hσ, fun qs hqs => ?_⟩
  have hlisting (q : Question) (hq : Turn.ask q ∈ qs.map .ask) (hlists : q.isListing) : False := by
    obtain ⟨q', hq', heq⟩ := List.mem_map.mp hq
    cases heq
    exact hqs q hq' hlists
  have hreplies := (alike_converse (qs.map .ask) hlisting _ _ halike).1
  rw [List.map_map] at hreplies
  exact hreplies.symm

/-- A class and its superclass, which is in a text behind it. -/
def forward : List (FilePath × String) :=
  [(⟨"A.java"⟩, "package p; class A extends B \x7b\x7d"),
    (⟨"B.java"⟩, "package p; class B \x7b\x7d")]

theorem order_irrelevant_forward :
    let s := start .standard (.empty ⟨"/"⟩) SessionOptions.standard.parts
    (forward.Perm forward.reverse ∧ (forward.flatMap declaredNames).Nodup) ∧
      (∀ zs ∈ [forward, forward.reverse], ∀ n,
          (withTexts zs s).sources.unit? ⟨n⟩ = zs[n]?.bind fun x => unitAt? (x, n)) ∧
        ∃ ρ : Renaming, (∀ n, forward.reverse[(ρ ⟨n⟩).number]? = forward[n]?) ∧
          ∀ qs : List Question, (∀ q ∈ qs, ¬ q.isListing) →
            (converse (qs.map fun q => .ask (q.rename ρ)) (withTexts forward.reverse s)).1 =
              (converse (qs.map .ask) (withTexts forward s)).1.map (Reply.rename ρ) := by
  have hperm : forward.Perm forward.reverse := (List.reverse_perm _).symm
  have hnames : (forward.flatMap declaredNames).Nodup := by
    decide +kernel
  exact ⟨⟨hperm, hnames⟩, order_irrelevant .standard (.empty ⟨"/"⟩) _ hperm hnames⟩

end Session

end JavaModel
