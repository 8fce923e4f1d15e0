import Mathlib.Data.List.Nodup
import Mathlib.Logic.Relation
import JavaModel.Proofs.SourceSet

/-! Source sets as they are filled: ids are handed out, and units read under them are added, in any
order. `Indexed` says what a set stands for, by the list of all classes of its units. It holds where
the units have ids of their own and the index was made of their classes (`Consistent`), and the ids
handed out are of that kind (`Filling.Fair`). -/

namespace JavaModel

/-- Under a key that no two members share there is the member that has it. -/
theorem find?_key {α κ : Type} [DecidableEq κ] {key : α → κ} {as : List α}
    (h : (as.map key).Nodup) {k : κ} {a : α} :
    (as.find? fun a => key a = k) = some a ↔ a ∈ as ∧ key a = k := by
  constructor
  · intro hfind
    exact ⟨List.mem_of_find?_eq_some hfind, of_decide_eq_true (List.find?_some hfind :)⟩
  · rintro ⟨hmem, hkey⟩
    obtain ⟨b, hb⟩ : ∃ b, (as.find? fun a => key a = k) = some b :=
      Option.isSome_iff_exists.mp (List.find?_isSome.mpr ⟨a, hmem, decide_eq_true hkey⟩)
    have hsame : key b = key a := (of_decide_eq_true (List.find?_some hb :)).trans hkey.symm
    rw [hb, List.inj_on_of_nodup_map h (List.mem_of_find?_eq_some hb) hmem hsame]

/-! ### Steps -/

/-- A source set and the ids that it handed out and that no unit of it has. -/
structure Filling where
  set : SourceSet
  unused : List UnitId

namespace Filling

/-- Nothing has been handed out. -/
def empty : Filling := ⟨.empty, []⟩

/-- An id is handed out. -/
def reserve (f : Filling) : Filling := ⟨f.set.reserveId.2, f.set.reserveId.1 :: f.unused⟩

/-- A unit takes its id. -/
def insert (f : Filling) (u : SourceUnit) : Filling := ⟨(f.set.insert u).1, f.unused.erase u.id⟩

/-- The unit was read from some text under an id that was handed out for it. -/
def Awaits (f : Filling) (u : SourceUnit) : Prop :=
  u.id ∈ f.unused ∧ ∃ path text, SourceUnit.ofText u.id path text = .ok u

/-- What may happen to a source set. -/
inductive Step (f : Filling) : Filling → Prop
  | reserve : Step f f.reserve
  | insert (u : SourceUnit) : f.Awaits u → Step f (f.insert u)

end Filling

/-! ### What an index stands for -/

namespace SourceSet

variable {s : SourceSet}

/-- All classes, in the order of units and of declarations. -/
def declared (s : SourceSet) : List Class := s.units.flatMap (·.classes)

/-- The first class with a full name. -/
def first? (s : SourceSet) (name : String) : Option Class :=
  s.declared.find? fun c => c.fullName = name

/-- The set stands for the classes of its units, of which the first of each name counts. -/
structure Indexed (s : SourceSet) : Prop where
  /-- No two units have one id. -/
  distinct : (s.units.map (·.id)).Nodup
  /-- A name has an entry just when some class of some unit has it, and then that of the first. -/
  index : ∀ name, (s.classId? name).isSome ↔ ∃ u ∈ s.units, ∃ c ∈ u.classes, c.fullName = name
  first : ∀ name id, s.classId? name = some id → ∃ c, s.first? name = some c ∧ c.id? = some id
  /-- The class of a name is the first, and there is one just when the set contains the name. -/
  class? : ∀ name, s.class? name = s.first? name
  contains : ∀ name, s.contains name = (s.class? name).isSome
  /-- The classes that count are listed in order, each once. -/
  listed : s.classes.Sublist s.declared
  once : (s.classes.map (·.fullName)).Nodup
  winners : ∀ c, c ∈ s.classes ↔ ∃ name, s.class? name = some c

end SourceSet

/-! ### Ids and places -/

namespace SourceUnit

variable {u : SourceUnit}

theorem Placed.id? (h : u.Placed) {n : Nat} {c : Class} (hc : u.classes[n]? = some c) :
    c.id? = some ⟨u.id, ⟨n⟩⟩ := by
  rw [Class.id?, h n c hc]

/-- No two classes of a unit have one id. -/
theorem Placed.nodup (h : u.Placed) : (u.classes.map (·.id?)).Nodup := by
  refine List.pairwise_iff_getElem.mpr fun i j hi hj hlt heq => ?_
  rw [List.length_map] at hi hj
  rw [List.getElem_map, List.getElem_map, h.id? (List.getElem?_eq_getElem hi),
    h.id? (List.getElem?_eq_getElem hj)] at heq
  cases heq
  exact Nat.lt_irrefl i hlt

theorem Placed.id?_of_mem (h : u.Placed) {c : Class} (hc : c ∈ u.classes) :
    ∃ id, c.id? = some id ∧ id.source = u.id := by
  obtain ⟨id, hid, hsource, _⟩ := h.class?_of_mem hc
  exact ⟨id, hid, hsource⟩

end SourceUnit

namespace SourceSet

variable {s : SourceSet}

/-- The first id under a name is that of the first class of the name. -/
theorem findSome?_id {cs : List Class} (h : ∀ c ∈ cs, c.id?.isSome) (name : String) :
    (cs.findSome? fun c => if c.fullName = name then c.id? else none) =
      (cs.find? fun c => c.fullName = name).bind (·.id?) := by
  induction cs with
  | nil => rfl
  | cons c cs ih =>
    have hrest := ih fun d hd => h d (List.mem_cons_of_mem c hd)
    by_cases hname : c.fullName = name
    · obtain ⟨id, hid⟩ := Option.isSome_iff_exists.mp (h c (List.mem_cons_self ..))
      simp [hname, hid]
    · simpa [hname] using hrest

/-- Units have ids of their own and classes that are placed, and the index is that of all classes. -/
structure Consistent (s : SourceSet) : Prop where
  distinct : (s.units.map (·.id)).Nodup
  placed : ∀ u ∈ s.units, u.Placed
  index : ∀ name, s.classId? name =
    s.declared.findSome? fun c => if c.fullName = name then c.id? else none

theorem consistent_empty : empty.Consistent :=
  ⟨.nil, fun _ h => (List.not_mem_nil h).elim, fun _ => rfl⟩

/-- Ids may be handed out. -/
theorem Consistent.reserve (h : s.Consistent) (n : Nat) :
    ({ s with nextId := n } : SourceSet).Consistent := ⟨h.distinct, h.placed, h.index⟩

theorem declared_insert (s : SourceSet) (u : SourceUnit) :
    (s.insert u).1.declared = s.declared ++ u.classes := by
  simp [declared, SourceSet.insert]

/-- A unit with an id of its own is added. -/
theorem Consistent.insert (h : s.Consistent) {u : SourceUnit} (hplaced : u.Placed)
    (hown : ∀ v ∈ s.units, v.id ≠ u.id) : (s.insert u).1.Consistent := by
  refine ⟨?_, fun v hv => ?_, fun name => ?_⟩
  · change ((s.units ++ [u]).map (·.id)).Nodup
    rw [List.map_append, List.map_singleton, List.nodup_append]
    refine ⟨h.distinct, List.nodup_singleton _, fun id hid id' hid' => ?_⟩
    obtain ⟨v, hv, rfl⟩ := List.mem_map.mp hid
    obtain rfl := List.mem_singleton.mp hid'
    exact hown v hv
  · rcases List.mem_append.mp hv with hv | hv
    · exact h.placed v hv
    · exact List.mem_singleton.mp hv ▸ hplaced
  · change (enter s.index u.classes).1.find? name =
      (s.insert u).1.declared.findSome? fun c => if c.fullName = name then c.id? else none
    rw [find?_enter, declared_insert, List.findSome?_append, ← h.index]
    rfl

/-! ### What consistency means -/

theorem Consistent.unit? (h : s.Consistent) (hu : u ∈ s.units) : s.unit? u.id = some u :=
  (find?_key h.distinct).mpr ⟨hu, rfl⟩

/-- The id of a declared class leads to the class. -/
theorem Consistent.class?_of_mem (h : s.Consistent) {c : Class} (hc : c ∈ s.declared) :
    ∃ id, c.id? = some id ∧ (s.unit? id.source).bind (·.class? id) = some c := by
  obtain ⟨u, hu, hcu⟩ := List.mem_flatMap.mp hc
  obtain ⟨id, hid, hsource, hclass⟩ := (h.placed u hu).class?_of_mem hcu
  exact ⟨id, hid, by rw [hsource, h.unit? hu]; exact hclass⟩

theorem Consistent.id?_isSome (h : s.Consistent) : ∀ c ∈ s.declared, c.id?.isSome := by
  intro c hc
  obtain ⟨id, hid, _⟩ := h.class?_of_mem hc
  rw [hid]
  rfl

/-- The index leads to the first class of a name. -/
theorem Consistent.classId? (h : s.Consistent) (name : String) :
    s.classId? name = (s.first? name).bind (·.id?) := by
  rw [h.index, findSome?_id h.id?_isSome]
  rfl

theorem mem_of_first? {name : String} {c : Class} (h : s.first? name = some c) :
    c ∈ s.declared ∧ c.fullName = name :=
  ⟨List.mem_of_find?_eq_some h, of_decide_eq_true (List.find?_some h :)⟩

theorem Consistent.class? (h : s.Consistent) (name : String) : s.class? name = s.first? name := by
  have hindex := h.classId? name
  cases hfirst : s.first? name with
  | none =>
    rw [hfirst] at hindex
    simp [SourceSet.class?, hindex]
  | some c =>
    obtain ⟨id, hid, hclass⟩ := h.class?_of_mem (mem_of_first? hfirst).1
    rw [hfirst, Option.bind_some, hid] at hindex
    simp only [SourceSet.class?, hindex, Option.bind_eq_bind, Option.bind_some]
    exact hclass

/-- A class is determined by its id. -/
theorem Consistent.eq_of_id? (h : s.Consistent) {c d : Class} (hc : c ∈ s.declared)
    (hd : d ∈ s.declared) (heq : c.id? = d.id?) : c = d := by
  obtain ⟨id, hid, hclass⟩ := h.class?_of_mem hc
  obtain ⟨id', hid', hclass'⟩ := h.class?_of_mem hd
  obtain rfl : id = id' := Option.some.inj (hid.symm.trans (heq.trans hid'))
  exact Option.some.inj (hclass.symm.trans hclass')

theorem classes_eq (s : SourceSet) : s.classes = s.declared.filter s.isIndexed :=
  (List.filter_flatMap ..).symm

/-- The classes that count are those that the index leads to. -/
theorem Consistent.mem_classes (h : s.Consistent) {c : Class} :
    c ∈ s.classes ↔ s.first? c.fullName = some c := by
  rw [classes_eq, List.mem_filter]
  constructor
  · rintro ⟨hc, hcounts⟩
    obtain ⟨id, hid, _⟩ := h.class?_of_mem hc
    simp only [isIndexed, hid, decide_eq_true_eq, h.classId?] at hcounts
    obtain ⟨d, hd, hdid⟩ := Option.bind_eq_some_iff.mp hcounts
    rw [hd, h.eq_of_id? hc (mem_of_first? hd).1 (hid.trans hdid.symm)]
  · intro hfirst
    have hc := (mem_of_first? hfirst).1
    obtain ⟨id, hid, _⟩ := h.class?_of_mem hc
    refine ⟨hc, ?_⟩
    simp only [isIndexed, hid, decide_eq_true_eq, h.classId?, hfirst, Option.bind_some]

/-- No two declared classes have one id. -/
theorem Consistent.nodup (h : s.Consistent) : (s.declared.map (·.id?)).Nodup := by
  rw [declared, List.map_flatMap, List.nodup_flatMap]
  refine ⟨fun u hu => (h.placed u hu).nodup, ?_⟩
  refine (List.pairwise_map.mp h.distinct).imp_of_mem fun {u v} hu hv hne => ?_
  intro id hid hid'
  obtain ⟨c, hc, rfl⟩ := List.mem_map.mp hid
  obtain ⟨d, hd, heq⟩ := List.mem_map.mp hid'
  obtain ⟨i, hi, hsource⟩ := (h.placed u hu).id?_of_mem hc
  obtain ⟨j, hj, hsource'⟩ := (h.placed v hv).id?_of_mem hd
  rw [hi, hj] at heq
  rw [← hsource, ← hsource', Option.some.inj heq] at hne
  exact hne rfl

/-- A name that leads to a class leads to its id too, and the other way round. -/
theorem Consistent.isSome_classId? (h : s.Consistent) (name : String) :
    (s.classId? name).isSome = (s.first? name).isSome := by
  rw [h.classId?]
  cases hfirst : s.first? name with
  | none => rfl
  | some c =>
    rw [Option.bind_some, h.id?_isSome c (mem_of_first? hfirst).1]
    rfl

theorem Consistent.indexed (h : s.Consistent) : s.Indexed := by
  refine
    { distinct := h.distinct
      index := fun name => ?_
      first := fun name id hid => Option.bind_eq_some_iff.mp ((h.classId? name).symm.trans hid)
      class? := h.class?
      contains := fun name => ?_
      listed := by rw [classes_eq]; exact List.filter_sublist
      once := ?_
      winners := fun c => ?_ }
  · rw [h.isSome_classId?, first?, List.find?_isSome]
    simp only [declared, List.mem_flatMap, decide_eq_true_eq]
    constructor
    · rintro ⟨c, ⟨u, hu, hc⟩, hname⟩
      exact ⟨u, hu, c, hc, hname⟩
    · rintro ⟨u, hu, c, hc, hname⟩
      exact ⟨c, ⟨u, hu, hc⟩, hname⟩
  · rw [h.class?, ← h.isSome_classId?]
    rfl
  · -- Classes with one name that both count would have one id.
    have hids : (s.classes.map (·.id?)).Nodup := by
      rw [classes_eq]
      exact h.nodup.sublist (List.filter_sublist.map _)
    refine List.pairwise_map.mpr ((List.pairwise_map.mp hids).imp_of_mem fun {c d} hc hd hne => ?_)
    intro hname
    have hfirst := h.mem_classes.mp hc
    rw [hname, h.mem_classes.mp hd] at hfirst
    exact hne (congrArg (·.id?) (Option.some.inj hfirst).symm)
  · rw [h.mem_classes]
    constructor
    · intro hfirst
      exact ⟨c.fullName, (h.class? _).trans hfirst⟩
    · rintro ⟨name, hc⟩
      rw [h.class?] at hc
      rwa [(mem_of_first? hc).2]

end SourceSet

/-! ### What every step preserves -/

namespace Filling

open SourceSet

variable {f g : Filling} {u : SourceUnit}

/-- Ids are handed out once and used once, and the index is that of the classes declared. -/
structure Fair (f : Filling) : Prop where
  ids : (f.unused ++ f.set.units.map (·.id)).Nodup
  below : ∀ id ∈ f.unused ++ f.set.units.map (·.id), id.number < f.set.nextId
  consistent : f.set.Consistent

theorem fair_empty : empty.Fair := ⟨.nil, fun _ h => (List.not_mem_nil h).elim, consistent_empty⟩

theorem Fair.reserve (h : f.Fair) : f.reserve.Fair := by
  refine ⟨List.nodup_cons.mpr ⟨fun hmem => ?_, h.ids⟩, fun id hid => ?_, h.consistent.reserve _⟩
  · exact Nat.lt_irrefl _ (h.below _ hmem)
  · change id.number < f.set.nextId + 1
    rcases List.mem_cons.mp hid with rfl | hid
    · exact Nat.lt_succ_self _
    · exact Nat.lt_succ_of_lt (h.below id hid)

/-- The ids handed out stay the same when a unit takes one of them. -/
theorem perm_insert {unused : List UnitId} {units : List SourceUnit} (hu : u.id ∈ unused) :
    (unused.erase u.id ++ (units ++ [u]).map (·.id)).Perm (unused ++ units.map (·.id)) := by
  rw [List.map_append, ← List.append_assoc]
  exact (List.perm_append_singleton u.id _).trans ((List.perm_cons_erase hu).append_right _).symm

/-- Where the ids handed out are distinct, one that has not been used is no unit's. -/
theorem own_of_nodup (h : (f.unused ++ f.set.units.map (·.id)).Nodup) (hu : u.id ∈ f.unused) :
    ∀ v ∈ f.set.units, v.id ≠ u.id :=
  fun _ hv heq => List.disjoint_of_nodup_append h hu (heq ▸ List.mem_map_of_mem hv)

theorem Awaits.placed (h : f.Awaits u) : u.Placed := by
  obtain ⟨_, path, text, hread⟩ := h
  exact (SourceUnit.ofText_places hread).2

theorem Fair.insert (h : f.Fair) (hu : f.Awaits u) : (f.insert u).Fair :=
  have hperm : ((f.insert u).unused ++ (f.insert u).set.units.map (·.id)).Perm _ :=
    perm_insert hu.1
  ⟨hperm.nodup_iff.mpr h.ids, fun id hid => h.below id (hperm.mem_iff.mp hid),
    h.consistent.insert hu.placed (own_of_nodup h.ids hu.1)⟩

theorem Fair.step (h : f.Fair) (hstep : f.Step g) : g.Fair := by
  cases hstep with
  | reserve => exact h.reserve
  | insert u hu => exact h.insert hu

theorem Fair.reach (h : f.Fair) (hreach : Relation.ReflTransGen Step f g) : g.Fair := by
  induction hreach with
  | refl => exact h
  | tail _ hstep ih => exact ih.step hstep

end Filling

end JavaModel
