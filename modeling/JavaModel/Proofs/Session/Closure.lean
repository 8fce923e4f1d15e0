import JavaModel.Proofs.Session.Climbing
import JavaModel.Proofs.Session.Levels
import JavaModel.Proofs.Session.Unmoved

/-! The classes above a class are its closure under superclasses and interfaces. Where no strategy
reads source files, a name stands for one class, and the classes directly above it stay the same
during a walk. So the walk goes through them level by level, and ends if they are finitely many. -/

namespace JavaModel.Session

variable {s t : Session} {a b c : Answer} {n : Nat} {name : String} {seen : List String}
  {round waiting found : List Answer}

/-- The class is the one that is found under its name. -/
def Owns (s : Session) (a : Answer) : Prop := (classNamed a.found.fullName s).1 = some a

theorem Owns.unique (ha : s.Owns a) (hb : s.Owns b) (h : a.found.fullName = b.found.fullName) :
    a = b := by
  rw [Owns, h] at ha
  exact Option.some.inj (ha.symm.trans hb)

theorem Reachable.owns (h : s.Reachable) (ha : (classNamed name s).1 = some a) : s.Owns a := by
  have hname : a.found.fullName = name :=
    fullName_of_consult h.regular.sound.entries h.isFilled ha
  rwa [Owns, hname]

variable (h : s.Rigid)

include h

theorem Rigid.lists_owned (ha : s.Owns a) : a.found.Refs s.Lists :=
  h.reachable.lists_found h.rootless ha

/-- What is directly above a class is found under its name. -/
theorem Rigid.owns_above (ha : s.Owns a) : ∀ b ∈ s.above a, s.Owns b := by
  have hnamed (name : String) :
      Query.Ensures s.Unmoved (classNamed name) fun answer => ∀ b ∈ answer, s.Owns b :=
    (h.lasting_classNamed name).mono fun _ hsame b hb =>
      h.reachable.owns (hsame.symm.trans (Option.mem_def.mp hb))
  have hrefs := h.lists_owned ha
  have howns := ensures_directSupertypes hnamed (c := a.found) fun r hr =>
    (h.lasting_resolveRef (hrefs.supertypes r hr)).mono fun _ _ => trivial
  have hsame := (h.lasting_directSupertypes hrefs s h.unmoved).2
  rw [← hsame]
  exact (howns s h.unmoved).2

theorem Rigid.owns_steps (ha : s.Owns a) (hb : Steps s.above a n b) : s.Owns b := by
  induction hb with
  | here => exact ha
  | up _ habove ih => exact h.owns_above ih _ habove

theorem Rigid.unequivocal (ha : s.Owns a) : Unequivocal s.above a := fun hb hc hsame =>
  (h.owns_steps ha hb).unique (h.owns_steps ha hc) hsame

/-- A walk takes the classes of a round one after the other, and what is new above them waits behind
whatever waited before. -/
theorem Rigid.walks_round (ht : s.Unmoved t) (hround : ∀ a ∈ round, s.Owns a) {t' : Session}
    (hwalks : Walks seen (round ++ waiting) t found t') : ∃ rest u, found = round ++ rest ∧
      s.Unmoved u ∧ Walks (enqueue seen (round.flatMap s.above)).2
        (waiting ++ (enqueue seen (round.flatMap s.above)).1) u rest t' := by
  induction round generalizing seen t waiting found with
  | nil =>
    rw [List.flatMap_nil, enqueue, List.append_nil]
    exact ⟨found, t, rfl, ht, hwalks⟩
  | cons a as ih =>
    obtain ⟨ha, has⟩ := List.forall_mem_cons.mp hround
    rw [List.cons_append] at hwalks
    cases hwalks with
    | next more =>
      obtain ⟨hunmoved, hsame⟩ := h.lasting_directSupertypes (h.lists_owned ha) t ht
      rw [hsame, List.append_assoc] at more
      obtain ⟨rest, u, rfl, hu, hrest⟩ := ih hunmoved has more
      refine ⟨rest, u, rfl, hu, ?_⟩
      rw [List.flatMap_cons, enqueue_append, ← List.append_assoc]
      exact hrest

/-- A walk upwards goes level by level over what is directly above a class now. -/
theorem Rigid.levels (ht : s.Unmoved t) (hround : ∀ a ∈ round, s.Owns a) {t' : Session}
    (hwalks : Walks seen round t found t') : Levels s.above seen round found := by
  induction hlength : found.length using Nat.strong_induction_on
    generalizing seen round t found with
  | _ length ih =>
    cases round with
    | nil =>
      cases hwalks
      exact .done
    | cons a as =>
      rw [← List.append_nil (a :: as)] at hwalks
      obtain ⟨rest, u, rfl, hu, hrest⟩ := h.walks_round ht hround hwalks
      refine .round (ih rest.length ?_ hu (fun b hb => ?_) hrest rfl)
      · rw [← hlength, List.length_append, List.length_cons]
        omega
      · obtain ⟨p, hp, hb⟩ := List.mem_flatMap.mp (mem_of_mem_enqueue hb)
        exact h.owns_above (hround p hp) b hb

theorem Rigid.levels_ancestors (ha : s.Owns a) (hfound : (ancestors a.found s).1 = some found) :
    Levels s.above [a.found.fullName] [a] (a :: found) := by
  obtain ⟨hunmoved, hsame⟩ := h.lasting_directSupertypes (h.lists_owned ha) s h.unmoved
  have hwalks := walksAbove_of_ancestors hfound
  rw [WalksAbove, hsame] at hwalks
  refine .round ?_
  rw [List.flatMap_singleton]
  exact h.levels hunmoved (fun b hb => h.owns_above ha b (mem_of_mem_enqueue hb)) hwalks

theorem Rigid.closure (ha : s.Owns a) (hfound : (ancestors a.found s).1 = some found) :
    Closure s.above a found :=
  (h.levels_ancestors ha hfound).closure (h.unequivocal ha)

/-- There is an end to a walk just when the classes above its first class are finitely many. -/
theorem Rigid.ends_iff (ha : s.Owns a) : (∃ found t, WalksAbove a.found s found t) ↔
    ∃ all : List Answer, ∀ b, Relation.TransGen (fun p q => q ∈ s.above p) a b → b ∈ all := by
  constructor
  · rintro ⟨found, t, hwalks⟩
    have hclosure := h.closure ha (congrArg Prod.fst hwalks.ancestors)
    refine ⟨a :: found, fun b hb => ?_⟩
    by_cases hself : b = a
    · exact hself ▸ List.mem_cons_self ..
    · exact List.mem_cons_of_mem a ((hclosure.members b).mpr ⟨hb, hself⟩)
  · rintro ⟨all, hall⟩
    let A (b : Answer) : Prop := s.Owns b ∧ Relation.TransGen (fun p q => q ∈ s.above p) a b
    have hknown (b : Answer) (hb : A b) : Known (names all) b :=
      .inr (List.mem_map_of_mem (hall b hb.2))
    have hnext (b : Answer) (hb : A b) :
        Query.Ensures s.Unmoved (directSupertypes b.found) fun above => ∀ d ∈ above, A d :=
      (h.lasting_directSupertypes (h.lists_owned hb.1)).mono fun _ habove d hd => by
        rw [habove] at hd
        exact ⟨h.owns_above hb.1 d hd, hb.2.tail hd⟩
    obtain ⟨hunmoved, habove⟩ := h.lasting_directSupertypes (h.lists_owned ha) s h.unmoved
    refine exists_walks hknown hnext hunmoved fun b hb => ?_
    have hb := mem_of_mem_enqueue hb
    rw [habove] at hb
    exact ⟨h.owns_above ha b hb, .single hb⟩

/-! ### Questions before a walk -/

/-- Questions do not change which class is found under a name. -/
theorem Rigid.questioned (ht : s.Questioned t) (ha : s.Owns a) : t.Rigid ∧ t.Owns a := by
  have hfixed : s.Fixed t := ht.keeps (fun hs q => ask_keeps
    (fun hs onlyExisting name => (hs.find onlyExisting name).2) (fun hs _ _ => hs.record _) hs q)
    h.fixed
  refine ⟨⟨h.reachable.later ht.later, hfixed.rootless⟩, ?_⟩
  exact (hfixed.same_answer h.fixed false _).trans ha

omit h

/-- In any session the classes above a class are those that the loop over a queue lists, and there
are no answers if the loop has no end. If the registries are finite it has one, whatever is said to
the session in the meantime and whatever the source roots read during the walk. If the chain has no
source roots, and a class was found under a name, then whatever is asked in the meantime, the loop has
an end just when the classes above this class are finitely many. What it lists is then their closure,
and the class is what its own name and their names say. -/
theorem ancestors_closure (h : s.Reachable) :
    (∀ c found t, ancestors c s = (some found, t) ↔ WalksAbove c s found t) ∧
    (s.IsFinite → ∀ c t, s.Later t → ∃ found t', WalksAbove c t found t') ∧
    (s.Rootless → ∀ name a t, (classNamed name s).1 = some a → s.Questioned t →
      ((∃ found t', WalksAbove a.found t found t') ↔
        ∃ all : List Answer, ∀ b, Relation.TransGen (fun p q => q ∈ t.above p) a b → b ∈ all) ∧
      ∀ found, (ancestors a.found t).1 = some found → Closure t.above a found ∧
        ∀ fullName, (isA a.found fullName t).1 = some true ↔
          a.found.fullName = fullName ∨ fullName ∈ names found) := by
  refine ⟨fun _ _ _ => ancestors_eq_some_iff, fun hfinite c t ht => ?_,
    fun hroots name a t ha ht => ?_⟩
  · obtain ⟨found, hfound⟩ := Option.isSome_iff_exists.mp (h.isSome_ancestors hfinite ht c)
    exact ⟨found, _, walksAbove_of_ancestors hfound⟩
  · obtain ⟨hrigid, howns⟩ := Rigid.questioned ⟨h, hroots⟩ ht (h.owns ha)
    refine ⟨hrigid.ends_iff howns, fun found hfound => ⟨hrigid.closure howns hfound, ?_⟩⟩
    intro fullName
    rw [isA_iff, hfound]
    simp

/-- Two classes that extend each other, with an interface in common. -/
theorem ancestors_closure_cycle :
    let s := (converse [.add (.text ⟨"A.java"⟩
      "package c; class A extends B implements I, J {} class B extends A implements J {}
        interface I extends K {} interface J {} interface K {}")]
      (standard .standard (.empty ⟨"/"⟩))).2
    let t := (unresolved s).2
    s.Reachable ∧ s.IsFinite ∧ s.Rootless ∧ s.Questioned t ∧ ∃ a, (classNamed "c.A" s).1 = some a ∧
      ∃ found t', WalksAbove a.found t found t' ∧ names found = ["c.B", "c.I", "c.J", "c.K"] ∧
        Closure t.above a found ∧ (isA a.found "c.K" t).1 = some true := by
  intro s t
  have hreachable : s.Reachable := ⟨_, _, _, _, rfl⟩
  have hrootless : s.Rootless := by
    unfold Rootless
    decide +kernel
  have hfinite : s.IsFinite :=
    (isFinite_standard .standard (.empty ⟨"/"⟩)).later (sound_start _ _ _) ⟨_, rfl⟩
  obtain ⟨a, ha, found, hwithin, hname⟩ : ∃ a ∈ (classNamed "c.A" s).1,
      ∃ found ∈ (ancestorsWithin 4 a.found t).1,
        names found = ["c.B", "c.I", "c.J", "c.K"] := by
    decide +kernel
  clear_value s
  have hquestioned : s.Questioned t := (Questioned.refl s).ask .unresolved
  clear_value t
  have hfound : (ancestors a.found t).1 = some found := by
    rw [ancestors_of_within 4 (Option.isSome_of_mem hwithin)]
    exact hwithin
  obtain ⟨-, -, hclosed⟩ := ancestors_closure hreachable
  obtain ⟨-, hlisted⟩ := hclosed hrootless "c.A" a t (Option.mem_def.mp ha) hquestioned
  obtain ⟨hclosure, hmeans⟩ := hlisted found hfound
  refine ⟨hreachable, hfinite, hrootless, hquestioned, a, Option.mem_def.mp ha, found, _,
    walksAbove_of_ancestors hfound, hname, hclosure, (hmeans _).mpr (.inr ?_)⟩
  rw [hname]
  decide

end JavaModel.Session
