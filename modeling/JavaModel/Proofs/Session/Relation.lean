import Mathlib.Data.List.Forall2
import JavaModel.Session

/-! One question put to two sessions. What is said of two sessions goes through a question step by
step: if each part of it has related answers and leaves the sessions related, so does the whole. -/

namespace JavaModel

variable {α β γ : Type} {S : Session → Session → Prop} {R : α → α → Prop} {R' : β → β → Prop}
  {q q' : Query α} {f f' : α → Query β}

/-- Asked of related sessions, the two questions have related answers and leave the sessions
related. -/
def Query.Relates (S : Session → Session → Prop) (R : α → α → Prop) (q q' : Query α) : Prop :=
  ∀ s t, S s t → R (q s).1 (q' t).1 ∧ S (q s).2 (q' t).2

namespace Query

theorem relates_pure {a a' : α} (h : R a a') : Relates S R (pure a) (pure a') :=
  fun _ _ hst => ⟨h, hst⟩

theorem relates_get : Relates S S (get : Query Session) (get : Query Session) :=
  fun _ _ hst => ⟨hst, hst⟩

theorem Relates.bind (hq : Relates S R q q') (hf : ∀ a a', R a a' → Relates S R' (f a) (f' a')) :
    Relates S R' (q >>= f) (q' >>= f') := by
  intro s t hst
  obtain ⟨hanswers, hstates⟩ := hq s t hst
  exact hf _ _ hanswers _ _ hstates

theorem Relates.bindEq (hq : Relates S Eq q q') (hf : ∀ a, Relates S R' (f a) (f' a)) :
    Relates S R' (q >>= f) (q' >>= f') :=
  hq.bind fun a _ h => h ▸ hf a

/-- The second question has the first one's answer in other words. -/
theorem Relates.bindMap {g : α → α} (hq : Relates S (g · = ·) q q')
    (hf : ∀ a, Relates S R' (f a) (f' (g a))) : Relates S R' (q >>= f) (q' >>= f') :=
  hq.bind fun a _ h => h ▸ hf a

theorem Relates.ite {c : Prop} [Decidable c] {r r' : Query α} (hq : Relates S R q q')
    (hr : Relates S R r r') : Relates S R (if c then q else r) (if c then q' else r') := by
  split
  · exact hq
  · exact hr

theorem Relates.mono {R₁ : α → α → Prop} (hq : Relates S R q q') (h : ∀ {a a'}, R a a' → R₁ a a') :
    Relates S R₁ q q' :=
  fun s t hst => ⟨h (hq s t hst).1, (hq s t hst).2⟩

/-- A question put to every element, or to what stands for each in the second session. -/
theorem Relates.forall₂ {g g' : γ → Query α} {k : γ → γ} {cs : List γ}
    (h : ∀ c ∈ cs, Relates S R (g c) (g' (k c))) :
    Relates S (List.Forall₂ R) (cs.mapM g) ((cs.map k).mapM g') := by
  induction cs with
  | nil => exact relates_pure .nil
  | cons c cs ih =>
    obtain ⟨hc, hcs⟩ := List.forall_mem_cons.mp h
    rw [List.map_cons, List.mapM_cons, List.mapM_cons]
    exact hc.bind fun _ _ ha => (ih hcs).bind fun _ _ has => relates_pure (.cons ha has)

theorem Relates.mapM_map {g g' : γ → Query α} {k : γ → γ} (h : ∀ c, Relates S Eq (g c) (g' (k c)))
    (cs : List γ) : Relates S Eq (cs.mapM g) ((cs.map k).mapM g') :=
  (Relates.forall₂ fun c _ => h c).mono fun has => by rwa [List.forall₂_eq_eq_eq] at has

theorem Relates.mapM {g : γ → Query α} (h : ∀ c, Relates S Eq (g c) (g c)) (cs : List γ) :
    Relates S Eq (cs.mapM g) (cs.mapM g) := by
  simpa using Relates.mapM_map (k := id) h cs

/-! ### Resolution -/

theorem relates_firstKnown {isKnown : String → Query Bool}
    (h : ∀ name, Relates S Eq (isKnown name) (isKnown name)) (names : List String) :
    Relates S Eq (firstKnown isKnown names) (firstKnown isKnown names) := by
  induction names with
  | nil => exact relates_pure rfl
  | cons name names ih => exact (h name).bindEq fun _ => .ite (relates_pure rfl) ih

theorem relates_resolveSimple (u : SourceUnit) {around : Surroundings Query}
    (h : ∀ name, Relates S Eq (around.isKnown name) (around.isKnown name))
    (context : Option ClassIndex) (name : String) :
    Relates S Eq (u.resolveSimple around context name) (u.resolveSimple around context name) := by
  unfold SourceUnit.resolveSimple
  split
  · exact relates_pure rfl
  · exact relates_firstKnown h _

theorem relates_resolveName (u : SourceUnit) {around : Surroundings Query}
    (h : ∀ name, Relates S Eq (around.isKnown name) (around.isKnown name))
    (context : Option ClassIndex) (name : String) :
    Relates S Eq (u.resolveName around context name) (u.resolveName around context name) := by
  unfold SourceUnit.resolveName
  split
  · exact relates_resolveSimple u h context name
  · refine (relates_resolveSimple u h context _).bindEq fun outer => ?_
    cases outer with
    | some outer => exact relates_pure rfl
    | none =>
      exact (h name).bindEq fun _ => .ite (relates_pure rfl) (.ite (relates_pure rfl)
        (relates_pure rfl))

end Query

end JavaModel
