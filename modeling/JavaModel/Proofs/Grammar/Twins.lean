import Mathlib.Data.List.Forall2
import JavaModel.Grammar.CompilationUnit
import JavaModel.Proofs.Event.Outline
import JavaModel.Proofs.Grammar.Fronts

/-! Two texts of the same tokens. Comments, white space and places are all that lexemes of two such
texts differ in, and a reader that asks for none of these does the same on both: it leaves the same
lexemes, or stops at the same one for the same reason. -/

namespace JavaModel

/-- Two lexemes that are the same word or sign. -/
structure Lexeme.Twin (l l' : Lexeme) : Prop where
  kind : l.kind = l'.kind
  text : l.text = l'.text

/-- Lexemes that are the same words and signs one by one. -/
def Twins (ls ls' : List Lexeme) : Prop := List.Forall₂ Lexeme.Twin ls ls'

namespace Twins

open Lexeme Grammar

variable {ls ls' : List Lexeme}

theorem length_eq (h : Twins ls ls') : ls.length = ls'.length := List.Forall₂.length_eq h

theorem drop (h : Twins ls ls') (n : Nat) : Twins (ls.drop n) (ls'.drop n) :=
  List.forall₂_drop n h

theorem take (h : Twins ls ls') (n : Nat) : Twins (ls.take n) (ls'.take n) :=
  List.forall₂_take n h

theorem isEmpty (h : Twins ls ls') : ls.isEmpty = ls'.isEmpty := by
  cases h <;> rfl

theorem getElem?_cases (h : Twins ls ls') (n : Nat) :
    (ls[n]? = none ∧ ls'[n]? = none) ∨ ∃ l l', ls[n]? = some l ∧ ls'[n]? = some l' ∧ l.Twin l' := by
  induction h generalizing n with
  | nil => exact .inl ⟨rfl, rfl⟩
  | @cons l l' ls ls' hl _ ih =>
    cases n with
    | zero => exact .inr ⟨l, l', rfl, rfl, hl⟩
    | succ n => exact ih n

theorem kindAt (h : Twins ls ls') (n : Nat) : kindAt ls n = kindAt ls' n := by
  unfold Lexeme.kindAt
  rcases h.getElem?_cases n with ⟨hl, hl'⟩ | ⟨l, l', hl, hl', htwin⟩
  · rw [hl, hl']
  · rw [hl, hl', Option.map_some, Option.map_some, htwin.kind]

theorem isWordAt (h : Twins ls ls') (n : Nat) (word : String) :
    isWordAt ls n word = isWordAt ls' n word := by
  unfold Lexeme.isWordAt
  rcases h.getElem?_cases n with ⟨hl, hl'⟩ | ⟨l, l', hl, hl', htwin⟩
  · rw [hl, hl']
  · simp only [hl, hl', htwin.kind, htwin.text]

theorem isThisAt (h : Twins ls ls') (n : Nat) : isThisAt ls n = isThisAt ls' n := by
  unfold Grammar.isThisAt
  rcases h.getElem?_cases n with ⟨hl, hl'⟩ | ⟨l, l', hl, hl', htwin⟩
  · rw [hl, hl']
  · simp only [hl, hl', htwin.kind, htwin.text]

theorem headText (h : Twins ls ls') : ls.head?.map Lexeme.text = ls'.head?.map Lexeme.text := by
  cases h with
  | nil => rfl
  | cons hl _ => simp [hl.text]

theorem startsAnnotationUse (h : Twins ls ls') :
    startsAnnotationUse ls = startsAnnotationUse ls' := by
  unfold Grammar.startsAnnotationUse
  rw [h.kindAt, h.kindAt]

theorem modifierAt? (h : Twins ls ls') : modifierAt? ls = modifierAt? ls' := by
  unfold Grammar.modifierAt?
  rw [h.kindAt, h.kindAt, h.isWordAt, h.isWordAt, h.isWordAt]

theorem startsTypeSegment (h : Twins ls ls') : startsTypeSegment ls = startsTypeSegment ls' := by
  unfold Grammar.startsTypeSegment
  rw [h.kindAt, h.kindAt]

theorem receiverLength? (h : Twins ls ls') : receiverLength? ls = receiverLength? ls' := by
  unfold Grammar.receiverLength?
  rw [h.isThisAt, h.isThisAt, h.kindAt, h.kindAt]

theorem declarationKind? (h : Twins ls ls') : declarationKind? ls = declarationKind? ls' := by
  unfold Grammar.declarationKind?
  rw [h.kindAt, h.kindAt, h.kindAt, h.isWordAt]

theorem startsModule (h : Twins ls ls') : startsModule ls = startsModule ls' := by
  fun_induction Grammar.startsModule ls generalizing ls' with
  | case1 a b ls hat ih =>
    obtain _ | ⟨ha, _ | ⟨hb, hls⟩⟩ := h
    rw [ih hls, Grammar.startsModule, if_pos (ha.kind ▸ hat)]
  | case2 a b ls hat =>
    have hall := h
    obtain _ | ⟨ha, _ | ⟨hb, hls⟩⟩ := h
    rw [Grammar.startsModule, if_neg (ha.kind ▸ hat), hall.isWordAt, hall.isWordAt, hall.isWordAt]
  | case3 ls hshort =>
    rw [h.isWordAt]
    obtain _ | ⟨ha, _ | ⟨hb, hls⟩⟩ := h
    · rfl
    · rfl
    · exact absurd rfl (hshort _ _ _)

end Twins

namespace Reader

variable {α α' β β' γ γ' : Type} {R : α → α' → Prop} {S : β → β' → Prop} {ls ls' : List Lexeme}

/-- What two readers make of lexemes: both succeed with related values and leave an end of the same
length, or both stop at the same place and look for the same. -/
inductive Alike (R : α → α' → Prop) (ls ls' : List Lexeme) :
    List Event × Except Mismatch (α × List Lexeme) →
      List Event × Except Mismatch (α' × List Lexeme) → Prop where
  | done {told told' : List Event} {a : α} {a' : α'} (n : Nat) (htold : ToldAlike told told')
      (h : R a a') : Alike R ls ls' (told, .ok (a, ls.drop n)) (told', .ok (a', ls'.drop n))
  | stopped {told told' : List Event} (e : Expectation) (n : Nat) (htold : ToldAlike told told') :
      Alike R ls ls' (told, .error ⟨e, ls[n]?⟩) (told', .error ⟨e, ls'[n]?⟩)

/-- What is done behind lexemes that were taken is done behind all before them. -/
theorem Alike.behind {told told' : List Event} {n : Nat}
    {run : List Event × Except Mismatch (α × List Lexeme)}
    {run' : List Event × Except Mismatch (α' × List Lexeme)} (htold : ToldAlike told told')
    (h : Alike R (ls.drop n) (ls'.drop n) run run') :
    Alike R ls ls' (told ++ run.1, run.2) (told' ++ run'.1, run'.2) := by
  cases h with
  | stopped e m hmore =>
    simp only [List.getElem?_drop]
    exact .stopped e (n + m) (htold.append hmore)
  | done m hmore hb =>
    simp only [List.drop_drop]
    exact .done (n + m) (htold.append hmore) hb

/-- On lexemes of the same tokens two readers do alike. -/
def Follows (R : α → α' → Prop) (ls ls' : List Lexeme) (p : Reader α) (p' : Reader α') : Prop :=
  Twins ls ls' → Alike R ls ls' (p ls) (p' ls')

theorem follows_pure {a : α} {a' : α'} (h : R a a') : Follows R ls ls' (pure a) (pure a') :=
  fun _ => .done 0 rfl h

theorem follows_fail (e : Expectation) :
    Follows R ls ls' (fail e : Reader α) (fail e : Reader α') := by
  intro _
  unfold fail
  rw [List.head?_eq_getElem?, List.head?_eq_getElem?]
  exact .stopped e 0 rfl

namespace Follows

variable {p : Reader α} {p' : Reader α'} {f : α → Reader β} {f' : α' → Reader β'}

/-- The second of two readers in sequence has to do alike behind what the first one took. -/
theorem behind (hp : Follows R ls ls' p p')
    (hf : ∀ told a a' n, p ls = (told, .ok (a, ls.drop n)) → R a a' →
      Follows S (ls.drop n) (ls'.drop n) (f a) (f' a')) :
    Follows S ls ls' (p >>= f) (p' >>= f') := by
  intro htwins
  show Alike S ls ls' (andThen p f ls) (andThen p' f' ls')
  have hfirst := hp htwins
  unfold andThen
  generalize hrun : p ls = run at hfirst
  generalize p' ls' = run' at hfirst
  cases hfirst with
  | stopped e n htold => exact .stopped e n htold
  | done n htold ha => exact (hf _ _ _ n hrun ha (htwins.drop n)).behind htold

theorem bind (hp : Follows R ls ls' p p')
    (hf : ∀ a a' rest rest', R a a' → Follows S rest rest' (f a) (f' a')) :
    Follows S ls ls' (p >>= f) (p' >>= f') :=
  hp.behind fun _ a a' _ _ ha => hf a a' _ _ ha

theorem bindEq {p' : Reader α} {f' : α → Reader β'} (hp : Follows Eq ls ls' p p')
    (hf : ∀ a rest rest', Follows S rest rest' (f a) (f' a)) :
    Follows S ls ls' (p >>= f) (p' >>= f') :=
  hp.bind fun a _ rest rest' ha => ha ▸ hf a rest rest'

theorem mono {Q : α → α' → Prop} (hp : Follows R ls ls' p p') (h : ∀ a a', R a a' → Q a a') :
    Follows Q ls ls' p p' := by
  intro htwins
  have hrun := hp htwins
  generalize p ls = run at hrun ⊢
  generalize p' ls' = run' at hrun ⊢
  cases hrun with
  | stopped e n htold => exact .stopped e n htold
  | done n htold ha => exact .done n htold (h _ _ ha)

theorem ite {c : Prop} [Decidable c] {q : Reader α} {q' : Reader α'}
    (hp : c → Follows R ls ls' p p') (hq : ¬c → Follows R ls ls' q q') :
    Follows R ls ls' (if c then p else q) (if c then p' else q') := by
  by_cases hc : c
  · rw [if_pos hc, if_pos hc]
    exact hp hc
  · rw [if_neg hc, if_neg hc]
    exact hq hc

/-- Readers that look at what lies ahead. -/
theorem look {f : List Lexeme → Reader β} {f' : List Lexeme → Reader β'}
    (h : Twins ls ls' → Follows S ls ls' (f ls) (f' ls')) :
    Follows S ls ls' (lookAhead >>= f) (lookAhead >>= f') := by
  intro htwins
  rw [bind_quiet rfl, bind_quiet rfl]
  exact h htwins htwins

/-- Readers behind one that tells nothing and passes over as many lexemes of either text. -/
theorem pass {s : Reader α} {s' : Reader α'} {a : α} {a' : α'} {n : Nat}
    (hs : s ls = ([], .ok (a, ls.drop n))) (hs' : s' ls' = ([], .ok (a', ls'.drop n)))
    (h : Follows S (ls.drop n) (ls'.drop n) (f a) (f' a')) :
    Follows S ls ls' (s >>= f) (s' >>= f') := by
  intro htwins
  rw [bind_quiet hs, bind_quiet hs']
  exact (h (htwins.drop n)).behind (.refl [])

/-- Readers behind events told alike. -/
theorem say {e e' : Event} (he : e.outline = e'.outline) (hp : Follows R ls ls' p p') :
    Follows R ls ls' (tell e >>= fun _ => p) (tell e' >>= fun _ => p') := by
  intro htwins
  have htold : ToldAlike [e] [e'] := by simp [ToldAlike, he]
  exact Alike.behind (n := 0) htold (hp htwins)

/-- A reader behind which values are made. -/
theorem last {g : α → β} {g' : α' → β'} (hp : Follows R ls ls' p p')
    (h : ∀ a a', R a a' → S (g a) (g' a')) :
    Follows S ls ls' (p >>= fun a => pure (g a)) (p' >>= fun a => pure (g' a)) :=
  hp.bind fun a a' _ _ ha => follows_pure (h a a' ha)

/-- Bodies that go on alike when they are gone on with alike make loops that do alike. -/
theorem recurse {I : γ → γ' → Prop} {body : (γ → Reader α) → γ → Reader α}
    {body' : (γ' → Reader α') → γ' → Reader α'}
    (hbody : ∀ self self', (∀ c c' rest rest', I c c' → Follows R rest rest' (self c) (self' c')) →
      ∀ c c' rest rest', I c c' → Follows R rest rest' (body self c) (body' self' c'))
    {c : γ} {c' : γ'} (hc : I c c') :
    Follows R ls ls' (recurse body c) (recurse body' c') := by
  have hunroll (d : Nat) : ∀ c c' rest rest', I c c' →
      Follows R rest rest' (unroll body d c) (unroll body' d c') := by
    induction d with
    | zero => exact fun _ _ _ _ _ => follows_fail .endOfRepetition
    | succ d ih => exact hbody _ _ ih
  intro htwins
  unfold Reader.recurse
  rw [htwins.length_eq]
  exact hunroll _ c c' ls ls' hc htwins

end Follows

section Steps

theorem follows_tell {e e' : Event} (h : e.outline = e'.outline) :
    Follows Eq ls ls' (tell e) (tell e') :=
  fun _ => .done 0 (by simp [ToldAlike, h]) rfl

theorem follows_skip (n : Nat) : Follows Eq ls ls' (skip n) (skip n) := fun _ => .done n rfl rfl

theorem follows_atKind (k : TokenKind) : Follows Eq ls ls' (atKind k) (atKind k) :=
  fun htwins => .done 0 rfl (by rw [htwins.kindAt])

theorem follows_lineHere : Follows (fun _ _ => True) ls ls' lineHere lineHere :=
  fun _ => .done 0 rfl trivial

theorem follows_accept (k : TokenKind) : Follows Eq ls ls' (accept k) (accept k) := by
  intro htwins
  cases htwins with
  | nil => exact .done 0 rfl rfl
  | @cons l l' ls ls' hl hls =>
    unfold accept
    dsimp only
    rw [hl.kind]
    split
    · exact .done 1 rfl rfl
    · exact .done 0 rfl rfl

theorem follows_expect (k : TokenKind) (e : Expectation) :
    Follows Eq ls ls' (expect k e) (expect k e) := by
  intro htwins
  have hfail : Alike Eq ls ls' (fail e ls : _ × Except _ (String × _)) (fail e ls') :=
    follows_fail e htwins
  cases htwins with
  | nil => exact hfail
  | @cons l l' ls ls' hl hls =>
    unfold expect
    dsimp only
    rw [hl.kind]
    split
    · exact .done 1 rfl hl.text
    · exact hfail

theorem follows_identifier (e : Expectation) :
    Follows Eq ls ls' (identifier e) (identifier e) := follows_expect _ e

theorem follows_many {starts : List Lexeme → Bool} {item : Reader α} {item' : Reader α'}
    (hstarts : ∀ {ls ls'}, Twins ls ls' → starts ls = starts ls')
    (h : ∀ rest rest', Follows R rest rest' item item') :
    Follows (List.Forall₂ R) ls ls' (many starts item) (many starts item') := by
  refine .recurse (I := fun _ _ => True)
    (fun self self' hself _ _ ls ls' _ => .look fun htwins => ?_) trivial
  rw [hstarts htwins]
  refine .ite (fun _ => ?_) fun _ => follows_pure .nil
  refine (h ls ls').bind fun a a' rest rest' ha => ?_
  exact (hself () () rest rest' trivial).last fun as as' has => .cons ha has

theorem follows_separated {separator : TokenKind} {item : Reader α} {item' : Reader α'}
    (h : ∀ rest rest', Follows R rest rest' item item') :
    Follows (List.Forall₂ R) ls ls' (separated separator item) (separated separator item') := by
  refine .recurse (I := fun _ _ => True) (fun self self' hself _ _ ls ls' _ => ?_) trivial
  refine (h ls ls').bind fun a a' rest rest' ha => (follows_accept _).bindEq fun b rest rest' => ?_
  refine .ite (fun _ => ?_) fun _ => follows_pure (.cons ha .nil)
  exact (hself () () rest rest' trivial).last fun as as' has => .cons ha has

theorem follows_separated_eq {separator : TokenKind} {item : Reader α} {item' : Reader α}
    (h : ∀ rest rest', Follows Eq rest rest' item item') :
    Follows Eq ls ls' (separated separator item) (separated separator item') :=
  (follows_separated h).mono fun _ _ has => List.forall₂_eq_eq_eq ▸ has

end Steps

end Reader

namespace Grammar

open Reader Lexeme

variable {ls ls' : List Lexeme}

/-! ### Raw text -/

theorem splitClosing_twins (b : Bracket) (depth : Nat) (h : Twins ls ls') :
    (splitClosing b depth ls = none ∧ splitClosing b depth ls' = none) ∨
    ∃ inner close inner' close' n, splitClosing b depth ls = some (inner, close, ls.drop n) ∧
      splitClosing b depth ls' = some (inner', close', ls'.drop n) := by
  induction h generalizing depth with
  | nil => exact .inl ⟨rfl, rfl⟩
  | @cons l l' ls ls' hl _ ih =>
    rw [splitClosing_cons, splitClosing_cons, ← hl.kind]
    cases b.after? depth l.kind with
    | none => exact .inr ⟨_, _, _, _, 1, rfl, rfl⟩
    | some next =>
      dsimp only
      rcases ih next with ⟨hnone, hnone'⟩ | ⟨inner, close, inner', close', n, hsome, hsome'⟩
      · rw [hnone, hnone']
        exact .inl ⟨rfl, rfl⟩
      · rw [hsome, hsome']
        exact .inr ⟨_, _, _, _, n + 1, rfl, rfl⟩

theorem follows_enclosed (b : Bracket) :
    Follows (fun _ _ => True) ls ls' (enclosed b) (enclosed b) := by
  intro htwins
  have htail : Twins ls.tail ls'.tail := by simpa using htwins.drop 1
  unfold enclosed
  rcases splitClosing_twins b 0 htail with
    ⟨hnone, hnone'⟩ | ⟨inner, close, inner', close', n, hsome, hsome'⟩
  · have hend : ls[ls.length]? = none := List.getElem?_eq_none (Nat.le_refl _)
    have hend' : ls'[ls.length]? = none :=
      List.getElem?_eq_none (Nat.le_of_eq htwins.length_eq.symm)
    have hstopped : Alike (fun (_ _ : String) => True) ls ls'
        ([], .error ⟨.closing b, ls[ls.length]?⟩) ([], .error ⟨.closing b, ls'[ls.length]?⟩) :=
      .stopped _ _ (.refl [])
    rw [hend, hend'] at hstopped
    rw [hnone, hnone']
    exact hstopped
  · rw [hsome, hsome', List.drop_tail, List.drop_tail]
    exact .done (n + 1) rfl trivial

theorem angleLength_twins (depth : Nat) (h : Twins ls ls') :
    angleLength depth ls = angleLength depth ls' := by
  induction h generalizing depth with
  | nil => rfl
  | @cons l l' ls ls' hl hls ih =>
    have htwins : Twins ls ls' := hls
    cases depth <;> simp only [angleLength, hl.kind, ih, htwins.kindAt]

theorem after?_twins (s : ExpressionState) {l l' : Lexeme} (hl : l.Twin l') (h : Twins ls ls') :
    s.after? l ls = s.after? l' ls' := by
  have harguments : typeArgumentsLength s.before ls = typeArgumentsLength s.before ls' := by
    unfold typeArgumentsLength
    rw [angleLength_twins 0 h]
  unfold ExpressionState.after?
  rw [hl.kind, harguments]

theorem splitExpression_twins (s : ExpressionState) (h : Twins ls ls') :
    ∃ n, splitExpression s ls = (ls.take n, ls.drop n) ∧
      splitExpression s ls' = (ls'.take n, ls'.drop n) := by
  induction h generalizing s with
  | nil => exact ⟨0, rfl, rfl⟩
  | @cons l l' ls ls' hl hls ih =>
    rw [splitExpression_cons, splitExpression_cons, ← after?_twins s hl hls]
    cases s.after? l ls with
    | none => exact ⟨0, rfl, rfl⟩
    | some next =>
      dsimp only
      obtain ⟨n, hsplit, hsplit'⟩ := ih next
      rw [hsplit, hsplit']
      exact ⟨n + 1, rfl, rfl⟩

theorem follows_expression : Follows (fun _ _ => True) ls ls' expression expression := by
  intro htwins
  obtain ⟨n, hsplit, hsplit'⟩ := splitExpression_twins ⟨0, 0, none⟩ htwins
  have hstopped (e : Expectation) (m : Nat) :
      Alike (fun (_ _ : String) => True) ls ls' (fail e (ls.drop m)) (fail e (ls'.drop m)) := by
    unfold fail
    rw [List.head?_drop, List.head?_drop]
    exact .stopped e m rfl
  unfold expression
  rw [hsplit, hsplit']
  dsimp only
  rw [htwins.isEmpty, (htwins.drop n).isEmpty, (htwins.take n).isEmpty]
  split
  · exact hstopped .expression 0
  split
  · exact hstopped .terminator n
  split
  · exact hstopped .expression n
  · exact .done n rfl trivial

/-! ### Names and annotations -/

theorem takeSegments_twins (name : String) (h : Twins ls ls') :
    ∃ named n, takeSegments name ls = (named, ls.drop n) ∧
      takeSegments name ls' = (named, ls'.drop n) := by
  fun_induction takeSegments name ls generalizing ls' with
  | case1 name d l ls hkind ih =>
    obtain _ | ⟨hd, _ | ⟨hl, hls⟩⟩ := h
    obtain ⟨named, n, htake, htake'⟩ := ih hls
    rw [takeSegments, ← hd.kind, ← hl.kind, if_pos hkind, ← hl.text]
    exact ⟨named, n + 2, htake, htake'⟩
  | case2 name d l ls hkind =>
    obtain _ | ⟨hd, _ | ⟨hl, hls⟩⟩ := h
    rw [takeSegments, ← hd.kind, ← hl.kind, if_neg hkind]
    exact ⟨name, 0, rfl, rfl⟩
  | case3 name ls hshort =>
    obtain _ | ⟨ha, _ | ⟨hb, hls⟩⟩ := h
    · exact ⟨name, 0, rfl, rfl⟩
    · exact ⟨name, 0, rfl, rfl⟩
    · exact absurd rfl (hshort _ _ _)

theorem follows_qualifiedName : Follows Eq ls ls' qualifiedName qualifiedName := by
  refine (follows_identifier _).bindEq fun first ls ls' => .look fun htwins => ?_
  obtain ⟨named, n, htake, htake'⟩ := takeSegments_twins first htwins
  rw [htake, htake']
  exact .pass rfl rfl (follows_pure rfl)

theorem follows_annotationUse :
    Follows (fun a a' => a.outline = a'.outline) ls ls' annotationUse annotationUse := by
  refine (follows_skip 1).bindEq fun _ ls ls' => ?_
  refine follows_qualifiedName.bindEq fun name ls ls' => ?_
  refine (follows_atKind _).bindEq fun b ls ls' => ?_
  refine .ite (fun _ => ?_) fun _ => follows_pure rfl
  exact (follows_enclosed .paren).last fun _ _ _ => rfl

theorem map_of_forall₂ {α β : Type} {g : α → β} {as as' : List α}
    (h : List.Forall₂ (fun a a' => g a = g a') as as') : as.map g = as'.map g := by
  rw [← List.forall₂_eq_eq_eq]
  exact List.forall₂_map_left_iff.mpr (List.forall₂_map_right_iff.mpr h)

theorem follows_annotations :
    Follows (fun as as' => outlines as = outlines as') ls ls' annotations annotations :=
  (follows_many Twins.startsAnnotationUse fun _ _ => follows_annotationUse).mono
    fun _ _ has => map_of_forall₂ has

/-- Modifiers and annotations that differ in the arguments of annotations at most. -/
structure DecoratedAlike (d d' : Decorations) : Prop where
  modifiers : d.modifiers = d'.modifiers
  annotations : outlines d.annotations = outlines d'.annotations

theorem follows_decorations : Follows DecoratedAlike ls ls' decorations decorations := by
  refine .recurse (I := fun _ _ => True)
    (fun self self' hself _ _ ls ls' _ => .look fun htwins => ?_) trivial
  rw [htwins.startsAnnotationUse, htwins.modifierAt?]
  refine .ite (fun _ => ?_) fun _ => ?_
  · refine follows_annotationUse.bind fun a a' ls ls' ha => ?_
    exact (hself () () ls ls' trivial).last fun d d' hd =>
      ⟨hd.modifiers, congrArg₂ List.cons ha hd.annotations⟩
  · cases modifierAt? ls' with
    | none => exact follows_pure ⟨rfl, rfl⟩
    | some mn =>
      refine (follows_skip mn.2).bindEq fun _ ls ls' => ?_
      exact (hself () () ls ls' trivial).last fun d d' hd =>
        ⟨congrArg (mn.1 :: ·) hd.modifiers, hd.annotations⟩

/-! ### Types -/

theorem countDims_twins (h : Twins ls ls') :
    ∃ k n, countDims ls = (k, ls.drop n) ∧ countDims ls' = (k, ls'.drop n) := by
  fun_induction countDims ls generalizing ls' with
  | case1 l r ls hkind k rest hcount ih =>
    obtain _ | ⟨hl, _ | ⟨hr, hls⟩⟩ := h
    obtain ⟨k', n, hdims, hdims'⟩ := ih hls
    obtain ⟨rfl, rfl⟩ := Prod.mk.inj (hcount.symm.trans hdims)
    rw [countDims, ← hl.kind, ← hr.kind, if_pos hkind, hdims']
    exact ⟨k + 1, n + 2, rfl, rfl⟩
  | case2 l r ls hkind =>
    obtain _ | ⟨hl, _ | ⟨hr, hls⟩⟩ := h
    rw [countDims, ← hl.kind, ← hr.kind, if_neg hkind]
    exact ⟨0, 0, rfl, rfl⟩
  | case3 ls hshort =>
    obtain _ | ⟨ha, _ | ⟨hb, hls⟩⟩ := h
    · exact ⟨0, 0, rfl, rfl⟩
    · exact ⟨0, 0, rfl, rfl⟩
    · exact absurd rfl (hshort _ _ _)

theorem follows_dims : Follows Eq ls ls' dims dims := by
  intro htwins
  obtain ⟨k, n, hdims, hdims'⟩ := countDims_twins htwins
  unfold dims
  rw [hdims, hdims']
  exact .done n rfl rfl

section Types

variable {type type' : Reader TypeExpr}

theorem follows_typeArgument (h : ∀ ls ls', Follows Eq ls ls' type type') :
    Follows Eq ls ls' (typeArgument type) (typeArgument type') := by
  refine follows_annotations.bind fun _ _ ls ls' _ => (follows_accept _).bindEq fun b ls ls' => ?_
  refine .ite (fun _ => (follows_accept _).bindEq fun b ls ls' => .ite (fun _ => ?_) fun _ => ?_)
    fun _ => ?_
  · exact (h ls ls').last fun _ _ ht => congrArg _ ht
  · refine (follows_accept _).bindEq fun b ls ls' => .ite (fun _ => ?_) fun _ => follows_pure rfl
    exact (h ls ls').last fun _ _ ht => congrArg _ ht
  · exact (h _ _).last fun _ _ ht => congrArg _ ht

theorem follows_typeArguments (h : ∀ ls ls', Follows Eq ls ls' type type') :
    Follows Eq ls ls' (typeArguments type) (typeArguments type') := by
  refine (follows_accept _).bindEq fun b ls ls' => .ite (fun _ => ?_) fun _ => follows_pure rfl
  refine (follows_accept _).bindEq fun b ls ls' => .ite (fun _ => follows_pure rfl) fun _ => ?_
  refine (follows_separated_eq fun _ _ => follows_typeArgument h).bindEq fun args ls ls' => ?_
  exact (follows_expect _ _).last fun _ _ _ => rfl

theorem follows_typeSegments (h : ∀ ls ls', Follows Eq ls ls' type type') (name : String) :
    Follows Eq ls ls' (typeSegments type name) (typeSegments type' name) := by
  refine .recurse (I := Eq) (fun self self' hself name name' ls ls' hname => ?_) rfl
  obtain rfl := hname
  refine (follows_typeArguments h).bindEq fun args ls ls' => .look fun htwins => ?_
  rw [htwins.startsTypeSegment]
  refine .ite (fun _ => (follows_skip 1).bindEq fun _ ls ls' => ?_) fun _ => follows_pure rfl
  refine follows_annotations.bind fun _ _ ls ls' _ => ?_
  exact (follows_identifier _).bindEq fun segment ls ls' => hself _ _ ls ls' rfl

end Types

theorem follows_type : Follows Eq ls ls' type type := by
  refine .recurse (I := fun _ _ => True) (fun self self' hself _ _ ls ls' _ => ?_) trivial
  refine follows_annotations.bind fun _ _ ls ls' _ => (follows_atKind _).bindEq fun b ls ls' => ?_
  refine .ite (fun _ => ?_) fun _ => ?_
  · refine (follows_expect _ _).bindEq fun name ls ls' => ?_
    exact follows_dims.last fun _ _ hdims => congrArg _ hdims
  · refine (follows_identifier _).bindEq fun first ls ls' => ?_
    refine (follows_typeSegments (fun ls ls' => hself () () ls ls' trivial) first).bindEq
      fun named ls ls' => ?_
    exact follows_dims.last fun _ _ hdims => congrArg _ hdims

theorem follows_typeList : Follows Eq ls ls' typeList typeList :=
  follows_separated_eq fun _ _ => follows_type

theorem follows_typesAfter (word : TokenKind) :
    Follows Eq ls ls' (typesAfter word) (typesAfter word) :=
  (follows_accept _).bindEq fun _ _ _ => .ite (fun _ => follows_typeList) fun _ => follows_pure rfl

theorem follows_typeParameter : Follows Eq ls ls' typeParameter typeParameter := by
  refine follows_annotations.bind fun _ _ ls ls' _ => ?_
  refine (follows_identifier _).bindEq fun name ls ls' => ?_
  refine (follows_accept _).bindEq fun b ls ls' => ?_
  refine .ite (fun _ => ?_) fun _ => follows_pure rfl
  exact (follows_separated_eq fun _ _ => follows_type).last fun _ _ hbounds => congrArg _ hbounds

theorem follows_typeParameters : Follows Eq ls ls' typeParameters typeParameters := by
  refine (follows_accept _).bindEq fun b ls ls' => .ite (fun _ => ?_) fun _ => follows_pure rfl
  refine (follows_separated_eq fun _ _ => follows_typeParameter).bindEq fun params ls ls' => ?_
  exact (follows_expect _ _).last fun _ _ _ => rfl

/-! ### Parameters -/

theorem follows_parameter :
    Follows (fun p p' => p.map Written.Parameter.outline = p'.map Written.Parameter.outline) ls ls'
      parameter parameter := by
  refine follows_decorations.bind fun d d' ls ls' hd => follows_type.bindEq fun t ls ls' => ?_
  refine follows_annotations.bind fun _ _ ls ls' _ => ?_
  refine (follows_accept _).bindEq fun isVarargs ls ls' => .look fun htwins => ?_
  rw [htwins.receiverLength?]
  cases receiverLength? ls' with
  | some n => exact (follows_skip n).last fun _ _ _ => rfl
  | none =>
    refine (follows_identifier _).bindEq fun name ls ls' => follows_dims.last fun k k' hk => ?_
    simp only [Option.map_some, Written.Parameter.outline, hd.modifiers, hd.annotations, hk]

theorem follows_parameters :
    Follows (fun ps ps' => ps.map Written.Parameter.outline = ps'.map Written.Parameter.outline)
      ls ls' parameters parameters := by
  refine (follows_expect _ _).bindEq fun _ ls ls' => (follows_accept _).bindEq fun b ls ls' => ?_
  refine .ite (fun _ => follows_pure rfl) fun _ => ?_
  refine (follows_separated fun _ _ => follows_parameter).bind fun ps ps' ls ls' hps => ?_
  refine (follows_expect _ _).last fun _ _ _ => ?_
  have hmaps := congrArg (List.filterMap id) (map_of_forall₂ hps)
  rw [List.filterMap_map, List.filterMap_map] at hmaps
  rw [List.map_filterMap, List.map_filterMap]
  exact hmaps

theorem follows_expressionAfter (k : TokenKind) :
    Follows (fun raw raw' => blanked raw = blanked raw') ls ls' (do
      if ← accept k then pure (some (← expression)) else pure none) (do
      if ← accept k then pure (some (← expression)) else pure none) :=
  (follows_accept k).bindEq fun _ _ _ =>
    .ite (fun _ => follows_expression.last fun _ _ _ => rfl) fun _ => follows_pure rfl

theorem follows_enclosedAt (k : TokenKind) (b : Bracket) :
    Follows (fun raw raw' => blanked raw = blanked raw') ls ls' (do
      if ← atKind k then pure (some (← enclosed b)) else pure none) (do
      if ← atKind k then pure (some (← enclosed b)) else pure none) :=
  (follows_atKind k).bindEq fun _ _ _ =>
    .ite (fun _ => (follows_enclosed b).last fun _ _ _ => rfl) fun _ => follows_pure rfl

end Grammar

end JavaModel
