import JavaModel.Proofs.Grammar.Ending
import JavaModel.Proofs.Grammar.Keeping

/-! The grammar of names, annotations and pairs of brackets: which lexemes write them, and that the
readers take just such lexemes from the front, as many as there are. -/

namespace JavaModel

namespace Reader

variable {k : TokenKind} {l : Lexeme} {ls : List Lexeme}

theorem accept_next (h : l.kind = k) : accept k (l :: ls) = ([], .ok (true, ls)) := if_pos h

theorem accept_other (h : Lexeme.kindAt ls 0 ≠ some k) : accept k ls = ([], .ok (false, ls)) := by
  cases ls with
  | nil => rfl
  | cons l ls => exact if_neg fun hl => h (congrArg some hl)

theorem expect_next (h : l.kind = k) (x : Expectation) :
    expect k x (l :: ls) = ([], .ok (l.text, ls)) := if_pos h

theorem identifier_next (h : l.kind = .identifier) (x : Expectation) :
    identifier x (l :: ls) = ([], .ok (l.text, ls)) := expect_next h x

end Reader

namespace Grammar

open Reader Lexeme

@[simp] theorem kindAt_cons_zero (l : Lexeme) (ls : List Lexeme) :
    kindAt (l :: ls) 0 = some l.kind := rfl

@[simp] theorem kindAt_cons_succ (l : Lexeme) (ls : List Lexeme) (n : Nat) :
    kindAt (l :: ls) (n + 1) = kindAt ls n := rfl

/-- A lexeme that stands nowhere in particular. -/
def loose (kind : TokenKind) (text : String) : Lexeme := ⟨kind, text, "", none, 0, ⟨0, 0⟩⟩

/-! ### Names -/

/-- Segments behind the first of a dotted name, and what they make of the name before them. -/
inductive Segments : String → List Lexeme → String → Prop where
  | nil (name : String) : Segments name [] name
  | cons {name full : String} {d l : Lexeme} {ls : List Lexeme} (hd : d.kind = .dot)
      (hl : l.kind = .identifier) (more : Segments (name ++ "." ++ l.text) ls full) :
      Segments name (d :: l :: ls) full

theorem segments_takeSegments (name : String) (ls : List Lexeme) :
    ∃ front, ls = front ++ (takeSegments name ls).2 ∧
      Segments name front (takeSegments name ls).1 := by
  fun_induction takeSegments name ls with
  | case1 name d l ls h ih =>
    obtain ⟨front, hls, hfront⟩ := ih
    simp only [Bool.and_eq_true, decide_eq_true_eq] at h
    exact ⟨d :: l :: front, congrArg (d :: l :: ·) hls, .cons h.1 h.2 hfront⟩
  | case2 | case3 => exact ⟨[], rfl, .nil _⟩

theorem takeSegments_segments {name full : String} {front rest : List Lexeme}
    (h : Segments name front full) (hrest : kindAt rest 0 ≠ some .dot) :
    takeSegments name (front ++ rest) = (full, rest) := by
  induction h with
  | nil name =>
    match rest with
    | [] | [_] => rfl
    | d :: l :: rest =>
      have hd : d.kind ≠ .dot := fun hd => hrest (congrArg some hd)
      simp [takeSegments, hd]
  | cons hd hl _ ih => simpa [takeSegments, hd, hl] using ih

/-- A dotted name is read up to what goes on with no further segment. -/
theorem qualifiedName_segments {first : Lexeme} {full : String} {front rest : List Lexeme}
    (hfirst : first.kind = .identifier) (h : Segments first.text front full)
    (hrest : kindAt rest 0 ≠ some .dot) :
    qualifiedName (first :: (front ++ rest)) = ([], .ok (full, rest)) := by
  unfold qualifiedName
  rw [bind_quiet (identifier_next hfirst _), bind_quiet rfl, takeSegments_segments h hrest]
  rfl

/-! ### Annotations -/

/-- Lexemes that a bracket may enclose: the closing bracket behind them is the one that belongs to
it. -/
def Enclosable (b : Bracket) (inner : List Lexeme) : Prop :=
  ∀ close rest, close.kind = b.closing →
    splitClosing b 0 (inner ++ close :: rest) = some (inner, close, rest)

/-- Where a bracket is closed does not depend on what stands behind. -/
theorem enclosable_of_split {b : Bracket} {inner rest : List Lexeme} {close : Lexeme}
    (h : splitClosing b 0 (inner ++ close :: rest) = some (inner, close, rest)) :
    Enclosable b inner := by
  intro close' rest' hclose'
  have hne : b.closing ≠ b.opening := by cases b <;> decide
  generalize 0 = depth at h ⊢
  induction inner generalizing depth with
  | nil =>
    rw [List.nil_append, splitClosing_cons] at h ⊢
    cases hafter : b.after? depth close.kind with
    | none =>
      obtain ⟨rfl, -⟩ := after?_eq_none hafter
      simp [Bracket.after?, hclose', hne]
    | some next =>
      rw [hafter] at h
      obtain ⟨_, _, heq⟩ := Option.map_eq_some_iff.mp h
      cases heq
  | cons l inner ih =>
    rw [List.cons_append, splitClosing_cons] at h ⊢
    cases hafter : b.after? depth l.kind with
    | none =>
      rw [hafter] at h
      cases h
    | some next =>
      rw [hafter] at h
      obtain ⟨⟨inner', close'', rest''⟩, hsplit, heq⟩ := Option.map_eq_some_iff.mp h
      cases heq
      simp only [ih next hsplit, Option.map_some]

/-- Lexemes that write an annotation. -/
inductive Annotates : AnnotationUse String → List Lexeme → Prop where
  | bare {sign first : Lexeme} {more : List Lexeme} {name : String} (hsign : sign.kind = .atSign)
      (hfirst : first.kind = .identifier) (hname : Segments first.text more name) :
      Annotates ⟨name, none⟩ (sign :: first :: more)
  | applied {sign first o close : Lexeme} {more inner : List Lexeme} {name : String}
      (hsign : sign.kind = .atSign) (hfirst : first.kind = .identifier)
      (hname : Segments first.text more name) (ho : o.kind = .leftParen)
      (hinner : Enclosable .paren inner) (hclose : close.kind = .rightParen) :
      Annotates ⟨name, some (Text.trim (sourceText inner ++ close.leading))⟩
        (sign :: first :: (more ++ o :: (inner ++ [close])))

/-- Annotations one behind the other. -/
inductive Annotations : List Lexeme → Prop where
  | nil : Annotations []
  | cons {a : AnnotationUse String} {front more : List Lexeme} (h : Annotates a front)
      (hmore : Annotations more) : Annotations (front ++ more)

theorem Annotates.begins {a : AnnotationUse String} {front : List Lexeme} (h : Annotates a front) :
    ∃ sign first more, front = sign :: first :: more ∧ sign.kind = .atSign ∧
      first.kind = .identifier := by
  cases h with
  | bare hsign hfirst => exact ⟨_, _, _, rfl, hsign, hfirst⟩
  | applied hsign hfirst => exact ⟨_, _, _, rfl, hsign, hfirst⟩

theorem Annotates.starts {a : AnnotationUse String} {front : List Lexeme} (h : Annotates a front)
    (rest : List Lexeme) : startsAnnotationUse (front ++ rest) := by
  obtain ⟨sign, first, more, rfl, hsign, hfirst⟩ := h.begins
  simp [startsAnnotationUse, hsign, hfirst]

theorem Annotations.append {xs ys : List Lexeme} (hxs : Annotations xs) (hys : Annotations ys) :
    Annotations (xs ++ ys) := by
  induction hxs with
  | nil => exact hys
  | cons h _ ih =>
    rw [List.append_assoc]
    exact .cons h ih

/-- What does not go on with an annotation. -/
structure EndsAnnotation (rest : List Lexeme) : Prop where
  segment : kindAt rest 0 ≠ some .dot
  args : kindAt rest 0 ≠ some .leftParen

theorem endsAnnotation_cons {l : Lexeme} (hdot : l.kind ≠ .dot) (hparen : l.kind ≠ .leftParen)
    (ls : List Lexeme) : EndsAnnotation (l :: ls) :=
  ⟨fun h => hdot (Option.some.inj h), fun h => hparen (Option.some.inj h)⟩

/-- Behind annotations, nothing goes on with what stands before them if nothing behind them does. -/
theorem Annotations.ends {notes rest : List Lexeme} (h : Annotations notes)
    (hrest : EndsAnnotation rest) : EndsAnnotation (notes ++ rest) := by
  cases h with
  | nil => exact hrest
  | cons h _ =>
    obtain ⟨sign, first, more, rfl, hsign, -⟩ := h.begins
    exact endsAnnotation_cons (by rw [hsign]; decide) (by rw [hsign]; decide) _

theorem Annotates.reads {a : AnnotationUse String} {front rest : List Lexeme}
    (h : Annotates a front) (hrest : EndsAnnotation rest) :
    annotationUse (front ++ rest) = ([], .ok (a, rest)) := by
  unfold annotationUse
  cases h with
  | bare hsign hfirst hname =>
    rw [bind_quiet rfl]
    simp only [List.cons_append, List.drop_succ_cons, List.drop_zero]
    rw [bind_quiet (qualifiedName_segments hfirst hname hrest.segment), bind_quiet rfl,
      if_neg (by simpa using hrest.args)]
    rfl
  | @applied sign first o close more inner name hsign hfirst hname ho hinner hclose =>
    have hparen : enclosed .paren (o :: (inner ++ close :: rest)) =
        ([], .ok (Text.trim (sourceText inner ++ close.leading), rest)) := by
      simp only [enclosed, List.tail_cons, hinner close rest hclose]
    have hnext : kindAt (o :: (inner ++ close :: rest)) 0 ≠ some .dot := by simp [ho]
    rw [bind_quiet rfl]
    simp only [List.cons_append, List.drop_succ_cons, List.drop_zero, List.append_assoc,
      List.nil_append]
    rw [bind_quiet (qualifiedName_segments hfirst hname hnext), bind_quiet rfl,
      if_pos (by simp [ho]), bind_quiet hparen]
    rfl

/-- An annotation is read off lexemes that write it. -/
theorem annotates_of_run {a : AnnotationUse String} {ls rest : List Lexeme} {told : List Event}
    (hstarts : startsAnnotationUse ls) (h : annotationUse ls = (told, .ok (a, rest))) :
    ∃ front, ls = front ++ rest ∧ Annotates a front := by
  simp only [startsAnnotationUse, Bool.and_eq_true, decide_eq_true_eq] at hstarts
  obtain ⟨sign, ls, rfl, hsign⟩ := kindAt_zero hstarts.1
  unfold annotationUse at h
  rw [bind_quiet rfl] at h
  obtain ⟨name, middle, hname, hargs⟩ := silent_qualifiedName.bind_ok h
  unfold qualifiedName at hname
  obtain ⟨first, behind, hfirst, hsegments⟩ := (silent_identifier _).bind_ok hname
  obtain ⟨-, l, hls, hl, rfl⟩ := expect_ok hfirst
  rw [List.drop_succ_cons, List.drop_zero] at hls
  subst hls
  obtain ⟨more, hbehind, hmore⟩ := segments_takeSegments l.text behind
  cases hsegments
  rw [bind_quiet rfl] at hargs
  split at hargs
  · rename_i hparen
    obtain ⟨raw, left, hraw, hend⟩ := (silent_enclosed _).bind_ok hargs
    obtain ⟨-, o, inner, close, hmiddle, hsplit, hclose, rfl⟩ := enclosed_ok hraw
    cases hend
    rw [hmiddle] at hbehind hparen
    have ho : o.kind = .leftParen := by simpa using hparen
    refine ⟨_, ?_, .applied hsign hl hmore ho (enclosable_of_split hsplit) hclose⟩
    rw [hbehind]
    simp
  · cases hargs
    exact ⟨_, congrArg (sign :: l :: ·) hbehind, .bare hsign hl hmore⟩

theorem annotations_eq (ls : List Lexeme) : annotations ls =
    manyBody startsAnnotationUse annotationUse (fun _ => annotations) () ls :=
  Loop.annotations.advances.recurse_eq () ls

/-- Annotations are read up to what does not go on with them. -/
theorem Annotations.reads {front rest : List Lexeme} (h : Annotations front)
    (hrest : EndsAnnotation rest) (hstops : startsAnnotationUse rest = false) :
    ∃ as, annotations (front ++ rest) = ([], .ok (as, rest)) := by
  induction h with
  | nil =>
    refine ⟨[], ?_⟩
    rw [List.nil_append, annotations_eq]
    unfold manyBody
    rw [bind_quiet rfl, if_neg (by simp [hstops])]
    rfl
  | @cons a front more h hmore ih =>
    obtain ⟨as, has⟩ := ih
    refine ⟨a :: as, ?_⟩
    rw [List.append_assoc, annotations_eq]
    unfold manyBody
    rw [bind_quiet rfl, if_pos (h.starts _), bind_quiet (h.reads (hmore.ends hrest)),
      bind_quiet has]
    rfl

theorem annotations_of_run {as : List (AnnotationUse String)} {ls rest : List Lexeme}
    {told : List Event} (h : annotations ls = (told, .ok (as, rest))) :
    ∃ front, ls = front ++ rest ∧ Annotations front ∧ startsAnnotationUse rest = false := by
  induction hn : ls.length using Nat.strongRecOn generalizing ls as told with
  | ind n ih =>
    subst hn
    rw [annotations_eq] at h
    unfold manyBody at h
    rw [bind_quiet rfl] at h
    split at h
    · rename_i hstarts
      obtain ⟨a, middle, ha, hmore⟩ := silent_annotationUse.bind_ok h
      obtain ⟨bs, left, hbs, hend⟩ := silent_annotations.bind_ok hmore
      cases hend
      obtain ⟨front, rfl, hfront⟩ := annotates_of_run hstarts ha
      have hlength : middle.length < (front ++ middle).length := by
        obtain ⟨sign, first, more, rfl, -⟩ := hfront.begins
        simp only [List.cons_append, List.length_cons, List.length_append]
        omega
      obtain ⟨more, rfl, hmore, hrest⟩ := ih _ hlength hbs rfl
      exact ⟨front ++ more, (List.append_assoc ..).symm, .cons hfront hmore, hrest⟩
    · rename_i hstops
      cases h
      exact ⟨[], rfl, .nil, by simpa using hstops⟩

/-! ### Pairs of brackets -/

/-- Pairs of brackets, so many of them. -/
inductive Pairs : Nat → List Lexeme → Prop where
  | nil : Pairs 0 []
  | cons {n : Nat} {l r : Lexeme} {ls : List Lexeme} (hl : l.kind = .leftBracket)
      (hr : r.kind = .rightBracket) (more : Pairs n ls) : Pairs (n + 1) (l :: r :: ls)

/-- No pair of brackets stands in front. -/
def EndsPairs (rest : List Lexeme) : Prop :=
  kindAt rest 0 = some .leftBracket → kindAt rest 1 ≠ some .rightBracket

theorem pairs_countDims (ls : List Lexeme) : ∃ front, ls = front ++ (countDims ls).2 ∧
    Pairs (countDims ls).1 front ∧ EndsPairs (countDims ls).2 := by
  fun_induction countDims ls with
  | case1 l r ls h n rest hcount ih =>
    obtain ⟨front, hls, hfront, hends⟩ := ih
    rw [hcount] at hls hfront hends
    simp only [Bool.and_eq_true, decide_eq_true_eq] at h
    exact ⟨l :: r :: front, congrArg (l :: r :: ·) hls, .cons h.1 h.2 hfront, hends⟩
  | case2 l r ls h =>
    refine ⟨[], rfl, .nil, ?_⟩
    simpa [EndsPairs] using h
  | case3 ls h =>
    refine ⟨[], rfl, .nil, ?_⟩
    rcases ls with _ | ⟨l, _ | ⟨r, ls⟩⟩
    · simp [EndsPairs, kindAt]
    · simp [EndsPairs, kindAt]
    · exact absurd rfl (h l r ls)

theorem Pairs.reads {n : Nat} {front rest : List Lexeme} (h : Pairs n front)
    (hrest : EndsPairs rest) : dims (front ++ rest) = ([], .ok (n, rest)) := by
  have hcount : countDims (front ++ rest) = (n, rest) := by
    induction h with
    | nil =>
      match rest with
      | [] | [_] => rfl
      | l :: r :: rest =>
        have hpair : ¬ (l.kind = .leftBracket ∧ r.kind = .rightBracket) := by
          simpa [EndsPairs] using hrest
        simpa [countDims] using hpair
    | cons hl hr _ ih => simp [countDims, hl, hr, ih]
  simp only [dims, hcount]

end Grammar

end JavaModel
