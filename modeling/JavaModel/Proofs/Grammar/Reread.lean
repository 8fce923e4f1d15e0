import JavaModel.Proofs.Grammar.Captured
import JavaModel.Proofs.Token.Parts

/-! Text that is kept as it stands, read again. What stands between two significant tokens reads as
the significant tokens between them, and an expression as the tokens that it is made of. -/

namespace JavaModel

/-- What a lexeme is, wherever it stands and whatever stands before it. -/
def Lexeme.form (l : Lexeme) : TokenKind × String := (l.kind, l.text)

/-- A text reads without an error as certain significant tokens. -/
def Rereads (raw : String) (ls : List Lexeme) : Prop :=
  (lex raw).error = none ∧ (lexemes raw).map Lexeme.form = ls.map Lexeme.form

instance (raw : String) (ls : List Lexeme) : Decidable (Rereads raw ls) :=
  inferInstanceAs (Decidable (_ ∧ _))

namespace Lexeme

open Lexer

theorem map_form_attach (leading : String) (doc : Option String) (ts : List Token) :
    (attach leading doc ts).map form = significant ts := by
  induction ts generalizing leading doc with
  | nil => rfl
  | cons t ts ih =>
    rw [significant_cons]
    unfold attach
    split
    · rw [ih]
      rfl
    · rw [List.map_cons, ih]
      rfl

theorem toList_sourceText_cons (l : Lexeme) (ls : List Lexeme) : (sourceText (l :: ls)).toList =
    l.leading.toList ++ l.text.toList ++ (sourceText ls).toList := by
  simp [sourceText]

/-- The tokens that lexemes were made from, up to one of them. -/
theorem exists_tokens {leading : String} {doc : Option String} {ts : List Token}
    {front back : List Lexeme} {l : Lexeme} (h : attach leading doc ts = front ++ l :: back) :
    ∃ before t after, ts = before ++ t :: after ∧ attach "" none after = back ∧
      significant before = front.map form ∧ Lexer.form t = form l ∧ t.kind.isTrivia = false ∧
      (sourceText front ++ l.leading).toList =
        leading.toList ++ before.flatMap spelling ++ t.gap.toList := by
  induction ts generalizing leading doc front with
  | nil => cases front <;> cases h
  | cons t ts ih =>
    unfold attach at h
    split at h
    · rename_i htrivia
      obtain ⟨before, u, after, rfl, hback, hforms, hform, hu, hsource⟩ := ih h
      refine ⟨t :: before, u, after, rfl, hback, ?_, hform, hu, ?_⟩
      · rw [significant_cons, htrivia, hforms]
        rfl
      · rw [hsource]
        simp [spelling]
    · rename_i htrivia
      have htrivia : t.kind.isTrivia = false := by simpa using htrivia
      cases front with
      | nil =>
        obtain ⟨rfl, hback⟩ := List.cons.inj h
        exact ⟨[], t, ts, rfl, hback, rfl, rfl, htrivia, by simp [sourceText]⟩
      | cons f front =>
        obtain ⟨rfl, hmore⟩ := List.cons.inj h
        obtain ⟨before, u, after, rfl, hback, hforms, hform, hu, hsource⟩ := ih hmore
        refine ⟨t :: before, u, after, rfl, hback, ?_, hform, hu, ?_⟩
        · rw [significant_cons, htrivia, hforms]
          rfl
        · simp only [String.toList_append, toList_sourceText_cons, List.append_assoc] at hsource ⊢
          rw [hsource]
          simp [spelling]

/-- None of some lexemes begins or ends them with white space that is read as part of it. -/
structure Edged (ls : List Lexeme) : Prop where
  first : ∀ l ∈ ls.head?, ∀ c ∈ l.text.toList.head?, Text.isBlank c = false
  last : ∀ l ∈ ls.getLast?, ∀ c ∈ l.text.toList.getLast?, Text.isBlank c = false

theorem Edged.tokens {ls : List Lexeme} (h : Edged ls) {ts : List Token}
    (hforms : significant ts = ls.map form) : Lexer.Edged ts where
  first t ht hkind := by
    obtain ⟨ts, rfl⟩ := List.head?_eq_some_iff.mp ht
    rw [significant_cons, hkind] at hforms
    cases ls with
    | nil => cases hforms
    | cons l ls =>
      have htext : t.text = l.text := congrArg Prod.snd (List.cons.inj hforms).1
      rw [htext]
      exact h.first l rfl
  last t ht hkind := by
    obtain ⟨ts, rfl⟩ := List.getLast?_eq_some_iff.mp ht
    rw [significant_append, significant_cons, hkind] at hforms
    rcases List.eq_nil_or_concat' ls with rfl | ⟨ls, l, rfl⟩
    · simp at hforms
    · rw [List.map_append] at hforms
      have htext : t.text = l.text :=
        congrArg Prod.snd (List.cons.inj (List.append_inj_right' hforms rfl)).1
      rw [htext]
      exact h.last l (by simp)

variable {text : String} {front inner rest : List Lexeme} {first close : Lexeme}

theorem rereads_of_run {raw : String} {ts : List Token}
    (hread : ∀ s : State, s.pending = 0 → (run s raw.toList).error = none ∧
      significant (run s raw.toList).tokens = significant ts)
    (hforms : significant ts = inner.map form) : Rereads raw inner := by
  obtain ⟨herror, hsame⟩ := hread ⟨0, 0, ⟨0, 0⟩, []⟩ rfl
  exact ⟨herror, (map_form_attach "" none _).trans (hsame.trans hforms)⟩

/-- What stands between two significant tokens reads as the tokens between them, also without the
white space around it, if none of these loses a part. -/
theorem rereads_between (h : lexemes text = front ++ first :: (inner ++ close :: rest)) :
    Rereads (sourceText inner ++ close.leading) inner ∧
      (Edged inner → Rereads (Text.trim (sourceText inner ++ close.leading)) inner) := by
  obtain ⟨before, t, after, htokens, hafter, -⟩ := exists_tokens h
  obtain ⟨ts, u, after, rfl, -, hforms, -, -, hsource⟩ := exists_tokens hafter
  have hbehind : (lex text).tokens = (before ++ [t]) ++ (ts ++ u :: after) := by
    rw [htokens, List.append_assoc, List.singleton_append]
  obtain ⟨start, cs, -, hcuts⟩ := (cuts_lex text).behind hbehind
  have hgap := hcuts.gap_isSpace u (by simp)
  have hprefix : ts.flatMap spelling ++ u.gap.toList <+: cs := by
    have hmore : (ts ++ [u]).flatMap spelling <+: cs :=
      hcuts.spelling_prefix (List.append_cons ts u after)
    rw [List.flatMap_append, List.flatMap_singleton, spelling, ← List.append_assoc] at hmore
    exact (List.prefix_append _ _).trans hmore
  rw [String.toList_empty, List.nil_append] at hsource
  refine ⟨rereads_of_run (fun s hs => ?_) hforms,
    fun hedged => rereads_of_run (fun s hs => ?_) hforms⟩
  · obtain ⟨lead, hlead, hspelling⟩ := exists_flatMap_spelling fun t ht =>
      hcuts.gap_isSpace t (List.mem_append_left _ ht)
    rw [hsource, hspelling, List.append_assoc]
    exact hcuts.run_front rfl hprefix (wordless_blank hgap) hs hlead
  · rw [Text.trim, String.toList_ofList, hsource]
    exact hcuts.run_trimmed rfl hgap hprefix (hedged.tokens hforms) hs

/-- An expression reads as the tokens that it is made of. -/
theorem rereads_from (h : lexemes text = front ++ (first :: inner ++ rest)) :
    Rereads (bareText (first :: inner)) (first :: inner) := by
  obtain ⟨before, t, after, htokens, hafter, -, hform, htrivia, -⟩ := exists_tokens h
  obtain ⟨start, cs, -, hcuts⟩ := (cuts_lex text).behind htokens
  have htext : t.text = first.text := congrArg Prod.snd hform
  -- The tokens of the expression, comments among them, end with its last significant token.
  obtain ⟨ts, more, rfl, hforms, hbare⟩ : ∃ ts more, after = ts ++ more ∧
      significant ts = inner.map form ∧ ts.flatMap spelling = (sourceText inner).toList := by
    rcases List.eq_nil_or_concat' inner with rfl | ⟨inner, l, rfl⟩
    · exact ⟨[], after, rfl, rfl, rfl⟩
    · rw [List.append_eq, List.append_assoc] at hafter
      obtain ⟨ts, u, more, rfl, -, hforms, hform', htrivia', hsource⟩ := exists_tokens hafter
      refine ⟨ts ++ [u], more, by simp, ?_, ?_⟩
      · rw [significant_append, significant_cons, htrivia', hforms, hform', List.map_append]
        rfl
      · have hlast : u.text = l.text := congrArg Prod.snd hform'
        have hsplit : (sourceText (inner ++ [l])).toList =
            (sourceText inner ++ l.leading).toList ++ l.text.toList := by simp [sourceText]
        rw [hsplit, hsource, ← hlast]
        simp [spelling]
  have hfront : (t :: ts).flatMap spelling <+: cs := hcuts.spelling_prefix rfl
  have hforms' : significant (t :: ts) = (first :: inner).map form := by
    rw [significant_cons, htrivia, hforms, hform, List.map_cons]
    rfl
  refine rereads_of_run (fun s hs => ?_) hforms'
  have hread := hcuts.run_front rfl (by rwa [List.append_nil]) wordless_nil hs
    (List.forall_mem_nil _)
  rw [List.append_nil, List.nil_append, bare, hbare, htext, ← String.toList_append] at hread
  exact hread

end Lexeme

end JavaModel
