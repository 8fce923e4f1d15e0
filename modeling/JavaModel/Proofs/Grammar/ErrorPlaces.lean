import JavaModel.Proofs.Grammar.Ending
import JavaModel.Proofs.Text.LineColumn

/-! Positions are exact. Each offset of a text has a position of its own, which counts the lines
before it and the bytes of its line, and every error that a text has stands at the position of its
offset. -/

namespace JavaModel

variable {text : String}

/-- A place where a text does not follow the grammar is that of the significant token found there,
or the end of the text. -/
inductive GrammarError.At (text : String) (e : GrammarError) : Prop where
  | token (l : Lexeme) (hl : l ∈ lexemes text) (hoffset : e.offset = l.start)
      (hfound : e.found = "'" ++ l.text ++ "'")
  | textEnd (hoffset : e.offset = text.utf8ByteSize) (hfound : e.found = "end of input")

/-- What is found at a mismatch is the first of the significant tokens that are left, if any. -/
theorem GrammarError.at_ofMismatch {m : Mismatch}
    (h : ∃ rest, rest <:+ lexemes text ∧ m.found = rest.head?) :
    (ofMismatch text m).At text ∧
      (ofMismatch text m).position = Position.ofOffset text (ofMismatch text m).offset := by
  obtain ⟨rest, hsuffix, hfound⟩ := h
  cases rest with
  | nil =>
    rw [List.head?_nil] at hfound
    simp only [ofMismatch, hfound]
    exact ⟨.textEnd rfl rfl, trivial⟩
  | cons l rest =>
    rw [List.head?_cons] at hfound
    have hl : l ∈ lexemes text := hsuffix.subset List.mem_cons_self
    simp only [ofMismatch, hfound]
    exact ⟨.token l hl rfl rfl, position_lexemes hl⟩

/-- The offset at which an error stands. -/
def SyntaxError.offset : SyntaxError → Nat
  | lexical e => e.offset
  | grammatical e => e.offset

/-- The error of a text stands at its offset, and one of its grammar where something is found. -/
theorem SyntaxError.at_parse {e : SyntaxError} (h : (parse text).error = some e) :
    e.position = Position.ofOffset text e.offset ∧ ∀ g, e = .grammatical g → g.At text := by
  generalize hparsed : parse text = parsed at h
  cases hparsed ▸ parse_outcome text with
  | lexical herror =>
    obtain rfl := Option.some.inj h
    exact ⟨position_lex herror, fun _ hg => nomatch hg⟩
  | complete => cases h
  | mismatch _ _ _ hfound =>
    obtain rfl := Option.some.inj h
    obtain ⟨hat, hposition⟩ := GrammarError.at_ofMismatch hfound
    refine ⟨hposition, fun g hg => ?_⟩
    obtain rfl := SyntaxError.grammatical.inj hg
    exact hat

open Position

/-- What the positions of a text tell. -/
structure ExactPositions (text : String) : Prop where
  /-- The line counts the line feeds before an offset. -/
  line : ∀ o ≤ text.utf8ByteSize, (ofOffset text o).line = (bytesBefore text o).count lineFeed
  /-- The column counts the bytes since the last line feed, or since the text began. -/
  column : ∀ o ≤ text.utf8ByteSize, (ofOffset text o).column =
    ((bytesBefore text o).reverse.takeWhile (· ≠ lineFeed)).length
  /-- The line is the last of those that begin at the offset or before it, and the column is what is
  left of the offset where that line begins. An offset behind the text counts as its end. -/
  starts : ∀ o, (ofOffset text o).line + 1 =
      (lineStarts text).countP (· ≤ min o text.utf8ByteSize) ∧
    ∃ s, (lineStarts text)[(ofOffset text o).line]? = some s ∧
      s + (ofOffset text o).column = min o text.utf8ByteSize
  increasing : ∀ o o', o < o' → o' ≤ text.utf8ByteSize →
    (ofOffset text o).Before (ofOffset text o')
  injective : ∀ o ≤ text.utf8ByteSize, ∀ o' ≤ text.utf8ByteSize,
    ofOffset text o = ofOffset text o' → o = o'
  beyond : ∀ o, text.utf8ByteSize ≤ o → ofOffset text o = ofOffset text text.utf8ByteSize
  /-- A malformed token stands at the position of its offset. -/
  lexical : ∀ e, (lex text).error = some e → e.position = ofOffset text e.offset
  /-- What is wrong with a text stands at the position of its offset. -/
  errors : ∀ e, (parse text).error = some e → e.position = ofOffset text e.offset
  /-- A text that does not follow the grammar is left at the beginning of a significant token, which
  the error shows, or at its end. -/
  grammatical : ∀ e, (parse text).error = some (.grammatical e) → e.At text

/-- Positions and offsets of a text are one to one and in the same order, and every error is told
with both. -/
theorem exactPositions (text : String) : ExactPositions text where
  line o _ := by rw [ofOffset_eq_past, past_lineStart, Nat.zero_add]
  column o _ := by rw [ofOffset_eq_past, past_lineStart]
  starts := ofOffset_spec text
  increasing _ _ h h' := before_ofOffset h h'
  injective _ h _ h' := ofOffset_inj h h'
  beyond _ h := ofOffset_of_size_le h
  lexical _ h := position_lex h
  errors _ h := (SyntaxError.at_parse h).1
  grammatical e h := (SyntaxError.at_parse h).2 e rfl

end JavaModel
