import JavaModel.Token

/-!
Tokens that take part in declarations. Each carries the white space and the comments before it, so
that a run of lexemes still holds the text it was read from.
-/

namespace JavaModel

/-- A token other than a comment, with what stands between it and the one before. -/
structure Lexeme where
  kind : TokenKind
  text : String
  /-- The white space and the comments before the token. -/
  leading : String
  /-- The last documentation comment in `leading`. -/
  doc : Option String
  start : Nat
  position : Position
deriving DecidableEq, Repr, Inhabited

namespace Lexeme

/-- The line of the first character, counted from one. -/
def line (l : Lexeme) : Nat := l.position.line + 1

/-- The lexemes of tokens; `leading` and `doc` come from comments already passed. -/
def attach (leading : String) (doc : Option String) : List Token → List Lexeme
  | [] => []
  | t :: ts =>
    if t.kind.isTrivia then
      attach (leading ++ t.gap ++ t.text) (if t.kind.isDocComment then some t.text else doc) ts
    else
      { kind := t.kind, text := t.text, leading := leading ++ t.gap, doc, start := t.start,
        position := t.position } :: attach "" none ts

/-- The lexemes of tokens. -/
def ofTokens (ts : List Token) : List Lexeme := attach "" none ts

/-- The source text of lexemes, with all that stands before each. -/
def sourceText (ls : List Lexeme) : String := String.join (ls.map fun l => l.leading ++ l.text)

/-- The source text of lexemes from the first token on. -/
def bareText : List Lexeme → String
  | [] => ""
  | l :: ls => l.text ++ sourceText ls

/-- The kind of the lexeme `n` places further on. -/
def kindAt (ls : List Lexeme) (n : Nat) : Option TokenKind := ls[n]?.map kind

/-- Whether the lexeme `n` places further on is the identifier `word`. -/
def isWordAt (ls : List Lexeme) (n : Nat) (word : String) : Bool :=
  match ls[n]? with
  | some l => l.kind = .identifier && l.text = word
  | none => false

end Lexeme

end JavaModel
