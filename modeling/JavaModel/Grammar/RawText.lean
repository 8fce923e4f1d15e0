import JavaModel.Grammar.Reader
import JavaModel.Text.Blank

/-!
Text that is kept as it stands: what brackets enclose, and expressions up to the sign that ends
them.
-/

namespace JavaModel.Grammar

open Reader

/-- Splits lexemes inside brackets before the closing one; `depth` counts the pairs opened since. -/
def splitClosing (b : Bracket) (depth : Nat) :
    List Lexeme → Option (List Lexeme × Lexeme × List Lexeme)
  | [] => none
  | l :: ls =>
    if l.kind = b.opening then
      (splitClosing b (depth + 1) ls).map fun (inner, rest) => (l :: inner, rest)
    else if l.kind = b.closing then
      match depth with
      | 0 => some ([], l, ls)
      | d + 1 => (splitClosing b d ls).map fun (inner, rest) => (l :: inner, rest)
    else (splitClosing b depth ls).map fun (inner, rest) => (l :: inner, rest)

/-- Takes the opening bracket that stands next, all up to the bracket that closes it, and that
bracket, and returns the trimmed text between the two. -/
def enclosed (b : Bracket) : Reader String := fun ls =>
  match splitClosing b 0 ls.tail with
  | some (inner, close, rest) =>
    ([], .ok (Text.trim (Lexeme.sourceText inner ++ close.leading), rest))
  | none => ([], .error ⟨.closing b, none⟩)

/-- The kinds that may stand between the angle brackets of type arguments. -/
def inTypeArguments : TokenKind → Bool
  | .identifier | .primitive | .dot | .comma | .less | .greater | .question | .extendsWord
  | .superWord | .ampersand | .atSign | .leftBracket | .rightBracket => true
  | _ => false

/-- The kinds that may stand behind the type arguments of an expression, where an operand may not
begin with a comparison. -/
def followsTypeArguments : Option TokenKind → Bool
  | none => true
  | some k =>
    match k with
    | .leftParen | .doubleColon | .dot | .identifier | .comma | .semicolon => true
    | _ => false

/-- Behind `depth + 1` opening angle brackets, the number of lexemes up to and with the one that
closes the outermost. -/
def angleLength (depth : Nat) : List Lexeme → Option Nat
  | [] => none
  | l :: ls =>
    if !inTypeArguments l.kind then none
    else if l.kind = .less then (angleLength (depth + 1) ls).map (· + 1)
    else if l.kind = .greater then
      match depth with
      | 0 => if followsTypeArguments (Lexeme.kindAt ls 0) then some 1 else none
      | d + 1 => (angleLength d ls).map (· + 1)
    else (angleLength depth ls).map (· + 1)

/-- Behind `<`, the number of lexemes that belong to type arguments opened by it, when it reads as
their opening and not as a comparison: a name or a dot stands before it, and what follows the
closing bracket may follow type arguments. -/
def typeArgumentsLength (before : Option TokenKind) (ls : List Lexeme) : Option Nat :=
  if before = some .identifier || before = some .dot then angleLength 0 ls else none

/-- How far an expression has been read. -/
structure ExpressionState where
  /-- Lexemes of type arguments that are still to be passed. -/
  pending : Nat
  /-- Brackets of any kind that are open. -/
  depth : Nat
  /-- The kind of the lexeme before. -/
  before : Option TokenKind
deriving Repr, Inhabited

/-- Splits lexemes before the end of an expression: a comma or a semicolon outside all brackets, or
a bracket that closes more than the expression opened. -/
def splitExpression (s : ExpressionState) : List Lexeme → List Lexeme × List Lexeme
  | [] => ([], [])
  | l :: ls =>
    let take (next : ExpressionState) :=
      let (inner, rest) := splitExpression { next with before := some l.kind } ls
      (l :: inner, rest)
    match s.pending with
    | n + 1 => take { s with pending := n }
    | 0 =>
      match l.kind with
      | .leftParen | .leftBracket | .leftBrace => take { s with depth := s.depth + 1 }
      | .rightParen | .rightBracket | .rightBrace =>
        match s.depth with
        | 0 => ([], l :: ls)
        | d + 1 => take { s with depth := d }
      | .less => take { s with pending := (typeArgumentsLength s.before ls).getD 0 }
      | .semicolon | .comma => if s.depth = 0 then ([], l :: ls) else take s
      | _ => take s

/-- Takes an expression up to the sign that ends it and returns its text. -/
def expression : Reader String := fun ls =>
  if ls.isEmpty then fail .expression ls
  else
    let (inner, rest) := splitExpression ⟨0, 0, none⟩ ls
    if rest.isEmpty then fail .terminator rest
    else if inner.isEmpty then fail .expression rest
    else ([], .ok (Lexeme.bareText inner, rest))

end JavaModel.Grammar
