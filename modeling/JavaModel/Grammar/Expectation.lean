import JavaModel.Grammar.Lexeme

/-!
What the grammar looks for at a place, and how it says that it found something else.
-/

namespace JavaModel

/-- The two kinds of brackets around raw text. -/
inductive Bracket where
  | brace | paren
deriving DecidableEq, Repr, Inhabited

namespace Bracket

def opening : Bracket → TokenKind
  | brace => .leftBrace
  | paren => .leftParen

def closing : Bracket → TokenKind
  | brace => .rightBrace
  | paren => .rightParen

end Bracket

/-- What may be missing where the grammar stops. -/
inductive Expectation where
  | name | packageEnd | importedName | importedPart | importEnd
  | moduleOpening | declaration | typeName | classOpening | classEnd
  | enumConstant | enumConstantEnd | memberName | methodEnd | fieldName | fieldEnd
  | typeParameterName | typeParametersEnd | type | typeArgumentsEnd
  | parametersOpening | parameterName | parametersEnd
  | expression | terminator
  | closing (b : Bracket)
  /-- Stands for a bound on repetition that is used up, which no text does. -/
  | endOfRepetition
deriving DecidableEq, Repr, Inhabited

/-- The words for what is missing. -/
def Expectation.describe : Expectation → String
  | name => "a name"
  | packageEnd => "';' after the package name"
  | importedName => "an imported name"
  | importedPart => "an identifier or '*'"
  | importEnd => "';' after the import"
  | moduleOpening => "'\x7b' to open the module declaration"
  | declaration => "a class, interface, enum, record or @interface declaration"
  | typeName => "a type name"
  | classOpening => "'\x7b' to open the class body"
  | classEnd => "'\x7d' to close the class body"
  | enumConstant => "an enum constant"
  | enumConstantEnd => "',', ';' or '\x7d' after an enum constant"
  | memberName => "a member name"
  | methodEnd => "a method body or ';'"
  | fieldName => "a field name"
  | fieldEnd => "';' after the field declaration"
  | typeParameterName => "a type parameter name"
  | typeParametersEnd => "'>' to close the type parameters"
  | type => "a type"
  | typeArgumentsEnd => "'>' to close the type arguments"
  | parametersOpening => "'(' to open the parameter list"
  | parameterName => "a parameter name"
  | parametersEnd => "')' to close the parameter list"
  | expression => "an expression"
  | terminator => "';'"
  | closing .brace => "'\x7d' to match the one opened earlier"
  | closing .paren => "')' to match the one opened earlier"
  | endOfRepetition => "the end of a repetition"

/-- A place where the text does not follow the grammar: what was expected there, and the lexeme
found, unless the text ended. -/
structure Mismatch where
  expected : Expectation
  found : Option Lexeme
deriving DecidableEq, Repr, Inhabited

/-- A mismatch told by its place in the text. -/
structure GrammarError where
  offset : Nat
  position : Position
  expected : String
  found : String
deriving DecidableEq, Repr, Inhabited

namespace GrammarError

def message (e : GrammarError) : String :=
  e.position.render ++ ": expected " ++ e.expected ++ ", found " ++ e.found

/-- The place of a mismatch; without a lexeme it is the end of the text. -/
def ofMismatch (text : String) (m : Mismatch) : GrammarError :=
  match m.found with
  | some l => ⟨l.start, l.position, m.expected.describe, "'" ++ l.text ++ "'"⟩
  | none =>
    let offset := text.utf8ByteSize
    ⟨offset, Position.ofOffset text offset, m.expected.describe, "end of input"⟩

end GrammarError

end JavaModel
