import JavaModel.Modifier
import JavaModel.Text.Position
import JavaModel.Text.Quoted

/-!
The words and signs that source text is made of, and what can be wrong with one.
-/

namespace JavaModel

/-- What a token is. A closing angle bracket always stands alone, so that nested type arguments
close one level at a time. -/
inductive TokenKind where
  | packageWord | importWord | classWord | interfaceWord | enumWord
  | extendsWord | implementsWord | throwsWord | superWord
  | modifier (m : Modifier)
  | primitive | reserved | literalWord | identifier | number | string | character
  | lineComment | blockComment | docComment
  | leftBrace | rightBrace | leftParen | rightParen | leftBracket | rightBracket
  | semicolon | comma | dot | ellipsis | atSign | less | greater | question | ampersand
  | equals | colon | doubleColon | arrow | minus | operator
deriving DecidableEq, Repr, Inhabited

namespace TokenKind

/-- Comments do not take part in declarations. -/
def isTrivia : TokenKind → Bool
  | lineComment | blockComment | docComment => true
  | _ => false

def isDocComment (k : TokenKind) : Bool := k = docComment

def isModifier : TokenKind → Bool
  | modifier _ => true
  | _ => false

/-- The words that are not identifiers. -/
def words : List (String × TokenKind) :=
  [("package", packageWord), ("import", importWord), ("class", classWord),
   ("interface", interfaceWord), ("enum", enumWord), ("extends", extendsWord),
   ("implements", implementsWord), ("throws", throwsWord), ("super", superWord),
   ("default", modifier .isDefault), ("public", modifier .isPublic),
   ("protected", modifier .isProtected), ("private", modifier .isPrivate),
   ("static", modifier .isStatic), ("abstract", modifier .isAbstract),
   ("final", modifier .isFinal), ("native", modifier .isNative),
   ("synchronized", modifier .isSynchronized), ("transient", modifier .isTransient),
   ("volatile", modifier .isVolatile), ("strictfp", modifier .isStrictfp),
   ("boolean", primitive), ("byte", primitive), ("char", primitive), ("short", primitive),
   ("int", primitive), ("long", primitive), ("float", primitive), ("double", primitive),
   ("void", primitive),
   ("if", reserved), ("else", reserved), ("for", reserved), ("while", reserved), ("do", reserved),
   ("switch", reserved), ("case", reserved), ("break", reserved), ("continue", reserved),
   ("return", reserved), ("new", reserved), ("this", reserved), ("throw", reserved),
   ("try", reserved), ("catch", reserved), ("finally", reserved), ("instanceof", reserved),
   ("assert", reserved), ("goto", reserved), ("const", reserved),
   ("true", literalWord), ("false", literalWord), ("null", literalWord)]

/-- The kind of a word: an identifier unless it is one of `words`. -/
def ofWord (word : String) : TokenKind := (words.lookup word).getD identifier

end TokenKind

/-- A token and where it stands, with the white space before it. -/
structure Token where
  kind : TokenKind
  text : String
  /-- The white space between the token before and this one. -/
  gap : String
  /-- The byte offset of the first character. -/
  start : Nat
  /-- The line and the column of the first character. -/
  position : Position
deriving DecidableEq, Repr, Inhabited

/-- The byte offset behind the last character. -/
def Token.stop (t : Token) : Nat := t.start + t.text.utf8ByteSize

/-- What can be wrong with a token. -/
inductive LexicalFault where
  | invalidCharacter | unterminatedString | unterminatedTextBlock | unterminatedCharacter
  | unterminatedComment | invalidEscape
deriving DecidableEq, Repr, Inhabited

/-- What should have stood in place of the fault. -/
def LexicalFault.expected : LexicalFault → String
  | invalidCharacter => "expected a valid token"
  | unterminatedString => "expected closing '\"' before end of line"
  | unterminatedTextBlock => "expected closing '\"\"\"'"
  | unterminatedCharacter => "expected closing '\\''"
  | unterminatedComment => "expected closing '*/'"
  | invalidEscape => "expected a valid escape sequence"

/-- A malformed token: what is wrong, where it starts, and its first characters. -/
structure LexicalError where
  fault : LexicalFault
  offset : Nat
  position : Position
  found : String
deriving DecidableEq, Repr, Inhabited

def LexicalError.message (e : LexicalError) : String :=
  e.position.render ++ ": " ++ e.fault.expected ++ ", found " ++ Text.quoted e.found

end JavaModel
