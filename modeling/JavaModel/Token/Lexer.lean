import JavaModel.Token

/-!
Source text read as tokens. `lexeme` measures the token at the front of a text, always the longest
one, and `lex` takes tokens from the front until the text ends or a token is malformed.
-/

namespace JavaModel

/-- How far a token reaches, in characters, and what is wrong with it, if anything. -/
structure Extent where
  length : Nat
  fault : Option LexicalFault
deriving DecidableEq, Repr, Inhabited

namespace Extent

/-- The whole of what was measured, without a fault. -/
def whole (n : Nat) : Extent := ⟨n, none⟩

/-- What was measured up to a fault. -/
def broken (n : Nat) (fault : LexicalFault) : Extent := ⟨n, some fault⟩

/-- The same end, seen from `n` characters before. -/
def shift (n : Nat) (e : Extent) : Extent := ⟨n + e.length, e.fault⟩

end Extent

namespace Lexer

/-- White space between tokens: blank, tab, the two line ends and form feed. -/
def isSpace (c : Char) : Bool := c = ' ' || c = '\t' || c = '\r' || c = '\n' || c = '\x0c'

def isLineEnd (c : Char) : Bool := c = '\n' || c = '\r'

def isDigit (c : Char) : Bool := '0' ≤ c && c ≤ '9'

def isLetter (c : Char) : Bool := ('a' ≤ c && c ≤ 'z') || ('A' ≤ c && c ≤ 'Z')

/-- Letters, `$`, `_`, and everything outside ASCII may begin a word. -/
def isWordStart (c : Char) : Bool := isLetter c || c = '_' || c = '$' || 0x80 ≤ c.toNat

def isWordPart (c : Char) : Bool := isWordStart c || isDigit c

/-- The number of leading characters with a property. -/
def span (p : Char → Bool) (cs : List Char) : Nat := (cs.takeWhile p).length

/-! ### Numbers -/

def isHexPart (c : Char) : Bool :=
  isDigit c || ('a' ≤ c && c ≤ 'f') || ('A' ≤ c && c ≤ 'F') || c = '_'

def isBinaryPart (c : Char) : Bool := c = '0' || c = '1' || c = '_'

def isDecimalPart (c : Char) : Bool := isDigit c || c = '_'

def isNumberSuffix (c : Char) : Bool :=
  c = 'l' || c = 'L' || c = 'f' || c = 'F' || c = 'd' || c = 'D'

/-- One letter for the type of a number, if there is one. -/
def numberSuffix : List Char → Nat
  | c :: _ => if isNumberSuffix c then 1 else 0
  | [] => 0

/-- An exponent: its letter, a sign or none, and at least one digit. -/
def exponent : List Char → Nat
  | c :: cs =>
    if c = 'e' || c = 'E' then
      match cs with
      | [] => 0
      | s :: ds =>
        if s = '+' || s = '-' then
          match span isDigit ds with
          | 0 => 0
          | n => n + 2
        else
          match span isDigit (s :: ds) with
          | 0 => 0
          | n => n + 1
    else 0
  | [] => 0

/-- A point and the digits behind it, which may be none. -/
def fraction : List Char → Nat
  | '.' :: cs => span isDecimalPart cs + 1
  | _ => 0

/-- The digits behind the base sign of a number, without them 0. -/
def basedDigits (cs : List Char) : Nat :=
  match cs with
  | '0' :: x :: ds =>
    if x = 'x' || x = 'X' then span isHexPart ds
    else if x = 'b' || x = 'B' then span isBinaryPart ds
    else 0
  | _ => 0

/-- The length of a decimal number: digits, then a fraction, an exponent and a suffix, of which each
may be missing. -/
def decimalLength (cs : List Char) : Nat :=
  let digits := span isDecimalPart cs
  let mantissa := digits + fraction (cs.drop digits)
  let scaled := mantissa + exponent (cs.drop mantissa)
  scaled + numberSuffix (cs.drop scaled)

/-- The length of the number at the front, which begins with a digit or with a point before one. -/
def numberLength (cs : List Char) : Nat :=
  match basedDigits cs with
  | 0 => decimalLength cs
  | n => n + 2 + numberSuffix (cs.drop (n + 2))

/-! ### Literals and comments -/

/-- The characters that may follow a backslash. Of an octal or a Unicode escape only the first is
looked at. -/
def isEscape (c : Char) : Bool :=
  c = 'b' || c = 's' || c = 't' || c = 'n' || c = 'f' || c = 'r' || c = '"' || c = '\'' ||
    c = '\\' || c = 'u' || ('0' ≤ c && c ≤ '7')

/-- A string behind its opening quote. -/
def stringBody : List Char → Extent
  | [] => .broken 0 .unterminatedString
  | ['\\'] => .broken 1 .unterminatedString
  | '\\' :: e :: cs =>
    if isEscape e then (stringBody cs).shift 2
    else if isLineEnd e then .broken 1 .unterminatedString
    else .broken 2 .invalidEscape
  | c :: cs =>
    if c = '"' then .whole 1
    else if isLineEnd c then .broken 0 .unterminatedString
    else (stringBody cs).shift 1

/-- A text block behind its opening quotes. A backslash covers the character behind it. -/
def textBlockBody : List Char → Extent
  | [] => .broken 0 .unterminatedTextBlock
  | ['\\'] => .broken 1 .unterminatedTextBlock
  | '\\' :: _ :: cs => (textBlockBody cs).shift 2
  | '"' :: '"' :: '"' :: _ => .whole 3
  | _ :: cs => (textBlockBody cs).shift 1

/-- Whether three quotes open a text block: the rest of their line is empty. -/
def opensTextBlock (cs : List Char) : Bool :=
  match cs.dropWhile fun c => c = ' ' || c = '\t' || c = '\x0c' with
  | c :: _ => isLineEnd c
  | [] => false

/-- A string or a text block behind its first quote. -/
def stringLiteral : List Char → Extent
  | '"' :: '"' :: cs =>
    if opensTextBlock cs then (textBlockBody cs).shift 2 else stringBody ('"' :: '"' :: cs)
  | cs => stringBody cs

/-- A character literal behind its opening quote. A quote closes it only when something has been
seen, and it may hold more than one character. -/
def characterBody (seen : Bool) : List Char → Extent
  | [] => .broken 0 .unterminatedCharacter
  | ['\\'] => .broken 1 .unterminatedCharacter
  | '\\' :: e :: cs =>
    if isEscape e then (characterBody true cs).shift 2 else .broken 2 .invalidEscape
  | c :: cs =>
    if c = '\'' && seen then .whole 1
    else if isLineEnd c then .broken 0 .unterminatedCharacter
    else (characterBody true cs).shift 1

/-- A block comment behind its opening sign. -/
def commentBody : List Char → Extent
  | [] => .broken 0 .unterminatedComment
  | '*' :: '/' :: _ => .whole 2
  | _ :: cs => (commentBody cs).shift 1

/-- A comment with a second star documents what follows it, unless that star also closes it. -/
def commentKind (cs : List Char) : TokenKind :=
  if cs.head? = some '*' && 2 < (commentBody cs).length then .docComment else .blockComment

/-! ### Tokens -/

/-- The signs of one character. -/
def sign? (c : Char) : Option TokenKind :=
  if c = '\x7b' then some .leftBrace
  else if c = '\x7d' then some .rightBrace
  else if c = '(' then some .leftParen
  else if c = ')' then some .rightParen
  else if c = '[' then some .leftBracket
  else if c = ']' then some .rightBracket
  else if c = ';' then some .semicolon
  else if c = ',' then some .comma
  else if c = '.' then some .dot
  else if c = '@' then some .atSign
  else if c = '<' then some .less
  else if c = '>' then some .greater
  else if c = '?' then some .question
  else if c = '&' then some .ampersand
  else if c = '=' then some .equals
  else if c = ':' then some .colon
  else if c = '-' then some .minus
  else if c = '+' || c = '*' || c = '/' || c = '%' || c = '!' || c = '~' || c = '^' || c = '|' then
    some .operator
  else none

/-- The token at the front of a text whose first character is `c` and whose rest is `cs`. -/
def lexeme (c : Char) (cs : List Char) : TokenKind × Extent :=
  if isWordStart c then
    let n := span isWordPart (c :: cs)
    (TokenKind.ofWord (String.ofList ((c :: cs).take n)), .whole n)
  else if isDigit c then (.number, .whole (numberLength (c :: cs)))
  else if c = '"' then (.string, (stringLiteral cs).shift 1)
  else if c = '\'' then (.character, (characterBody false cs).shift 1)
  else
    match c, cs with
    | '/', '/' :: rest => (.lineComment, .whole (span (· ≠ '\n') rest + 2))
    | '/', '*' :: rest => (commentKind rest, (commentBody rest).shift 2)
    | '.', '.' :: '.' :: _ => (.ellipsis, .whole 3)
    | '.', d :: _ =>
      if isDigit d then (.number, .whole (numberLength (c :: cs))) else (.dot, .whole 1)
    | ':', ':' :: _ => (.doubleColon, .whole 2)
    | '-', '>' :: _ => (.arrow, .whole 2)
    | _, _ =>
      match sign? c with
      | some kind => (kind, .whole 1)
      | none => (.operator, .broken 1 .invalidCharacter)

end Lexer

/-- The tokens of a text up to its end or to the first malformed token. -/
structure Lexed where
  tokens : List Token
  error : Option LexicalError
deriving DecidableEq, Repr, Inhabited

namespace Lexer

/-- Where a reading stands: what it has passed over of the current token or gap. -/
structure State where
  /-- Characters of the token just taken that are still to be passed. -/
  pending : Nat
  offset : Nat
  position : Position
  /-- The white space since the last token, backwards. -/
  gap : List Char
deriving Repr, Inhabited

/-- The most characters of a malformed token that are shown. -/
def shownLength : Nat := 24

/-- Passes over the characters, taking a token wherever one begins. -/
def run (s : State) : List Char → Lexed
  | [] => ⟨[], none⟩
  | c :: cs =>
    let next := { s with offset := s.offset + c.utf8Size, position := s.position.after c }
    match s.pending with
    | n + 1 => run { next with pending := n } cs
    | 0 =>
      if isSpace c then run { next with gap := c :: s.gap } cs
      else
        let (kind, extent) := lexeme c cs
        match extent.fault with
        | some fault =>
          let found := String.ofList (((c :: cs).take extent.length).take shownLength)
          ⟨[], some ⟨fault, s.offset, s.position, found⟩⟩
        | none =>
          let token : Token :=
            { kind, text := String.ofList ((c :: cs).take extent.length),
              gap := String.ofList s.gap.reverse, start := s.offset, position := s.position }
          let rest := run { next with pending := extent.length - 1, gap := [] } cs
          { rest with tokens := token :: rest.tokens }

end Lexer

/-- The tokens of a text. -/
def lex (text : String) : Lexed := Lexer.run ⟨0, 0, ⟨0, 0⟩, []⟩ text.toList

end JavaModel
