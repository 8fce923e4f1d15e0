/-!
Where a byte of a text stands: its line and its column, both counted from zero, the column in
bytes. Only a line feed ends a line.
-/

namespace JavaModel

/-- A line and a byte column, both counted from zero. -/
structure Position where
  line : Nat
  column : Nat
deriving DecidableEq, Repr, Inhabited

namespace Position

/-- People count lines and columns from one. -/
def render (p : Position) : String := toString (p.line + 1) ++ ":" ++ toString (p.column + 1)

/-- The position behind a character. -/
def after (p : Position) (c : Char) : Position :=
  if c = '\n' then ⟨p.line + 1, 0⟩ else ⟨p.line, p.column + c.utf8Size⟩

/-- The position `offset` bytes further on. Inside a character the column counts its bytes, and an
offset behind the end of the text means the end. -/
def advance : Position → List Char → Nat → Position
  | p, [], _ => p
  | p, c :: cs, offset =>
    if offset < c.utf8Size then ⟨p.line, p.column + offset⟩
    else advance (p.after c) cs (offset - c.utf8Size)

/-- The position of a byte offset in a text. -/
def ofOffset (text : String) (offset : Nat) : Position :=
  advance ⟨0, 0⟩ text.toList offset

/-- The number of lines of a text; the empty text has one. -/
def lineCount (text : String) : Nat := text.toList.count '\n' + 1

end Position

end JavaModel
