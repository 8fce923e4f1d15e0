import JavaModel.Event
import JavaModel.Grammar.Expectation

/-!
Readers of lexemes. A reader takes lexemes from the front, tells events on the way, and either
succeeds with the lexemes left or stops at a mismatch; what it told before stopping stays told.

Every repetition and every nesting goes through `recurse`, whose bound is the number of lexemes
left. A body that takes a lexeme before each round never reaches the bound.
-/

namespace JavaModel

/-- A reader of lexemes that tells events. -/
def Reader (α : Type) : Type := List Lexeme → List Event × Except Mismatch (α × List Lexeme)

namespace Reader

variable {α β : Type}

/-- Takes nothing and tells nothing. -/
def succeed (a : α) : Reader α := fun ls => ([], .ok (a, ls))

/-- Runs a reader and then the one its result asks for, on what is left. -/
def andThen (p : Reader α) (f : α → Reader β) : Reader β := fun ls =>
  match p ls with
  | (told, .error m) => (told, .error m)
  | (told, .ok (a, rest)) =>
    let (more, result) := f a rest
    (told ++ more, result)

instance : Monad Reader where
  pure := succeed
  bind := andThen

instance : Inhabited (Reader α) := ⟨fun ls => ([], .error ⟨.endOfRepetition, ls.head?⟩)⟩

/-- Stops at the next lexeme. -/
def fail (e : Expectation) : Reader α := fun ls => ([], .error ⟨e, ls.head?⟩)

/-- Tells an event. -/
def tell (e : Event) : Reader Unit := fun ls => ([e], .ok ((), ls))

/-- The lexemes left. -/
def lookAhead : Reader (List Lexeme) := fun ls => ([], .ok (ls, ls))

/-- Goes on with other lexemes than those left. -/
def continueWith (ls : List Lexeme) : Reader Unit := fun _ => ([], .ok ((), ls))

/-- Passes over lexemes. -/
def skip (n : Nat) : Reader Unit := fun ls => ([], .ok ((), ls.drop n))

/-- Whether the next lexeme has the kind. -/
def atKind (k : TokenKind) : Reader Bool := fun ls => ([], .ok (Lexeme.kindAt ls 0 = some k, ls))

/-- Takes the next lexeme if it has the kind, and says whether it did. -/
def accept (k : TokenKind) : Reader Bool := fun ls =>
  match ls with
  | l :: rest => if l.kind = k then ([], .ok (true, rest)) else ([], .ok (false, ls))
  | [] => ([], .ok (false, ls))

/-- Takes the next lexeme, which must have the kind, and returns its text. -/
def expect (k : TokenKind) (e : Expectation) : Reader String := fun ls =>
  match ls with
  | l :: rest => if l.kind = k then ([], .ok (l.text, rest)) else fail e ls
  | [] => fail e ls

/-- Takes an identifier. -/
def identifier (e : Expectation) : Reader String := expect .identifier e

/-- The documentation comment before the next lexeme. -/
def docHere : Reader (Option String) := fun ls => ([], .ok (ls.head?.bind Lexeme.doc, ls))

/-- The line of the next lexeme, at the end of the text 0. -/
def lineHere : Reader Nat := fun ls => ([], .ok ((ls.head?.map Lexeme.line).getD 0, ls))

/-- The `n`-fold application of a body to a reader that always stops. -/
def unroll (body : (α → Reader β) → α → Reader β) : Nat → α → Reader β
  | 0 => fun _ => fail .endOfRepetition
  | n + 1 => body (unroll body n)

/-- The reader that a body describes in terms of itself. -/
def recurse (body : (α → Reader β) → α → Reader β) (a : α) : Reader β := fun ls =>
  unroll body (ls.length + 1) a ls

/-- One round of `many`. -/
def manyBody (starts : List Lexeme → Bool) (item : Reader α) (self : Unit → Reader (List α))
    (_ : Unit) : Reader (List α) := do
  if starts (← lookAhead) then
    let a ← item
    let as ← self ()
    pure (a :: as)
  else pure []

/-- Items as long as the lexemes left begin one. -/
def many (starts : List Lexeme → Bool) (item : Reader α) : Reader (List α) :=
  recurse (manyBody starts item) ()

/-- One round of `separated`. -/
def separatedBody (separator : TokenKind) (item : Reader α) (self : Unit → Reader (List α))
    (_ : Unit) : Reader (List α) := do
  let a ← item
  if ← accept separator then
    let as ← self ()
    pure (a :: as)
  else pure [a]

/-- One item at least, with a separator between each two. -/
def separated (separator : TokenKind) (item : Reader α) : Reader (List α) :=
  recurse (separatedBody separator item) ()

end Reader

end JavaModel
