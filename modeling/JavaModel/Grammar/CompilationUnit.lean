import JavaModel.Grammar.Declarations
import JavaModel.Token.Lexer

/-!
A whole source text told as events. A text with a malformed token tells none; a text that stops
following the grammar tells what came before.
-/

namespace JavaModel

namespace Grammar

open Reader Lexeme

/-- A package declaration, if one stands next. Annotations without a package belong to what follows
and are left standing. -/
def packageDeclaration : Reader Unit := do
  let start ← lookAhead
  let doc ← docHere
  let line ← lineHere
  let notes ← annotations
  if ← atKind .packageWord then
    let nearer ← docHere
    tellDoc (doc.or nearer) .onPackage
    skip 1
    let name ← qualifiedName
    let _ ← expect .semicolon .packageEnd
    tell (.package ⟨name, notes, line⟩)
  else continueWith start

/-- The rest of an imported name, and whether a star ends it. -/
def importedNameBody (self : String → Reader (String × Bool)) (name : String) :
    Reader (String × Bool) := do
  if ← accept .dot then
    let ls ← lookAhead
    if kindAt ls 0 = some .operator && (ls.head?.map Lexeme.text) = some "*" then
      skip 1
      pure (name, true)
    else
      let part ← identifier .importedPart
      self (name ++ "." ++ part)
  else pure (name, false)

/-- The import that stands next. -/
def importDeclaration : Reader Unit := do
  let line ← lineHere
  skip 1
  let isStatic ← accept (.modifier .isStatic)
  let first ← identifier .importedName
  let (name, isWildcard) ← recurse importedNameBody first
  let _ ← expect .semicolon .importEnd
  tell (.imports { name, isStatic, isWildcard, line })

/-- Whether a module declaration stands next, behind annotations of one word. -/
def startsModule : List Lexeme → Bool
  | a :: b :: ls =>
    if a.kind = .atSign then startsModule ls
    else isWordAt (a :: b :: ls) 0 "module" ||
      (isWordAt (a :: b :: ls) 0 "open" && isWordAt (a :: b :: ls) 1 "module")
  | ls => isWordAt ls 0 "module"

/-- Passes over a module declaration. -/
def moduleDeclaration : Reader Unit := do
  let ls ← lookAhead
  continueWith (ls.dropWhile fun l => l.kind ≠ .leftBrace)
  if ← atKind .leftBrace then
    let _ ← enclosed .brace
  else fail .moduleOpening

/-- One declaration at the outermost level and those behind it. -/
def declarationsBody (self : Unit → Reader Unit) (_ : Unit) : Reader Unit := do
  let ls ← lookAhead
  if ls.isEmpty then pure ()
  else
    if kindAt ls 0 = some .semicolon then skip 1
    else if startsModule ls then moduleDeclaration
    else typeDeclaration
    self ()

/-- A whole source unit. -/
def compilationUnit : Reader Unit := do
  tell .beginSource
  packageDeclaration
  let _ ← many (fun ls => kindAt ls 0 = some .importWord) importDeclaration
  recurse declarationsBody ()
  tell .endSource

end Grammar

/-- What can be wrong with a source text. -/
inductive SyntaxError where
  | lexical (e : LexicalError)
  | grammatical (e : GrammarError)
deriving DecidableEq, Repr, Inhabited

/-- The position of the error. -/
def SyntaxError.position : SyntaxError → Position
  | lexical e => e.position
  | grammatical e => e.position

def SyntaxError.message : SyntaxError → String
  | lexical e => "lexical error: " ++ e.message
  | grammatical e => "parse error: " ++ e.message

/-- The events that a text tells, and the error that stopped it, if any. -/
structure Parsed where
  events : List Event
  error : Option SyntaxError
deriving Repr, Inhabited

/-- Reads a source text as events. -/
def parse (text : String) : Parsed :=
  let lexed := lex text
  match lexed.error with
  | some e => ⟨[], some (.lexical e)⟩
  | none =>
    match Grammar.compilationUnit (Lexeme.ofTokens lexed.tokens) with
    | (told, .ok _) => ⟨told, none⟩
    | (told, .error m) => ⟨told, some (.grammatical (GrammarError.ofMismatch text m))⟩

end JavaModel
