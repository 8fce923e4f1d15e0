import JavaModel.Proofs.Grammar.Captured
import JavaModel.Proofs.Grammar.PackageNames
import JavaModel.Proofs.Grammar.Progress
import JavaModel.SourceError

/-! Reading ends. The bound on repetition is never met: every round of a loop takes a lexeme before
the next one, a nested type or declaration stands behind a lexeme of the one around it, and what is
passed over at once is there. A text that is read to its end gives a unit, any other an error. -/

namespace JavaModel

namespace Reader

variable {α β : Type} {n : Nat} {ls : List Lexeme}

/-- What one round does depends on further rounds only where fewer lexemes are left. If these leave
an end of what they get, take `n` lexemes and do not stop at the bound, so does the round. -/
def Advances (n : Nat) (body : (α → Reader β) → α → Reader β) : Prop :=
  ∀ self other a ls, (∀ b rest, rest.length < ls.length → Agrees n rest (self b) (other b)) →
    Agrees n ls (body self a) (body other a)

namespace Advances

variable {body : (α → Reader β) → α → Reader β}

/-- More rounds than lexemes change nothing. -/
theorem agrees_unroll (h : Advances n body) {d d' : Nat} (a : α) (ls : List Lexeme)
    (hd : ls.length < d) (hd' : ls.length < d') :
    Agrees n ls (unroll body d a) (unroll body d' a) := by
  induction d generalizing d' a ls with
  | zero => exact absurd hd (Nat.not_lt_zero _)
  | succ d ih =>
    obtain ⟨d', rfl⟩ : ∃ k, d' = k + 1 := ⟨d' - 1, by omega⟩
    exact h _ _ a ls fun b rest hrest => ih b rest (by omega) (by omega)

/-- The bound on rounds is never met: a loop is its round, followed by the loop. -/
theorem recurse_eq (h : Advances n body) (a : α) (ls : List Lexeme) :
    recurse body a ls = body (recurse body) a ls := by
  refine (h (unroll body ls.length) (recurse body) a ls fun b rest hrest => ?_).same
  have hmore := h.agrees_unroll b rest hrest (Nat.lt_succ_self rest.length)
  exact ⟨hmore.same, hmore.taken, hmore.stopped⟩

end Advances

end Reader

namespace Grammar

open Reader Lexeme

/-- The loops of the grammar, each by one round. -/
inductive Loop : {α β : Type} → ((α → Reader β) → α → Reader β) → Prop where
  | annotations : Loop (manyBody startsAnnotationUse annotationUse)
  | decorations : Loop decorationsBody
  | imports : Loop (manyBody (fun ls => kindAt ls 0 = some .importWord) importDeclaration)
  | importedName : Loop importedNameBody
  | typeSegments : Loop (typeSegmentsBody type)
  | typeArguments : Loop (separatedBody .comma (typeArgument type))
  | types : Loop (separatedBody .comma type)
  | bounds : Loop (separatedBody .ampersand type)
  | typeParameters : Loop (separatedBody .comma typeParameter)
  | parameters : Loop (separatedBody .comma parameter)
  | declarators (o : Opening) (t : TypeExpr) : Loop (declaratorsBody o t)
  | constants (enum : String) : Loop (constantsBody enum)
  | members (owner : ClassKind) (className : String) :
      Loop (membersBody classDeclaration owner className)
  | declarations : Loop declarationsBody

/-- The readers that are nested in themselves: types inside types and classes inside classes. -/
inductive Descent : {α β : Type} → ((α → Reader β) → α → Reader β) → Prop where
  | type : Descent typeBody
  | classDeclaration : Descent classBodyOf

theorem advances_separated {α : Type} {separator : TokenKind} {item : Reader α}
    (h : ∀ ls, Proceeds 1 ls item) : Advances 0 (separatedBody separator item) :=
  fun _ _ _ _ hself => (agrees_separatedBody (h _) (hself ())).mono (Nat.zero_le 1)

theorem Loop.advances {α β : Type} {body : (α → Reader β) → α → Reader β} (h : Loop body) :
    Advances 0 body := by
  cases h with
  | annotations =>
    exact fun _ _ _ _ hself => agrees_manyBody (fun _ => proceeds_annotationUse) (hself ())
  | decorations => exact fun _ _ _ _ hself => agrees_decorationsBody (hself ())
  | imports =>
    exact fun _ _ _ _ hself => agrees_manyBody (fun _ _ => proceeds_importDeclaration) (hself ())
  | importedName => exact fun _ _ name _ hself => agrees_importedNameBody name hself
  | typeSegments =>
    exact fun _ _ name ls hself =>
      agrees_typeSegmentsBody (m := ls.length) (fun _ _ => proceeds_type) (by omega) name hself
  | typeArguments =>
    exact advances_separated fun ls => agrees_typeArgument (fun _ _ => proceeds_type)
      (Nat.le_refl ls.length)
  | types | bounds => exact advances_separated fun _ => proceeds_type
  | typeParameters => exact advances_separated fun _ => proceeds_typeParameter
  | parameters => exact advances_separated fun _ => proceeds_parameter
  | declarators o t => exact fun _ _ name _ hself => agrees_declaratorsBody o t name hself
  | constants enum => exact fun _ _ _ _ hself => agrees_constantsBody enum (hself ())
  | members owner className =>
    exact fun _ _ _ _ hself => agrees_membersBody (fun start _ _ => proceeds_classDeclaration start)
      owner className (hself ())
  | declarations => exact fun _ _ _ _ hself => agrees_declarationsBody (hself ())

theorem Descent.advances {α β : Type} {body : (α → Reader β) → α → Reader β} (h : Descent body) :
    Advances 1 body := by
  cases h with
  | type => exact fun _ _ _ _ hself => agrees_typeBody (hself ())
  | classDeclaration => exact fun _ _ start _ hself => agrees_classBodyOf start hself

/-- What is passed over at once is there. -/
structure Jumps (ls : List Lexeme) : Prop where
  modifier : ∀ k n, modifierAt? ls = some (k, n) → 0 < n ∧ n ≤ ls.length
  receiver : ∀ n, receiverLength? ls = some n → 0 < n ∧ n ≤ ls.length
  keyword : ∀ kind, declarationKind? ls = some kind → kindLength kind ≤ ls.length
  typeArguments : ∀ before n, typeArgumentsLength before ls = some n → 0 < n ∧ n ≤ ls.length

theorem jumps (ls : List Lexeme) : Jumps ls where
  modifier k n h := by
    obtain ⟨hpos, front, rest, rfl, rfl, -⟩ := modifierAt?_spec h
    exact ⟨hpos, by simp⟩
  receiver n h := by
    obtain ⟨hpos, front, rest, rfl, rfl, -⟩ := receiverLength?_spec h
    exact ⟨hpos, by simp⟩
  keyword kind h := by
    obtain ⟨front, rest, rfl, hfront, -⟩ := declarationKind?_spec h
    rw [← hfront]
    simp
  typeArguments before n h := by
    unfold typeArgumentsLength at h
    split at h
    · exact ⟨(angleLength_spec h).1, (angleLength_spec h).2.1⟩
    · cases h

/-- The counters of open brackets are never fewer than none: inside the brackets around raw text, in
an expression, and in the type arguments that an expression passes over. -/
structure Counters (ls : List Lexeme) : Prop where
  group : ∀ b inner close rest, splitClosing b 0 ls = some (inner, close, rest) →
    Covered (· = b.opening) (· = b.closing) 0 inner
  expression : ∀ s, Covered (fun k => (Printing.closing? k).isSome) Printing.isClosing s.depth
    (counted s ls)
  typeArguments : ∀ n, angleLength 0 ls = some n →
    Covered (· = .less) (· = .greater) 0 (ls.take (n - 1))

theorem counters (ls : List Lexeme) : Counters ls where
  group _ _ _ _ h := covered_splitClosing h
  expression s := covered_counted s ls
  typeArguments _ h := (angleLength_spec h).2.2

/-! ### Units to their end -/

/-- A reader that succeeds leaves no lexeme. -/
def Exhausts (p : Reader α) : Prop := ∀ ls told a rest, p ls = (told, .ok (a, rest)) → rest = []

theorem Exhausts.behind {p : Reader α} {f : α → Reader β} (hf : ∀ a, Exhausts (f a)) :
    Exhausts (p >>= f) := by
  intro ls told b rest hrun
  obtain ⟨-, a, middle, more, -, hmore, -⟩ := bind_ok hrun
  exact hf a middle more b rest hmore

theorem Exhausts.tell {p : Reader α} (hp : Exhausts p) (e : Event) :
    Exhausts (p >>= fun _ => Reader.tell e) := by
  intro ls told b rest hrun
  obtain ⟨first, a, middle, more, hfirst, hmore, -⟩ := bind_ok hrun
  cases hmore
  exact hp ls first a rest hfirst

/-- The declarations of a unit go on to its end. -/
theorem exhausts_declarations : Exhausts (recurse declarationsBody ()) := by
  intro ls
  refine unroll_induction (P := fun _ p => Exhausts p) ?_ ?_ (ls.length + 1) () ls
  · rintro _ ls told a rest ⟨⟩
  · intro self hself _ ls told a rest hrun
    have hlook : lookAhead ls = ([], .ok (ls, ls)) := rfl
    unfold declarationsBody at hrun
    rw [bind_quiet hlook] at hrun
    have hnext (item : Reader Unit) : Exhausts (item >>= fun _ => self ()) := .behind hself
    split at hrun
    · rename_i hempty
      cases hrun
      simpa using hempty
    split at hrun
    · exact hnext _ ls told a rest hrun
    split at hrun
    · exact hnext _ ls told a rest hrun
    · exact hnext _ ls told a rest hrun

theorem exhausts_compilationUnit : Exhausts compilationUnit :=
  .behind fun _ => .behind fun _ => .behind fun _ => exhausts_declarations.tell .endSource

end Grammar

/-! ### Texts -/

open Grammar Reader

variable {text : String}

/-- How the parsing of a text ends: at a malformed token, behind the last token, or where a token or
the end of the text is not what the grammar looks for. The bound on repetition is no such place. -/
inductive Outcome (text : String) : Parsed → Prop where
  | lexical {e : LexicalError} (h : (lex text).error = some e) :
      Outcome text ⟨[], some (.lexical e)⟩
  | complete {told : List Event} (hlexed : (lex text).error = none)
      (h : compilationUnit (lexemes text) = (told, .ok ((), []))) : Outcome text ⟨told, none⟩
  | mismatch {told : List Event} {m : Mismatch} (hlexed : (lex text).error = none)
      (h : compilationUnit (lexemes text) = (told, .error m))
      (hbound : m.expected ≠ .endOfRepetition)
      (hfound : ∃ rest, rest <:+ lexemes text ∧ m.found = rest.head?) :
      Outcome text ⟨told, some (.grammatical (GrammarError.ofMismatch text m))⟩

theorem parse_outcome (text : String) : Outcome text (parse text) := by
  obtain ⟨e, herror, h⟩ | ⟨herror, ⟨told, rest, hrun, h⟩ | ⟨told, m, hrun, h⟩⟩ := parse_cases text
  · rw [h]
    exact .lexical herror
  · obtain rfl := exhausts_compilationUnit _ _ _ _ hrun
    rw [h]
    exact .complete herror hrun
  · obtain ⟨hbound, hfound⟩ := proceeds_compilationUnit.stopped told m hrun
    rw [h]
    exact .mismatch herror hrun hbound hfound

/-- A literal, a comment or any other token ends within the text and behind a character. -/
theorem boundary_lexeme {front cs : List Char} {c : Char} (h : text.toList = front ++ c :: cs) :
    Text.IsBoundary text
      (String.utf8Len (front ++ (c :: cs).take (Lexer.lexeme c cs).2.length)) := by
  have hcut : text = String.ofList (front ++ (c :: cs).take (Lexer.lexeme c cs).2.length ++
      (c :: cs).drop (Lexer.lexeme c cs).2.length) := by
    rw [List.append_assoc, List.take_append_drop, ← h, String.ofList_toList]
  rw [hcut]
  exact Text.isBoundary_append _ _

/-- How reading a text as a unit goes. -/
structure ReadToEnd (text : String) : Prop where
  /-- Wherever a token begins, it takes a character and ends within the text, between two. -/
  tokens : ∀ front c cs, text.toList = front ++ c :: cs →
    0 < (Lexer.lexeme c cs).2.length ∧ (Lexer.lexeme c cs).2.length ≤ (c :: cs).length ∧
      Text.IsBoundary text
        (String.utf8Len (front ++ (c :: cs).take (Lexer.lexeme c cs).2.length))
  loops : ∀ {α β : Type} {body : (α → Reader β) → α → Reader β}, Loop body →
    Advances 0 body ∧ ∀ a ls, recurse body a ls = body (recurse body) a ls
  descents : ∀ {α β : Type} {body : (α → Reader β) → α → Reader β}, Descent body →
    Advances 1 body ∧ ∀ a ls, recurse body a ls = body (recurse body) a ls
  jumps : ∀ ls, Jumps ls
  counters : ∀ ls, Counters ls
  /-- Raw text reaches from behind the opening bracket to before the closing one. -/
  groups : ∀ b ls told raw rest, ls <:+ lexemes text → enclosed b ls = (told, .ok (raw, rest)) →
    ∃ o inner close, ls = o :: (inner ++ close :: rest) ∧ IsRange text o.stop close.start ∧
      raw = Text.trim (Text.slice text o.stop close.start)
  /-- An expression reaches from its first lexeme to its last. -/
  expressions : ∀ ls told raw rest, ls <:+ lexemes text → expression ls = (told, .ok (raw, rest)) →
    ∃ first inner last, ls = first :: inner ++ rest ∧ last ∈ (first :: inner).getLast? ∧
      IsRange text first.start last.stop ∧ raw = Text.slice text first.start last.stop
  /-- A line begins at every offset or before it. -/
  lines : ∀ offset, (Position.ofOffset text offset).line + 1 =
    (lineStarts text).countP (· ≤ min offset text.utf8ByteSize)
  positions : ∀ l ∈ lexemes text, l.position = Position.ofOffset text l.start
  outcome : Outcome text (parse text)
  unit : ∀ id path,
    ((parse text).error = none ∧
      SourceUnit.ofText id path text = .ok (.ofEvents id path (parse text).events)) ∨
    ∃ e, (parse text).error = some e ∧ SourceUnit.ofText id path text = .error (.malformed e)

/-- Every text is read to its end: into a unit, or up to the error that it has. -/
theorem readToEnd (text : String) : ReadToEnd text where
  tokens front c cs h :=
    ⟨(Lexer.lexeme_within c cs).1, (Lexer.lexeme_within c cs).2, boundary_lexeme h⟩
  loops h := ⟨h.advances, h.advances.recurse_eq⟩
  descents h := ⟨h.advances, h.advances.recurse_eq⟩
  jumps := Grammar.jumps
  counters := Grammar.counters
  groups _ _ _ _ _ hls h := captured_enclosed hls h
  expressions _ _ _ _ hls h := captured_expression hls h
  lines offset := (Position.ofOffset_spec text offset).1
  positions _ h := position_lexemes h
  outcome := parse_outcome text
  unit id path := by
    cases herror : (parse text).error with
    | none => exact .inl ⟨rfl, by simp only [SourceUnit.ofText, herror]⟩
    | some e => exact .inr ⟨e, rfl, by simp only [SourceUnit.ofText, herror]⟩

end JavaModel
