import JavaModel.Proofs.Grammar.Brackets
import JavaModel.Proofs.Text.Position
import JavaModel.Proofs.Token.Tiling

/-! Text that is kept as it stands is a slice of the source. Lexemes stand in their text one behind
the other with nothing lost between them, so that what is captured of a run of them reaches from one
offset to a later one, both of them at the beginning of a character. -/

namespace JavaModel

/-- The byte offset behind the last character. -/
def Lexeme.stop (l : Lexeme) : Nat := l.start + l.text.utf8ByteSize

namespace Lexeme

/-! ### Where lexemes stand -/

/-- Behind certain characters, others begin with the source text of lexemes, each of which knows
where it stands. -/
inductive Stands : List Char → List Char → List Lexeme → Prop where
  | nil (before cs : List Char) : Stands before cs []
  | cons {before cs : List Char} {l : Lexeme} {ls : List Lexeme}
      (hstart : l.start = String.utf8Len (before ++ l.leading.toList))
      (more : Stands (before ++ l.leading.toList ++ l.text.toList) cs ls) :
      Stands before (l.leading.toList ++ (l.text.toList ++ cs)) (l :: ls)

/-- Comments before a token stand in what leads to it. -/
theorem stands_attach {start : Nat} {cs : List Char} {r : Lexed} (h : Lexer.Cuts start cs r)
    (before : List Char) (leading : String) (doc : Option String)
    (hstart : String.utf8Len (before ++ leading.toList) = start) :
    Stands before (leading.toList ++ cs) (attach leading doc r.tokens) := by
  induction h generalizing before leading doc with
  | blank => exact .nil _ _
  | fault => exact .nil _ _
  | @token start gap c cs t r hgap hc hfault hkind htext hblank hbegin more ih =>
    have hcut : gap ++ c :: cs =
        gap ++ (t.text.toList ++ (c :: cs).drop (Lexer.lexeme c cs).2.length) := by
      rw [htext, String.toList_ofList, List.take_append_drop]
    have hstop : String.utf8Len (before ++ leading.toList ++ gap ++ t.text.toList) = t.stop := by
      rw [String.utf8Len_append, String.utf8Len_append, hstart, ← hbegin, String.utf8Len_toList,
        Token.stop]
    have hleading : (leading ++ t.gap).toList = leading.toList ++ gap := by
      rw [String.toList_append, hblank, String.toList_ofList]
    rw [hcut]
    unfold attach
    split
    · have htrivia : (leading ++ t.gap ++ t.text).toList =
          leading.toList ++ (gap ++ t.text.toList) := by
        rw [String.toList_append, hleading, List.append_assoc]
      have hmore := ih before (leading ++ t.gap ++ t.text)
        (if t.kind.isDocComment then some t.text else doc)
        (by rw [htrivia, ← hstop]; simp only [List.append_assoc])
      rw [htrivia] at hmore
      simpa only [List.append_assoc] using hmore
    · have hfront : before ++ (leading ++ t.gap).toList = before ++ leading.toList ++ gap := by
        rw [hleading, List.append_assoc]
      have hbefore : String.utf8Len (before ++ (leading ++ t.gap).toList) = t.start := by
        rw [hfront, String.utf8Len_append, hstart, hbegin]
      have hmore := ih (before ++ (leading ++ t.gap).toList ++ t.text.toList) "" none (by
        rw [hfront]
        simpa using hstop)
      have happend : leading.toList ++ (gap ++ (t.text.toList ++
          (c :: cs).drop (Lexer.lexeme c cs).2.length)) = (leading ++ t.gap).toList ++
            (t.text.toList ++ (c :: cs).drop (Lexer.lexeme c cs).2.length) := by
        rw [hleading, List.append_assoc]
      rw [String.toList_empty, List.nil_append] at hmore
      rw [happend]
      refine .cons (l := ⟨t.kind, t.text, leading ++ t.gap, doc, t.start, t.position⟩) ?_ ?_
      · exact hbefore.symm
      · exact hmore

theorem Stands.behind {before cs : List Char} {front ls : List Lexeme}
    (h : Stands before cs (front ++ ls)) :
    ∃ rest, cs = (sourceText front).toList ++ rest ∧
      Stands (before ++ (sourceText front).toList) rest ls := by
  induction front generalizing before cs with
  | nil => exact ⟨cs, rfl, by simpa [sourceText] using h⟩
  | cons l front ih =>
    cases h with
    | cons hstart more =>
      obtain ⟨rest, rfl, hrest⟩ := ih more
      refine ⟨rest, ?_, ?_⟩
      · simp [sourceText]
      · simpa [sourceText, List.append_assoc] using hrest

/-- Any end of the lexemes of a text stands in it. -/
theorem stands_suffix {text : String} {ls : List Lexeme} (h : ls <:+ lexemes text) :
    ∃ before cs, text.toList = before ++ cs ∧ Stands before cs ls := by
  have hall := stands_attach (Lexer.cuts_lex text) [] "" none rfl
  obtain ⟨front, hfront⟩ := h
  change Stands [] text.toList (lexemes text) at hall
  rw [← hfront] at hall
  obtain ⟨rest, hrest, hstands⟩ := hall.behind
  exact ⟨_, rest, hrest, hstands⟩

/-- The last of the lexemes in front ends where their source text does. -/
theorem Stands.stop_last {before cs : List Char} {front ls : List Lexeme} {l : Lexeme}
    (h : Stands before cs (front ++ ls)) (hl : l ∈ front.getLast?) :
    l.stop = String.utf8Len (before ++ (sourceText front).toList) := by
  induction front generalizing before cs with
  | nil => cases hl
  | cons first front ih =>
    cases h with
    | cons hstart more =>
      cases front with
      | nil =>
        obtain rfl : first = l := by simpa using hl
        simp [Lexeme.stop, hstart, sourceText, Nat.add_assoc]
      | cons second front =>
        rw [List.getLast?_cons_cons] at hl
        rw [ih more hl]
        simp [sourceText, List.append_assoc]

end Lexeme

namespace Grammar

open Lexeme

variable {text raw : String} {ls rest : List Lexeme} {told : List Event}

/-- A range of a text that begins before it ends, at the beginning of a character, and ends at the
end of one. -/
structure IsRange (text : String) (start stop : Nat) : Prop where
  ordered : start ≤ stop
  begins : Text.IsBoundary text start
  ends : Text.IsBoundary text stop

theorem isRange_append {front middle back : List Char}
    (h : text.toList = front ++ middle ++ back) :
    IsRange text (String.utf8Len front) (String.utf8Len (front ++ middle)) ∧
      Text.slice text (String.utf8Len front) (String.utf8Len (front ++ middle)) =
        String.ofList middle := by
  have htext : text = String.ofList (front ++ middle ++ back) := by
    rw [← h, String.ofList_toList]
  have hbegins := Text.isBoundary_append front (middle ++ back)
  rw [← List.append_assoc] at hbegins
  rw [htext, String.utf8Len_append]
  refine ⟨⟨Nat.le_add_right _ _, hbegins, ?_⟩, Text.slice_append front middle back⟩
  rw [← String.utf8Len_append]
  exact Text.isBoundary_append (front ++ middle) back

/-- What stands between two lexemes of a text is the source text of the lexemes between them, and
what leads to the second. -/
theorem slice_between {o close : Lexeme} {inner : List Lexeme}
    (hls : o :: (inner ++ close :: rest) <:+ lexemes text) :
    IsRange text o.stop close.start ∧
      Text.slice text o.stop close.start = sourceText inner ++ close.leading := by
  obtain ⟨before, cs, htext, hstands⟩ := stands_suffix hls
  cases hstands with
  | @cons _ cs _ _ hstart more =>
    obtain ⟨cs, rfl, hclose⟩ := more.behind
    cases hclose with
    | @cons _ cs _ _ hstart' _ =>
      have hstop : o.stop = String.utf8Len (before ++ o.leading.toList ++ o.text.toList) := by
        rw [Lexeme.stop, hstart, String.utf8Len_append _ o.text.toList, String.utf8Len_toList]
      have hcut : text.toList = before ++ o.leading.toList ++ o.text.toList ++
          ((sourceText inner).toList ++ close.leading.toList) ++ (close.text.toList ++ cs) := by
        rw [htext]
        simp only [List.append_assoc]
      have hrange := isRange_append hcut
      rw [← List.append_assoc, ← hstop, ← hstart'] at hrange
      refine ⟨hrange.1, ?_⟩
      rw [hrange.2, ← String.toList_append, String.ofList_toList]

/-- What brackets enclose is captured from behind the first to before the last. -/
theorem captured_enclosed {b : Bracket} (hls : ls <:+ lexemes text)
    (h : enclosed b ls = (told, .ok (raw, rest))) :
    ∃ o inner close, ls = o :: (inner ++ close :: rest) ∧ IsRange text o.stop close.start ∧
      raw = Text.trim (Text.slice text o.stop close.start) := by
  obtain ⟨-, o, inner, close, rfl, -, -, rfl⟩ := enclosed_ok h
  obtain ⟨hrange, hslice⟩ := slice_between hls
  exact ⟨o, inner, close, rfl, hrange, by rw [hslice]⟩

/-- From the beginning of one lexeme of a text to the end of a later one stands the source text of
the lexemes from the one to the other, without what leads to the first. -/
theorem slice_from {first last : Lexeme} {inner : List Lexeme}
    (hls : first :: inner ++ rest <:+ lexemes text) (hlast : last ∈ (first :: inner).getLast?) :
    IsRange text first.start last.stop ∧
      Text.slice text first.start last.stop = bareText (first :: inner) := by
  obtain ⟨before, cs, htext, hstands⟩ := stands_suffix hls
  obtain ⟨behind, hcs, -⟩ := hstands.behind
  have hstop := hstands.stop_last hlast
  have hstart : first.start = String.utf8Len (before ++ first.leading.toList) := by
    cases hstands with
    | cons hstart _ => exact hstart
  have hsource : before ++ (sourceText (first :: inner)).toList =
      before ++ first.leading.toList ++ (bareText (first :: inner)).toList := by
    simp [sourceText, bareText, List.append_assoc]
  have hcut : text.toList = before ++ first.leading.toList ++
      (bareText (first :: inner)).toList ++ behind := by
    rw [htext, hcs, ← List.append_assoc, hsource]
  have hrange := isRange_append hcut
  rw [hsource] at hstop
  rwa [← hstart, ← hstop, String.ofList_toList] at hrange

/-- An expression is captured from the beginning of its first token to the end of its last. -/
theorem captured_expression (hls : ls <:+ lexemes text)
    (h : expression ls = (told, .ok (raw, rest))) :
    ∃ first inner last, ls = first :: inner ++ rest ∧ last ∈ (first :: inner).getLast? ∧
      IsRange text first.start last.stop ∧ raw = Text.slice text first.start last.stop := by
  obtain ⟨-, inner, rfl, -, hinner, -, rfl⟩ := expression_ok h
  obtain ⟨first, more, rfl⟩ := List.exists_cons_of_ne_nil hinner
  have hlast := List.getLast?_eq_some_getLast hinner
  obtain ⟨hrange, hslice⟩ := slice_from hls hlast
  exact ⟨first, more, _, rfl, hlast, hrange, hslice.symm⟩

end Grammar

namespace Lexer

/-- A reading goes on to an offset and gives it the position that it has. -/
structure State.Places (s : State) (cs : List Char) (offset : Nat) (position : Position) :
    Prop where
  ahead : s.offset ≤ offset
  position : position = s.position.advance cs (offset - s.offset)

/-- Where a reading stands it gives the position at which it stands. -/
theorem State.places_here (s : State) (c : Char) (cs : List Char) :
    s.Places (c :: cs) s.offset s.position :=
  ⟨Nat.le_refl _, by simp [Position.advance, c.utf8Size_pos]⟩

/-- What is placed from behind the first character on is placed. -/
theorem State.Places.before {s next : State} {c : Char} {cs : List Char} {offset : Nat}
    {position : Position} (h : next.Places cs offset position)
    (hoffset : next.offset = s.offset + c.utf8Size)
    (hposition : next.position = s.position.after c) : s.Places (c :: cs) offset position := by
  have hpos := c.utf8Size_pos
  obtain ⟨hahead, hadvance⟩ := h
  rw [hoffset] at hahead
  refine ⟨by omega, ?_⟩
  rw [hadvance, hposition, hoffset, Position.advance, if_neg (by omega), Nat.sub_add_eq]

/-- A token knows the position that its offset has, and so does an error. -/
theorem places_run (s : State) (cs : List Char) :
    (∀ t ∈ (run s cs).tokens, s.Places cs t.start t.position) ∧
      ∀ e, (run s cs).error = some e → s.Places cs e.offset e.position := by
  induction cs generalizing s with
  | nil => simp [run]
  | cons c cs ih =>
    -- What is read behind the first character is placed from there on.
    have hbeyond (next : State) (hoffset : next.offset = s.offset + c.utf8Size)
        (hposition : next.position = s.position.after c) :
        (∀ t ∈ (run next cs).tokens, s.Places (c :: cs) t.start t.position) ∧
          ∀ e, (run next cs).error = some e → s.Places (c :: cs) e.offset e.position :=
      ⟨fun t ht => ((ih next).1 t ht).before hoffset hposition,
        fun e he => ((ih next).2 e he).before hoffset hposition⟩
    cases hpending : s.pending with
    | succ n =>
      rw [run_pending hpending]
      exact hbeyond _ rfl rfl
    | zero =>
      cases hspace : isSpace c with
      | true =>
        rw [run_space hpending hspace]
        exact hbeyond _ rfl rfl
      | false =>
        cases hfault : (lexeme c cs).2.fault with
        | some fault =>
          simp only [run, hpending, hspace, Bool.false_eq_true, if_false, hfault, List.not_mem_nil,
            false_implies, implies_true, true_and, Option.some.injEq, forall_eq']
          exact s.places_here c cs
        | none =>
          rw [run_token hpending hspace hfault]
          obtain ⟨htokens, herror⟩ := hbeyond (s.begun c cs) rfl rfl
          exact ⟨List.forall_mem_cons.mpr ⟨s.places_here c cs, htokens⟩, herror⟩

end Lexer

/-- A significant token stands where one of the tokens does. -/
theorem Lexeme.token_of_attach {leading : String} {doc : Option String} {ts : List Token}
    {l : Lexeme} (h : l ∈ attach leading doc ts) :
    ∃ t ∈ ts, l.start = t.start ∧ l.position = t.position := by
  induction ts generalizing leading doc with
  | nil => cases h
  | cons t ts ih =>
    unfold attach at h
    split at h
    · obtain ⟨u, hu, heq⟩ := ih h
      exact ⟨u, List.mem_cons_of_mem t hu, heq⟩
    · rcases List.mem_cons.mp h with rfl | h
      · exact ⟨t, List.mem_cons_self, rfl, rfl⟩
      · obtain ⟨u, hu, heq⟩ := ih h
        exact ⟨u, List.mem_cons_of_mem t hu, heq⟩

/-- The position of a significant token is that of its offset. -/
theorem position_lexemes {text : String} {l : Lexeme} (h : l ∈ lexemes text) :
    l.position = Position.ofOffset text l.start := by
  obtain ⟨t, ht, hstart, hposition⟩ := Lexeme.token_of_attach h
  rw [hposition, hstart]
  exact ((Lexer.places_run _ _).1 t ht).position

/-- The position of a malformed token is that of its offset. -/
theorem position_lex {text : String} {e : LexicalError} (h : (lex text).error = some e) :
    e.position = Position.ofOffset text e.offset :=
  ((Lexer.places_run _ _).2 e h).position

end JavaModel
