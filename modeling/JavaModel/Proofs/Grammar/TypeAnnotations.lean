import JavaModel.Proofs.Grammar.Reread
import JavaModel.Proofs.Grammar.TypeSyntax

/-! Annotations in types. An annotation in front of a type, of a segment of its name, of a type
argument, of a wildcard or of a bound leaves the type as it is. One in front of a pair of brackets
does not: it ends the type before the brackets. -/

namespace JavaModel.Grammar

open Reader Lexeme

/-! ### Annotations put into lexemes -/

/-- Annotations are put into lexemes, each directly before a lexeme whose kind is among certain
ones; otherwise the same lexemes are there, wherever in a text they stand. -/
inductive Inserted (places : TokenKind → Bool) : List Lexeme → List Lexeme → Prop where
  | nil : Inserted places [] []
  | keep {l l' : Lexeme} {ls ls' : List Lexeme} (hform : l'.form = l.form)
      (more : Inserted places ls ls') : Inserted places (l :: ls) (l' :: ls')
  | note {a : AnnotationUse String} {note ls ls' : List Lexeme} {l : Lexeme}
      (hplace : places l.kind) (hnote : Annotates a note) (more : Inserted places (l :: ls) ls') :
      Inserted places (l :: ls) (note ++ ls')

/-- The kinds that begin a type, a segment of its name, or a wildcard. In a type without annotations
these stand at its front, behind a dot, behind a comma or the bracket that opens type arguments, and
behind the word of a bound, and nowhere else. -/
def beginsPart : TokenKind → Bool
  | .identifier | .primitive | .question => true
  | _ => false

variable {places : TokenKind → Bool} {l : Lexeme} {xs ys ls ls' : List Lexeme}

theorem kind_of_form {l' : Lexeme} (h : l'.form = l.form) : l'.kind = l.kind := congrArg Prod.fst h

theorem text_of_form {l' : Lexeme} (h : l'.form = l.form) : l'.text = l.text := congrArg Prod.snd h

theorem Inserted.of_nil (h : Inserted places [] ls') : ls' = [] := by
  cases h
  rfl

/-- Before a lexeme stand the annotations that are put there, none if its kind is not among those
asked for. -/
theorem Inserted.of_cons (h : Inserted places (l :: ls) ls') : ∃ notes l' more,
    ls' = notes ++ l' :: more ∧ Annotations notes ∧ l'.form = l.form ∧ Inserted places ls more ∧
      (places l.kind = false → notes = []) := by
  generalize hls : l :: ls = all at h
  induction h with
  | nil => cases hls
  | keep hform more =>
    cases hls
    exact ⟨[], _, _, rfl, .nil, hform, more, fun _ => rfl⟩
  | note hplace hnote _ ih =>
    cases hls
    obtain ⟨notes, l', more, rfl, hnotes, hform, hmore, -⟩ := ih rfl
    refine ⟨_, l', more, (List.append_assoc ..).symm, .cons hnote hnotes, hform, hmore, fun h => ?_⟩
    rw [h] at hplace
    cases hplace

/-- Where no annotation may be put, the lexeme itself stands. -/
theorem Inserted.of_fixed (h : Inserted places (l :: ls) ls') (hl : places l.kind = false) :
    ∃ l' more, ls' = l' :: more ∧ l'.form = l.form ∧ Inserted places ls more := by
  obtain ⟨notes, l', more, rfl, -, hform, hmore, hnone⟩ := h.of_cons
  rw [hnone hl]
  exact ⟨l', more, rfl, hform, hmore⟩

theorem Inserted.of_append (h : Inserted places (xs ++ ys) ls') :
    ∃ xs' ys', ls' = xs' ++ ys' ∧ Inserted places xs xs' ∧ Inserted places ys ys' := by
  generalize hall : xs ++ ys = all at h
  induction h generalizing xs with
  | nil =>
    obtain ⟨rfl, rfl⟩ := List.append_eq_nil_iff.mp hall
    exact ⟨[], [], rfl, .nil, .nil⟩
  | keep hform more ih =>
    cases xs with
    | nil =>
      rw [List.nil_append] at hall
      exact ⟨[], _, rfl, .nil, hall ▸ .keep hform more⟩
    | cons x xs =>
      obtain ⟨rfl, hmore⟩ := List.cons.inj hall
      obtain ⟨xs', ys', rfl, hxs, hys⟩ := ih hmore
      exact ⟨_ :: xs', ys', rfl, .keep hform hxs, hys⟩
  | note hplace hnote more ih =>
    cases xs with
    | nil =>
      rw [List.nil_append] at hall
      exact ⟨[], _, rfl, .nil, hall ▸ .note hplace hnote more⟩
    | cons x xs =>
      obtain ⟨rfl, hmore⟩ := List.cons.inj hall
      obtain ⟨xs', ys', rfl, hxs, hys⟩ := ih hall
      exact ⟨_, ys', (List.append_assoc ..).symm, .note hplace hnote hxs, hys⟩

/-- Annotations come before lexemes, so that the last lexeme is still the last. -/
theorem Inserted.lastKind (h : Inserted places ls ls') : lastKind ls' = lastKind ls := by
  induction h with
  | nil => rfl
  | keep hform _ ih => rw [lastKind_cons, lastKind_cons, ih, kind_of_form hform]
  | note _ _ _ ih =>
    rw [lastKind_append, ih, lastKind_cons]
    cases Grammar.lastKind _ <;> rfl

/-- Lexemes without the sign of an annotation hold no annotations. -/
theorem Annotations.eq_nil {notes : List Lexeme} (h : Annotations notes)
    (hplain : ∀ l ∈ notes, l.kind ≠ .atSign) : notes = [] := by
  cases h with
  | nil => rfl
  | cons h _ =>
    obtain ⟨sign, first, more, rfl, hsign, -⟩ := h.begins
    exact absurd hsign (hplain sign (by simp))

/-! ### Types with annotations put in -/

theorem Pairs.inserted {n : Nat} (h : Pairs n ls) (hinserted : Inserted beginsPart ls ls') :
    Pairs n ls' := by
  induction h generalizing ls' with
  | nil =>
    rw [hinserted.of_nil]
    exact .nil
  | cons hl hr _ ih =>
    obtain ⟨l', tail, rfl, hform, htail⟩ := hinserted.of_fixed (by rw [hl]; rfl)
    obtain ⟨r', more, rfl, hform', hmore⟩ := htail.of_fixed (by rw [hr]; rfl)
    exact .cons ((kind_of_form hform).trans hl) ((kind_of_form hform').trans hr) (ih hmore)

/-- Whatever annotations are put into lexemes that write a part of a type without any, they write
the same part. -/
theorem Derives.inserted {part : TypePart} (h : Derives part ls)
    (hplain : ∀ l ∈ ls, l.kind ≠ .atSign) (hinserted : Inserted beginsPart ls ls') :
    Derives part ls' := by
  induction h generalizing ls' with
  | primitive hnotes hp hpairs =>
    obtain ⟨hnone, hmore⟩ := List.forall_mem_append.mp hplain
    obtain rfl := hnotes.eq_nil hnone
    obtain ⟨notes, p', tail, rfl, hnotes, hform, htail, -⟩ := hinserted.of_cons
    rw [← text_of_form hform]
    exact .primitive hnotes ((kind_of_form hform).trans hp) (hpairs.inserted htail)
  | named hnotes hfirst _ hpairs ih =>
    obtain ⟨hnone, hmore⟩ := List.forall_mem_append.mp hplain
    obtain rfl := hnotes.eq_nil hnone
    obtain ⟨notes, first', tail, rfl, hnotes, hform, htail, -⟩ := hinserted.of_cons
    obtain ⟨more, pairs, rfl, hname, hbrackets⟩ := htail.of_append
    have hbehind := ih (List.forall_mem_append.mp (List.forall_mem_cons.mp hmore).2).1 hname
    rw [← text_of_form hform] at hbehind
    exact .named hnotes ((kind_of_form hform).trans hfirst) hbehind (hpairs.inserted hbrackets)
  | last _ ih => exact .last (ih hplain hinserted)
  | segment _ hd hnotes hl _ ih ih' =>
    obtain ⟨hinner, htail⟩ := List.forall_mem_append.mp hplain
    obtain ⟨hnone, hmore⟩ := List.forall_mem_append.mp (List.forall_mem_cons.mp htail).2
    obtain rfl := hnotes.eq_nil hnone
    obtain ⟨inner, behind, rfl, hargs, hbehind⟩ := hinserted.of_append
    obtain ⟨d', segment, rfl, hdot, hsegment⟩ := hbehind.of_fixed (by rw [hd]; rfl)
    obtain ⟨notes, l', more, rfl, hnotes, hform, hname, -⟩ := hsegment.of_cons
    have hlater := ih' (List.forall_mem_cons.mp hmore).2 hname
    rw [← text_of_form hform] at hlater
    exact .segment (ih hinner hargs) ((kind_of_form hdot).trans hd) hnotes
      ((kind_of_form hform).trans hl) hlater
  | absent =>
    rw [hinserted.of_nil]
    exact .absent
  | diamond ho hc =>
    obtain ⟨o', tail, rfl, hopen, htail⟩ := hinserted.of_fixed (by rw [ho]; rfl)
    obtain ⟨c', more, rfl, hclose, hmore⟩ := htail.of_fixed (by rw [hc]; rfl)
    rw [hmore.of_nil]
    exact .diamond ((kind_of_form hopen).trans ho) ((kind_of_form hclose).trans hc)
  | angled ho _ hc ih =>
    obtain ⟨o', tail, rfl, hopen, htail⟩ := hinserted.of_fixed (by rw [ho]; rfl)
    obtain ⟨list, close, rfl, hlist, hclosing⟩ := htail.of_append
    obtain ⟨c', more, rfl, hclose, hmore⟩ := hclosing.of_fixed (by rw [hc]; rfl)
    rw [hmore.of_nil]
    refine .angled ((kind_of_form hopen).trans ho) (ih (fun l hl => ?_) hlist)
      ((kind_of_form hclose).trans hc)
    exact hplain l (List.mem_cons_of_mem _ (List.mem_append_left _ hl))
  | one _ ih => exact .one (ih hplain hinserted)
  | next _ hcomma _ ih ih' =>
    obtain ⟨hfirst, htail⟩ := List.forall_mem_append.mp hplain
    obtain ⟨first, behind, rfl, hargument, hbehind⟩ := hinserted.of_append
    obtain ⟨comma', more, rfl, hform, hmore⟩ := hbehind.of_fixed (by rw [hcomma]; rfl)
    exact .next (ih hfirst hargument) ((kind_of_form hform).trans hcomma)
      (ih' (List.forall_mem_cons.mp htail).2 hmore)
  | exactly _ ih => exact .exactly (ih hplain hinserted)
  | unbounded hnotes hq =>
    obtain ⟨hnone, -⟩ := List.forall_mem_append.mp hplain
    obtain rfl := hnotes.eq_nil hnone
    obtain ⟨notes, q', tail, rfl, hnotes, hform, htail, -⟩ := hinserted.of_cons
    rw [htail.of_nil]
    exact .unbounded hnotes ((kind_of_form hform).trans hq)
  | extending hnotes hq hw _ ih =>
    obtain ⟨hnone, hmore⟩ := List.forall_mem_append.mp hplain
    obtain rfl := hnotes.eq_nil hnone
    obtain ⟨notes, q', tail, rfl, hnotes, hform, htail, -⟩ := hinserted.of_cons
    obtain ⟨w', bound, rfl, hword, hbound⟩ := htail.of_fixed (by rw [hw]; rfl)
    exact .extending hnotes ((kind_of_form hform).trans hq) ((kind_of_form hword).trans hw)
      (ih (List.forall_mem_cons.mp (List.forall_mem_cons.mp hmore).2).2 hbound)
  | above hnotes hq hw _ ih =>
    obtain ⟨hnone, hmore⟩ := List.forall_mem_append.mp hplain
    obtain rfl := hnotes.eq_nil hnone
    obtain ⟨notes, q', tail, rfl, hnotes, hform, htail, -⟩ := hinserted.of_cons
    obtain ⟨w', bound, rfl, hword, hbound⟩ := htail.of_fixed (by rw [hw]; rfl)
    exact .above hnotes ((kind_of_form hform).trans hq) ((kind_of_form hword).trans hw)
      (ih (List.forall_mem_cons.mp (List.forall_mem_cons.mp hmore).2).2 hbound)

/-- What stops a type depends on its last lexeme and on the kinds behind it. -/
theorem TypeStops.congr {front front' rest rest' : List Lexeme} (h : TypeStops front rest)
    (hlast : lastKind front' = lastKind front) (hkinds : ∀ n, kindAt rest' n = kindAt rest n) :
    TypeStops front' rest' := by
  have hsegment : startsTypeSegment rest' = startsTypeSegment rest := by
    simp only [startsTypeSegment, hkinds]
  refine ⟨?_, ?_, ?_⟩
  · rw [hlast, hkinds]
    exact h.args
  · rw [hlast, hsegment]
    exact h.segment
  · have hpairs := h.pairs
    unfold EndsPairs at hpairs ⊢
    rwa [hkinds, hkinds]

theorem kindAt_of_forms (h : ls'.map form = ls.map form) (n : Nat) :
    kindAt ls' n = kindAt ls n := by
  have hkinds : ls'.map Lexeme.kind = ls.map Lexeme.kind := by
    have hmap (ms : List Lexeme) : ms.map Lexeme.kind = (ms.map form).map Prod.fst := by
      rw [List.map_map]
      rfl
    rw [hmap, hmap, h]
  unfold kindAt
  rw [← List.getElem?_map, ← List.getElem?_map, hkinds]

/-- Annotations in front of a type, of a segment of its name, of a type argument, of a wildcard or
of a bound change nothing: the same type is read, and what stood behind it is left. Annotations
behind a type are left too, with all that follows them, also where that is a pair of brackets. -/
theorem type_annotated {front front' rest rest' : List Lexeme} {told : List Event} {t : TypeExpr}
    (h : type (front ++ rest) = (told, .ok (t, rest))) (hplain : ∀ l ∈ front, l.kind ≠ .atSign)
    (hinserted : Inserted beginsPart front front') (hrest : rest'.map form = rest.map form) :
    type (front' ++ rest') = ([], .ok (t, rest')) ∧
      ∀ a note more, Annotates a note →
        type (front' ++ (note ++ more)) = ([], .ok (t, note ++ more)) := by
  obtain ⟨-, taken, htaken, hderives, hstops⟩ := type_iff.mp h
  obtain rfl := List.append_cancel_right htaken
  have hannotated := hderives.inserted hplain hinserted
  refine ⟨?_, fun a note more hnote => ?_⟩
  · exact hannotated.readable rest' (hstops.congr hinserted.lastKind (kindAt_of_forms hrest))
  · obtain ⟨sign, first, behind, rfl, hsign, -⟩ := hnote.begins
    refine hannotated.readable _ ⟨fun _ => ?_, fun _ => ?_, fun hopen => ?_⟩
    · simp [hsign]
    · simp [startsTypeSegment, hsign]
    · simp [hsign] at hopen

/-- The lexemes of `a.Map<?, K[]>[]`, and with annotations before the name, before its second
segment and before both arguments, one of them with arguments of its own. -/
theorem type_annotated_map :
    let opening := [loose .leftBracket "[", loose .rightBracket "]"]
    let behind := loose .identifier "K" :: (opening ++ loose .greater ">" :: opening)
    let note := [loose .atSign "@", loose .identifier "N"]
    let applied := note ++ [loose .leftParen "(", loose .number "1", loose .rightParen ")"]
    let front := loose .identifier "a" :: loose .dot "." :: loose .identifier "Map" ::
      loose .less "<" :: loose .question "?" :: loose .comma "," :: behind
    let front' := note ++ loose .identifier "a" :: loose .dot "." :: (applied ++
      loose .identifier "Map" :: loose .less "<" :: (note ++ loose .question "?" ::
        loose .comma "," :: (note ++ behind)))
    let t : TypeExpr := ⟨"a.Map", [.unbounded, .exactly ⟨"K", [], 1⟩], 1⟩
    (type (front ++ []) = ([], .ok (t, [])) ∧ (∀ l ∈ front, l.kind ≠ .atSign) ∧
      Inserted beginsPart front front') ∧
    type (front' ++ []) = ([], .ok (t, [])) ∧
      type (front' ++ (note ++ opening)) = ([], .ok (t, note ++ opening)) := by
  intro opening behind note applied front front' t
  have hnote : Annotates ⟨"N", none⟩ note := .bare rfl rfl (.nil _)
  have happlied : Annotates ⟨"N", some (Text.trim (sourceText [loose .number "1"] ++ ""))⟩
      applied :=
    @Annotates.applied (loose .atSign "@") (loose .identifier "N") (loose .leftParen "(")
      (loose .rightParen ")") [] [loose .number "1"] "N" rfl rfl (.nil _) rfl
      (@enclosable_of_split .paren _ [] (loose .rightParen ")") rfl) rfl
  have hread : type (front ++ []) = ([], .ok (t, [])) := rfl
  have hplain : ∀ l ∈ front, l.kind ≠ .atSign := by decide
  have hbehind : Inserted beginsPart behind behind :=
    .keep rfl <| .keep rfl <| .keep rfl <| .keep rfl <| .keep rfl <| .keep rfl .nil
  have hinserted : Inserted beginsPart front front' :=
    .note rfl hnote <| .keep rfl <| .keep rfl <| .note rfl happlied <| .keep rfl <|
      .keep rfl <| .note rfl hnote <| .keep rfl <| .keep rfl <| .note rfl hnote hbehind
  obtain ⟨hsame, hleft⟩ := type_annotated hread hplain hinserted rfl
  exact ⟨⟨hread, hplain, hinserted⟩, hsame, hleft _ note opening hnote⟩

/-- Were annotations put in front of pairs of brackets as well, types would not be read as they
were: one between a primitive type and its brackets makes a field an error. -/
theorem type_annotated_brackets :
    (∃ front front' t, type front = ([], .ok (t, [])) ∧ (∀ l ∈ front, l.kind ≠ .atSign) ∧
      Inserted (fun k => beginsPart k || k = .leftBracket) front front' ∧
        type front' ≠ ([], .ok (t, []))) ∧
    (parse "class A \x7b int[] x; \x7d").error = none ∧
      (parse "class A \x7b int @N [] x; \x7d").error ≠ none := by
  refine ⟨?_, by decide +kernel⟩
  let brackets := [loose .leftBracket "[", loose .rightBracket "]"]
  let note := [loose .atSign "@", loose .identifier "N"]
  refine ⟨loose .primitive "int" :: brackets, loose .primitive "int" :: (note ++ brackets),
    ⟨"int", [], 1⟩, rfl, by decide, ?_, ?_⟩
  · exact .keep rfl (.note rfl (.bare rfl rfl (.nil _)) (.keep rfl (.keep rfl .nil)))
  · have hread : type (loose .primitive "int" :: (note ++ brackets)) =
        ([], .ok (⟨"int", [], 0⟩, note ++ brackets)) := rfl
    rw [hread]
    simp [note]

end JavaModel.Grammar
