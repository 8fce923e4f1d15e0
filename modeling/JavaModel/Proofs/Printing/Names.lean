import JavaModel.Grammar.Types
import JavaModel.Name
import JavaModel.Proofs.Grammar.Reading

/-! Names, annotations and modifiers printed as words, and read back. -/

namespace JavaModel

open Grammar Reader

/-! ### Names -/

/-- The identifiers that the grammar looks for in some places. -/
def contextualWords : List String := ["record", "sealed", "non", "permits", "module", "open"]

/-- A name that may be given to a declaration. -/
structure IsName (name : String) : Prop where
  token : IsToken .identifier name
  plain : name ∉ contextualWords

instance (name : String) : Decidable (IsName name) :=
  decidable_of_iff (IsToken .identifier name ∧ name ∉ contextualWords)
    ⟨fun h => ⟨h.1, h.2⟩, fun h => ⟨h.1, h.2⟩⟩

/-- A name of segments that are names, with a dot between each two. -/
def IsDotted (name : String) : Prop := ∀ s ∈ Name.segments name, IsName s

instance (name : String) : Decidable (IsDotted name) :=
  inferInstanceAs (Decidable (∀ s ∈ Name.segments name, IsName s))

theorem IsName.pieces {name : String} (h : IsName name) :
    (Word.of name).pieces = [⟨.identifier, name, none, []⟩] := h.token.pieces []

theorem IsName.free {name : String} (h : IsName name) : (Word.of name).Free := h.token.free rfl

namespace Printing

/-- The words of a dotted name. -/
def dotted (name : String) : List Word :=
  match Name.segments name with
  | [] => []
  | first :: more => .of first :: more.flatMap fun s => [.sign .dot, .of s]

theorem free_dotted {name : String} (h : IsDotted name) : ∀ w ∈ dotted name, w.Free := by
  unfold dotted
  split
  · exact fun _ hw => absurd hw List.not_mem_nil
  · rename_i first more hsegments
    simp only [IsDotted, hsegments, List.forall_mem_cons] at h
    simp only [List.forall_mem_cons, List.mem_flatMap]
    refine ⟨h.1.free, ?_⟩
    rintro w ⟨s, hs, hw⟩
    simp only [List.mem_cons, List.not_mem_nil, or_false] at hw
    rcases hw with rfl | rfl
    · exact Word.free_sign rfl
    · exact (h.2 s hs).free

theorem flatten_splitAt (sep : Char) (cs : List Char) :
    ∀ first more, Text.splitAt sep cs = first :: more → first ++ more.flatMap (sep :: ·) = cs := by
  induction cs with
  | nil =>
    intro first more h
    cases h
    rfl
  | cons c cs ih =>
    intro first more h
    simp only [Text.splitAt] at h
    split at h
    · rename_i hc
      subst hc
      cases h
      cases hsplit : Text.splitAt c cs with
      | nil => exact absurd hsplit (Text.splitAt_ne_nil c cs)
      | cons piece pieces =>
        have := ih piece pieces hsplit
        simpa [hsplit] using this
    · cases hsplit : Text.splitAt sep cs with
      | nil => exact absurd hsplit (Text.splitAt_ne_nil sep cs)
      | cons piece rest =>
        rw [hsplit] at h
        cases h
        simpa using ih piece _ hsplit

theorem foldl_segments (first : List Char) (more : List (List Char)) :
    (more.map String.ofList).foldl (fun name s => name ++ "." ++ s) (String.ofList first) =
      String.ofList (first ++ more.flatMap ('.' :: ·)) := by
  induction more generalizing first with
  | nil => simp
  | cons s more ih =>
    have hjoin : String.ofList first ++ "." ++ String.ofList s =
        String.ofList (first ++ '.' :: s) := by
      apply String.toList_injective
      simp
    rw [List.map_cons, List.foldl_cons, hjoin, ih, List.flatMap_cons]
    simp

/-- The segments of a name with dots between them are the name. -/
theorem foldl_of_segments {name first : String} {more : List String}
    (h : Name.segments name = first :: more) :
    more.foldl (fun name s => name ++ "." ++ s) first = name := by
  unfold Name.segments at h
  match hsplit : Text.splitAt '.' name.toList with
  | [] => exact absurd hsplit (Text.splitAt_ne_nil '.' name.toList)
  | piece :: rest =>
    rw [hsplit] at h
    cases h
    rw [foldl_segments, flatten_splitAt '.' _ _ _ hsplit, String.ofList_toList]

/-- The pieces of segments behind the first. -/
def segmentPieces (more : List String) : List Piece :=
  more.flatMap fun s => [⟨.dot, ".", none, []⟩, ⟨.identifier, s, none, []⟩]

theorem spell_dotted {name first : String} {more : List String} (h : IsDotted name)
    (hsegments : Name.segments name = first :: more) :
    spell (dotted name) = ⟨.identifier, first, none, []⟩ :: segmentPieces more := by
  have hfirst : IsName first := h first (by rw [hsegments]; exact List.mem_cons_self)
  have hmore : ∀ s ∈ more, IsName s := fun s hs =>
    h s (by rw [hsegments]; exact List.mem_cons_of_mem _ hs)
  simp only [dotted, hsegments, spell_cons, hfirst.pieces, List.singleton_append]
  clear hsegments
  induction more with
  | nil => rfl
  | cons s more ih =>
    have ih := (List.cons.inj (ih fun t ht => hmore t (List.mem_cons_of_mem _ ht))).2
    simp (disch := decide) [segmentPieces, (hmore s List.mem_cons_self).pieces, TokenKind.sign]
      at ih ⊢
    exact ih

theorem takeSegments_segmentPieces (name : String) (segments : List String) {more : List Piece}
    {ls : List Lexeme} (hmore : kindOf more 0 ≠ some .dot)
    (h : Spelled (segmentPieces segments ++ more) ls) :
    ∃ rest, Spelled more rest ∧
      takeSegments name ls = (segments.foldl (fun name s => name ++ "." ++ s) name, rest) := by
  induction segments generalizing name ls with
  | nil =>
    refine ⟨ls, h, ?_⟩
    have hkind : Lexeme.kindAt ls 0 ≠ some .dot := by
      rw [Spelled.kindAt h 0]
      exact hmore
    match ls with
    | [] => rfl
    | [_] => rfl
    | d :: l :: ls =>
      have hd : d.kind ≠ .dot := fun hd => hkind (by simp [Lexeme.kindAt, hd])
      simp [takeSegments, hd]
  | cons s segments ih =>
    cases h with
    | cons hdot h =>
      cases h with
      | cons hname h =>
        obtain ⟨rest, hrest, hrun⟩ := ih (name ++ "." ++ s) h
        refine ⟨rest, hrest, ?_⟩
        simp [takeSegments, hdot.kind, hname.kind, hname.text, hrun]

theorem reads_qualifiedName {name : String} (h : IsDotted name) :
    Reads qualifiedName (spell (dotted name)) (fun more => kindOf more 0 ≠ some .dot) [] name := by
  match hsegments : Name.segments name with
  | [] => exact absurd hsegments (by simp [Name.segments, Text.splitAt_ne_nil])
  | first :: segments =>
    rw [spell_dotted h hsegments]
    refine .step (.identifier rfl _) fun more ls hmore hls => ?_
    obtain ⟨rest, hrest, hrun⟩ := takeSegments_segmentPieces first segments hmore hls
    rw [foldl_of_segments hsegments] at hrun
    refine ⟨rest, hrest, ?_⟩
    rw [bind_quiet rfl, hrun]
    rfl

/-! ### Annotations -/

/-- An annotation of a dotted name without arguments. -/
structure IsMarker (a : AnnotationUse String) : Prop where
  name : IsDotted a.type
  args : a.args = none

/-- The words of an annotation without arguments. -/
def marker (a : AnnotationUse String) : List Word := .sign .atSign :: dotted a.type

/-- The words of annotations. -/
def annotations (notes : List (AnnotationUse String)) : List Word := notes.flatMap marker

theorem free_annotations {notes : List (AnnotationUse String)} (h : ∀ a ∈ notes, IsMarker a) :
    ∀ w ∈ annotations notes, w.Free := by
  intro w hw
  obtain ⟨a, ha, hw⟩ := List.mem_flatMap.mp hw
  rcases List.mem_cons.mp hw with rfl | hw
  · exact Word.free_sign rfl
  · exact free_dotted (h a ha).name w hw

/-- What may stand behind annotations. -/
structure EndsAnnotations (more : List Piece) : Prop where
  note : kindOf more 0 = some .atSign → kindOf more 1 = some .interfaceWord
  name : kindOf more 0 ≠ some .dot
  args : kindOf more 0 ≠ some .leftParen

theorem startsAnnotationUse_eq_false {ps : List Piece} {ls : List Lexeme} (h : Spelled ps ls)
    (hnote : kindOf ps 0 = some .atSign → kindOf ps 1 = some .interfaceWord) :
    startsAnnotationUse ls = false := by
  by_cases hkind : kindOf ps 0 = some .atSign
  · simp [startsAnnotationUse, h.kindAt, hnote hkind]
  · simp [startsAnnotationUse, h.kindAt, hkind]

theorem spell_flatMap {ι : Type} (words : ι → List Word) (xs : List ι) :
    spell (xs.flatMap words) = xs.flatMap fun x => spell (words x) := by
  induction xs with
  | nil => rfl
  | cons x xs ih => rw [List.flatMap_cons, List.flatMap_cons, spell_append, ih]

theorem spell_marker {a : AnnotationUse String} (h : IsMarker a) :
    ∃ first segments, spell (marker a) =
      ⟨.atSign, "@", none, []⟩ :: ⟨.identifier, first, none, []⟩ :: segmentPieces segments := by
  match hsegments : Name.segments a.type with
  | [] => exact absurd hsegments (by simp [Name.segments, Text.splitAt_ne_nil])
  | first :: segments =>
    refine ⟨first, segments, ?_⟩
    rw [marker, spell_cons, spell_dotted h.name hsegments, pieces_sign rfl]
    rfl

theorem reads_annotationUse {a : AnnotationUse String} (h : IsMarker a) :
    Reads annotationUse (spell (marker a))
      (fun more => kindOf more 0 ≠ some .dot ∧ kindOf more 0 ≠ some .leftParen) [] a := by
  have hvalue : a = ⟨a.type, none⟩ := by rw [← h.args]
  rw [marker, spell_cons, pieces_sign rfl, hvalue]
  refine .step (.skip [_]) (.last ((reads_qualifiedName h.name).mono fun more hmore => hmore.1) ?_)
  refine .look (.atKind .leftParen false) (fun more hmore => ?_) (.pure _)
  simpa using hmore.2

theorem reads_annotations {notes : List (AnnotationUse String)} (h : ∀ a ∈ notes, IsMarker a) :
    Reads Grammar.annotations (spell (annotations notes)) EndsAnnotations [] notes := by
  have hstarts : ∀ a ∈ notes, ∀ more ls, Spelled (spell (marker a) ++ more) ls →
      startsAnnotationUse ls = true := by
    intro a ha more ls hls
    obtain ⟨first, segments, hspell⟩ := spell_marker (h a ha)
    rw [hspell] at hls
    simp [startsAnnotationUse, hls.kindAt]
  have hreads : Reads Grammar.annotations _ EndsAnnotations _ _ :=
    Reads.many (fun a ha => reads_annotationUse (h a ha)) ?_ hstarts ?_
      (fun more hmore => ⟨hmore.2, hmore.3⟩) ?_
  · rw [List.flatMap_eq_nil_iff.mpr fun _ _ => rfl, List.map_id'] at hreads
    rwa [annotations, spell_flatMap]
  · intro a ha
    obtain ⟨first, segments, hspell⟩ := spell_marker (h a ha)
    simp [hspell]
  · exact fun more ls hmore hls => startsAnnotationUse_eq_false hls hmore.note
  · intro a ha more
    obtain ⟨first, segments, hspell⟩ := spell_marker (h a ha)
    simp [hspell]

/-! ### Modifiers -/

/-- The words of modifiers. -/
def modifiers (ms : List Modifier) : List Word := ms.map fun m => .of m.keyword

/-- What is written of the lexemes of a modifier. -/
def modifierPieces : Modifier → List Piece
  | .isSealed => [⟨.identifier, "sealed", none, []⟩]
  | .isNonSealed =>
    [⟨.identifier, "non", none, []⟩, ⟨.minus, "-", some "", []⟩,
      ⟨.identifier, "sealed", some "", []⟩]
  | m => [⟨.modifier m, m.keyword, none, []⟩]

theorem pieces_modifier (m : Modifier) : (Word.of m.keyword).pieces = modifierPieces m := by
  cases m <;> rfl

theorem free_modifier (m : Modifier) : (Word.of m.keyword).Free := by
  refine ⟨?_, rfl⟩
  cases m <;> decide +kernel

theorem spell_modifiers (ms : List Modifier) :
    spell (modifiers ms) = ms.flatMap modifierPieces := by
  induction ms with
  | nil => rfl
  | cons m ms ih =>
    rw [List.flatMap_cons, ← ih, ← pieces_modifier]
    rfl

theorem kindOf_modifierPieces (m : Modifier) (qs : List Piece) :
    kindOf (modifierPieces m ++ qs) 0 = some (.modifier m) ∨
      kindOf (modifierPieces m ++ qs) 0 = some .identifier := by
  cases m <;> simp [modifierPieces]

/-- What may stand behind annotations and the given modifiers. -/
structure EndsDecorations (ms : List Modifier) (more : List Piece) : Prop
    extends EndsAnnotations more where
  modifier : ∀ ls, Spelled more ls → modifierAt? ls = none
  afterSealed : .isSealed ∈ ms → followsSealed (kindOf more 0)

theorem EndsDecorations.endsAnnotations {ms : List Modifier} {more : List Piece}
    (h : EndsDecorations ms more) : EndsAnnotations (spell (modifiers ms) ++ more) := by
  rw [spell_modifiers]
  cases ms with
  | nil => exact h.toEndsAnnotations
  | cons m ms =>
    rw [List.flatMap_cons, List.append_assoc]
    rcases kindOf_modifierPieces m (ms.flatMap modifierPieces ++ more) with hkind | hkind <;>
      exact ⟨by simp [hkind], by simp [hkind], by simp [hkind]⟩

theorem modifierAt?_pieces {m : Modifier} {qs : List Piece} {ls : List Lexeme}
    (h : Spelled (modifierPieces m ++ qs) ls)
    (hsealed : m = .isSealed → followsSealed (kindOf qs 0)) :
    modifierAt? ls = some (m, (modifierPieces m).length) := by
  cases m with
  | isSealed => simp [modifierAt?, h.kindAt, h.isWordAt, modifierPieces, hsealed rfl]
  | _ => simp [modifierAt?, h.kindAt, h.isWordAt, modifierPieces]

theorem reads_modifiers {ms : List Modifier} {n : Nat}
    (hn : (spell (modifiers ms)).length < n) :
    Reads (unroll decorationsBody n ()) (spell (modifiers ms)) (EndsDecorations ms) []
      ⟨ms, []⟩ := by
  rw [spell_modifiers] at hn ⊢
  induction ms generalizing n with
  | nil =>
    match n, hn with
    | n + 1, _ =>
      refine .lookAhead (fun more ls hmore hls => ?_) (.pure _)
      have hnote := startsAnnotationUse_eq_false hls hmore.note
      rw [if_neg (by simp [hnote]), hmore.modifier ls hls]
  | cons m ms ih =>
    match n, hn with
    | n + 1, hn =>
      rw [List.flatMap_cons, List.length_append] at hn
      have hlength : 0 < (modifierPieces m).length := by cases m <;> simp [modifierPieces]
      rw [List.flatMap_cons]
      refine .lookAhead (q := skip (modifierPieces m).length >>= fun _ =>
        unroll decorationsBody n () >>= fun more =>
          pure { more with modifiers := m :: more.modifiers }) (fun more ls hmore hls => ?_) ?_
      · rw [List.append_assoc] at hls
        have hnote : startsAnnotationUse ls = false := by
          refine startsAnnotationUse_eq_false hls ?_
          rcases kindOf_modifierPieces m (ms.flatMap modifierPieces ++ more) with hkind | hkind <;>
            simp [hkind]
        have hsealed : m = .isSealed →
            followsSealed (kindOf (ms.flatMap modifierPieces ++ more) 0) := by
          intro hm
          cases ms with
          | nil => exact hmore.afterSealed (by simp [hm])
          | cons m' ms =>
            rw [List.flatMap_cons, List.append_assoc]
            rcases kindOf_modifierPieces m' (ms.flatMap modifierPieces ++ more) with h | h <;>
              simp [h, followsSealed, TokenKind.isModifier]
        rw [if_neg (by simp [hnote]), modifierAt?_pieces hls hsealed]
      · refine .quiet (.skip _) (fun _ _ => trivial) (.last (a := ⟨ms, []⟩) ?_ (.pure _))
        refine (ih (by omega)).mono fun more hmore => ?_
        exact ⟨hmore.1, hmore.modifier, fun hm => hmore.afterSealed (List.mem_cons_of_mem _ hm)⟩

/-- The words of annotations and the modifiers behind them. -/
def decorations (ms : List Modifier) (notes : List (AnnotationUse String)) : List Word :=
  annotations notes ++ modifiers ms

/-- Kinds that neither annotations nor modifiers begin with. -/
theorem kindOf_decorated {ms : List Modifier} {notes : List (AnnotationUse String)}
    (h : ∀ a ∈ notes, IsMarker a) {k : TokenKind} (hnote : k ≠ .atSign)
    (hmodifier : ∀ m, k ≠ .modifier m) (hidentifier : k ≠ .identifier) {ps : List Piece}
    (hps : kindOf ps 0 ≠ some k) : kindOf (spell (decorations ms notes) ++ ps) 0 ≠ some k := by
  cases notes with
  | cons a notes =>
    obtain ⟨first, segments, hspell⟩ := spell_marker (h a List.mem_cons_self)
    simp only [decorations, annotations, List.flatMap_cons, spell_append, hspell]
    simpa using hnote.symm
  | nil =>
    cases ms with
    | nil => exact hps
    | cons m ms =>
      simp only [decorations, annotations, List.flatMap_nil, List.nil_append, spell_modifiers,
        List.flatMap_cons, List.append_assoc]
      rcases kindOf_modifierPieces m (ms.flatMap modifierPieces ++ ps) with hkind | hkind
      · simpa [hkind] using (hmodifier m).symm
      · simpa [hkind] using hidentifier.symm

theorem free_decorations {ms : List Modifier} {notes : List (AnnotationUse String)}
    (h : ∀ a ∈ notes, IsMarker a) : ∀ w ∈ decorations ms notes, w.Free := by
  intro w hw
  rcases List.mem_append.mp hw with hw | hw
  · exact free_annotations h w hw
  · obtain ⟨m, _, rfl⟩ := List.mem_map.mp hw
    exact free_modifier m

theorem reads_decorations {ms : List Modifier} {notes : List (AnnotationUse String)}
    (h : ∀ a ∈ notes, IsMarker a) :
    Reads Grammar.decorations (spell (decorations ms notes)) (EndsDecorations ms) []
      ⟨ms, notes⟩ := by
  refine .recurse fun n hn => ?_
  rw [decorations, annotations, spell_append, spell_flatMap] at hn ⊢
  induction notes generalizing n with
  | nil => exact reads_modifiers hn
  | cons a notes ih =>
    match n, hn with
    | n + 1, hn =>
      obtain ⟨first, segments, hspell⟩ := spell_marker (h a List.mem_cons_self)
      have hlength : 0 < (spell (marker a)).length := by simp [hspell]
      rw [List.flatMap_cons, List.append_assoc, List.length_append] at hn
      rw [List.flatMap_cons, List.append_assoc]
      refine .lookAhead (q := annotationUse >>= fun a => unroll decorationsBody n () >>= fun more =>
        pure { more with annotations := a :: more.annotations }) (fun more ls hmore hls => ?_) ?_
      · rw [hspell] at hls
        exact if_pos (by simp [startsAnnotationUse, hls.kindAt])
      · refine .quiet (reads_annotationUse (h a List.mem_cons_self)) (fun more hmore => ?_)
          (.last (ih (fun b hb => h b (List.mem_cons_of_mem _ hb)) n (by omega)) (.pure _))
        have hnotes : ∀ b ∈ notes, IsMarker b := fun b hb => h b (List.mem_cons_of_mem _ hb)
        rw [← spell_flatMap, ← spell_append]
        exact ⟨kindOf_decorated hnotes (by decide) (by simp) (by decide) hmore.name,
          kindOf_decorated hnotes (by decide) (by simp) (by decide) hmore.args⟩

end Printing

end JavaModel
