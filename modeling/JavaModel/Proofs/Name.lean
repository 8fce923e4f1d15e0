import JavaModel.Name
import JavaModel.Proofs.Text.Trimming
import JavaModel.TypeExpr

/-! Dotted names taken apart and put together. The segments of names with dots between them are
those of the names, so that names whose segments are words of a kind are closed under everything
that puts one name behind another. The package that is guessed of a name stands in front of it, up
to the first capital. The name of a type is taken apart from its brackets. -/

namespace JavaModel

namespace Text

variable {sep : Char} {as bs : List Char}

/-- A separator between two texts separates their pieces. -/
theorem splitAt_append (sep : Char) (as bs : List Char) :
    splitAt sep (as ++ sep :: bs) = splitAt sep as ++ splitAt sep bs := by
  induction as with
  | nil => simp [splitAt]
  | cons c cs ih =>
    simp only [List.cons_append, splitAt, ih]
    by_cases hc : c = sep
    · simp [hc]
    · obtain ⟨piece, pieces, hpieces⟩ := List.exists_cons_of_ne_nil (splitAt_ne_nil sep cs)
      simp [hc, hpieces]

theorem splitAt_of_not_mem (h : sep ∉ as) : splitAt sep as = [as] := by
  induction as with
  | nil => rfl
  | cons c cs ih =>
    rw [List.mem_cons, not_or] at h
    obtain ⟨hc, hcs⟩ := h
    simp [splitAt, Ne.symm hc, ih hcs]

/-- The pieces with separators between them are the text. -/
theorem intercalate_splitAt (sep : Char) (cs : List Char) :
    [sep].intercalate (splitAt sep cs) = cs := by
  induction cs with
  | nil => rfl
  | cons c cs ih =>
    obtain ⟨piece, pieces, hpieces⟩ := List.exists_cons_of_ne_nil (splitAt_ne_nil sep cs)
    by_cases hc : c = sep
    · rw [splitAt, if_pos hc, List.intercalate_cons_of_ne_nil (splitAt_ne_nil sep cs), ih, hc]
      rfl
    · rw [hpieces] at ih
      rw [splitAt, if_neg hc, hpieces]
      cases pieces with
      | nil => rw [List.intercalate_singleton] at ih ⊢; rw [ih]
      | cons next others =>
        rw [List.intercalate_cons_cons] at ih ⊢
        rw [List.cons_append, List.cons_append, ih]

/-- No piece holds the separator. -/
theorem not_mem_of_mem_splitAt {piece : List Char} (h : piece ∈ splitAt sep as) : sep ∉ piece := by
  induction as generalizing piece with
  | nil => simp_all [splitAt]
  | cons c cs ih =>
    obtain ⟨first, rest, hsplit⟩ := List.exists_cons_of_ne_nil (splitAt_ne_nil sep cs)
    have hrest (p : List Char) (hp : p ∈ first :: rest) : sep ∉ p := ih (hsplit ▸ hp)
    by_cases hc : c = sep
    · rw [splitAt, if_pos hc, hsplit] at h
      rcases List.mem_cons.mp h with rfl | h
      · exact List.not_mem_nil
      · exact hrest piece h
    · rw [splitAt, if_neg hc, hsplit] at h
      rcases List.mem_cons.mp h with rfl | h
      · rw [List.mem_cons, not_or]
        exact ⟨Ne.symm hc, hrest first (List.mem_cons_self ..)⟩
      · exact hrest piece (List.mem_cons_of_mem _ h)

end Text

namespace Name

variable {W : String → Prop} {a b name word : String} {words : List String}

/-- A dot between two names separates their segments. -/
theorem segments_append (a b : String) : segments (a ++ "." ++ b) = segments a ++ segments b := by
  have hchars : (a ++ "." ++ b).toList = a.toList ++ '.' :: b.toList := by
    simp
  rw [segments, hchars, Text.splitAt_append, List.map_append]
  rfl

theorem segments_of_not_mem (h : '.' ∉ word.toList) : segments word = [word] := by
  rw [segments, Text.splitAt_of_not_mem h, List.map_singleton, String.ofList_toList]

/-- The segments of names with dots between them are those of the names. -/
theorem segments_ofSegments (hne : words ≠ []) :
    segments (ofSegments words) = words.flatMap segments := by
  induction words with
  | nil => exact absurd rfl hne
  | cons w ws ih =>
    cases ws with
    | nil =>
      rw [ofSegments, String.intercalate_singleton, List.flatMap_singleton]
    | cons v vs =>
      have hrest := ih (List.cons_ne_nil v vs)
      rw [ofSegments, String.intercalate_cons_cons, segments_append, List.flatMap_cons]
      exact congrArg (segments w ++ ·) hrest

theorem segments_ne_nil (name : String) : segments name ≠ [] := by
  simp [segments, Text.splitAt_ne_nil]

/-- A name is its segments with dots between them. -/
theorem ofSegments_segments (name : String) : ofSegments (segments name) = name := by
  apply String.toList_inj.mp
  have hpieces : (segments name).map String.toList = Text.splitAt '.' name.toList := by
    simp [segments, Function.comp_def]
  rw [ofSegments, String.toList_intercalate, hpieces]
  exact Text.intercalate_splitAt '.' name.toList

theorem not_mem_of_mem_segments (h : word ∈ segments name) : '.' ∉ word.toList := by
  obtain ⟨piece, hpiece, rfl⟩ := List.mem_map.mp h
  rw [String.toList_ofList]
  exact Text.not_mem_of_mem_splitAt hpiece

/-! ### Names of words -/

/-- A name whose segments are words of a kind. -/
def Dotted (W : String → Prop) (name : String) : Prop := ∀ w ∈ segments name, W w

theorem Dotted.mono {V : String → Prop} (h : Dotted W name) (hWV : ∀ w, W w → V w) :
    Dotted V name := fun w hw => hWV w (h w hw)

theorem Dotted.append (ha : Dotted W a) (hb : Dotted W b) : Dotted W (a ++ "." ++ b) := by
  rw [Dotted, segments_append]
  exact List.forall_mem_append.mpr ⟨ha, hb⟩

/-- Dotted names with dots between them. -/
theorem Dotted.ofSegments (hne : words ≠ []) (h : ∀ w ∈ words, Dotted W w) :
    Dotted W (ofSegments words) := by
  rw [Dotted, segments_ofSegments hne]
  intro word hword
  obtain ⟨w, hw, hword⟩ := List.mem_flatMap.mp hword
  exact h w hw word hword

/-- A segment of a dotted name is one word. -/
theorem Dotted.segment (h : Dotted W name) (hword : word ∈ segments name) : Dotted W word := by
  rw [Dotted, segments_of_not_mem (not_mem_of_mem_segments hword)]
  exact List.forall_mem_singleton.mpr (h word hword)

theorem Dotted.join {outer : Option String} (houter : ∀ o ∈ outer, Dotted W o)
    (hname : Dotted W name) : Dotted W (join outer name) := by
  cases outer with
  | none => exact hname
  | some o =>
    unfold Name.join
    dsimp only
    split
    · exact hname
    · exact (houter o rfl).append hname

/-- A name of one segment, which is a word of a kind. -/
structure Single (W : String → Prop) (word : String) : Prop where
  holds : W word
  segments : segments word = [word]

theorem Single.dotted (h : Single W word) : Dotted W word := by
  rw [Dotted, h.segments]
  exact List.forall_mem_singleton.mpr h.holds

/-- The segments of words are the words. -/
theorem flatMap_segments (h : ∀ w ∈ words, Single W w) : words.flatMap segments = words := by
  induction words with
  | nil => rfl
  | cons w ws ih =>
    obtain ⟨hw, hws⟩ := List.forall_mem_cons.mp h
    rw [List.flatMap_cons, hw.segments, ih hws, List.singleton_append]

theorem single_of_not_mem (hword : W word) (hfree : '.' ∉ word.toList) : Single W word :=
  ⟨hword, segments_of_not_mem hfree⟩

/-! ### The package of a name -/

theorem ofSegments_append {front behind : List String} (hfront : front ≠ [])
    (hbehind : behind ≠ []) :
    ofSegments (front ++ behind) = ofSegments front ++ "." ++ ofSegments behind :=
  String.intercalate_append_of_ne_nil hfront hbehind

/-- One more segment comes behind a dot. -/
theorem ofSegments_concat {parts : List String} (h : parts ≠ []) (part : String) :
    ofSegments (parts ++ [part]) = ofSegments parts ++ "." ++ part :=
  ofSegments_append h (List.cons_ne_nil part [])

/-- The simple name is the last segment. -/
theorem simple_of_segments {front : List String} (h : segments name = front ++ [word]) :
    simple name = word := by
  rw [simple, h, List.getLastD_concat]

/-- A qualifier is what stands before the last dot. -/
theorem eq_append_of_qualifier? (h : qualifier? name = some a) :
    name = a ++ "." ++ simple name := by
  have hlast : (segments name).dropLast ++ [simple name] = segments name := by
    rw [simple, List.getLastD_eq_getLast?, List.getLast?_eq_some_getLast (segments_ne_nil name),
      Option.getD_some, List.dropLast_append_getLast]
  unfold qualifier? at h
  split at h
  · cases h
  · rename_i hne
    obtain rfl := Option.some.inj h
    calc name = ofSegments (segments name) := (ofSegments_segments name).symm
      _ = ofSegments ((segments name).dropLast ++ [simple name]) := by rw [hlast]
      _ = ofSegments (segments name).dropLast ++ "." ++ simple name := ofSegments_concat hne _

/-- The package that is guessed of a name stands in front of it, before a dot. -/
theorem exists_of_package? (h : package? name = some a) : ∃ rest, name = a ++ "." ++ rest := by
  unfold package? at h
  dsimp only at h
  split at h
  · cases h
  · rename_i hleading
    split at h
    · exact ⟨_, eq_append_of_qualifier? h⟩
    · rename_i hlength
      obtain rfl := Option.some.inj h
      let low (s : String) : Bool := !isCapitalized s
      have hparts := List.takeWhile_append_dropWhile (p := low) (l := segments name)
      have hrest : (segments name).dropWhile low ≠ [] := by
        intro hnil
        rw [hnil, List.append_nil] at hparts
        exact hlength (congrArg List.length hparts)
      refine ⟨ofSegments ((segments name).dropWhile low), ?_⟩
      rw [← ofSegments_append hleading hrest, hparts, ofSegments_segments]

/-- The package of a name is guessed right where none of its segments is capitalized and the next
one is. -/
theorem package?_of_segments {outer : Option String} {rest : List String}
    (h : segments name = outer.toList.flatMap segments ++ word :: rest)
    (hlow : ∀ o ∈ outer, ∀ s ∈ segments o, isCapitalized s = false)
    (hword : isCapitalized word) : package? name = outer := by
  have hleading : (segments name).takeWhile (fun s => !isCapitalized s) =
      outer.toList.flatMap segments := by
    have hall : ∀ s ∈ outer.toList.flatMap segments, (!isCapitalized s) = true := by
      intro s hs
      obtain ⟨o, ho, hs⟩ := List.mem_flatMap.mp hs
      rw [hlow o (Option.mem_toList.mp ho) s hs]
      rfl
    rw [h, List.takeWhile_append_of_pos hall, List.takeWhile_cons_of_neg (by simp [hword]),
      List.append_nil]
  unfold package?
  simp only [hleading]
  cases outer with
  | none => rfl
  | some o =>
    have hlength : (segments o).length ≠ (segments name).length := by
      simp [h]
    simp only [Option.toList_some, List.flatMap_singleton]
    split
    · exact absurd ‹_› (segments_ne_nil o)
    · rw [if_neg hlength, ofSegments_segments]

/-! ### Brackets behind a name -/

open Text

theorem exists_dropBrackets {cs : List Char} (h : ∀ c ∈ cs, isBlank c = false) (count : Nat) :
    ∃ pairs, (dropBrackets count cs).2 = count + pairs ∧
      cs = (List.replicate pairs [']', '[']).flatten ++ (dropBrackets count cs).1 := by
  fun_induction dropBrackets count cs with
  | case1 count rest ih =>
    obtain ⟨pairs, hcount, hrest⟩ := ih fun c hc => h c (by simp [hc])
    refine ⟨pairs + 1, by omega, ?_⟩
    rw [List.replicate_succ, List.flatten_cons, List.append_assoc, ← hrest]
    rfl
  | case2 count c rest _ hblank _ =>
    rw [h c (List.mem_cons_self ..)] at hblank
    cases hblank
  | case3 | case4 => exact ⟨0, rfl, rfl⟩

theorem toList_brackets (count : Nat) :
    (brackets count).toList = (List.replicate count ['[', ']']).flatten := by
  rw [brackets, String.toList_join, List.flatMap_def, List.map_replicate]
  rfl

/-- Without white space, a type's text is what stands before its brackets, and the brackets. -/
theorem append_brackets_splitDimensions {type : String}
    (h : ∀ c ∈ type.toList, isBlank c = false) :
    (splitDimensions type).1 ++ brackets (splitDimensions type).2 = type := by
  have htrim : trimLeft type.toList = type.toList :=
    trimLeft_eq_self fun c hc => h c (List.mem_of_head? hc)
  have hreverse : ∀ c ∈ type.toList.reverse, isBlank c = false :=
    fun c hc => h c (List.mem_reverse.mp hc)
  obtain ⟨pairs, hcount, hchars⟩ := exists_dropBrackets hreverse 0
  apply String.toList_inj.mp
  rw [String.toList_append, toList_brackets, splitDimensions, htrim]
  generalize dropBrackets 0 type.toList.reverse = parts at hcount hchars
  rw [hcount, Nat.zero_add, String.toList_ofList, List.reverse_eq_iff.mp hchars]
  simp [List.reverse_flatten]

end Name

end JavaModel
