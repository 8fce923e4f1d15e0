import Mathlib.Data.List.Induction
import JavaModel.Library.Locator
import JavaModel.Proofs.Name

/-! Paths made of plain names. Such names stand in a path as they are, and the extension that a
search puts behind the last of them goes where convention has it. So the files in which a class is
looked for are, one for each leading run of segments of its name, where convention would have the
file of the class with this run as its name. -/

namespace JavaModel

namespace Text

/-- Pieces that do not hold the separator are what a text with separators between them is cut into.
-/
theorem splitAt_intercalate {sep : Char} {pieces : List (List Char)} (hne : pieces ≠ [])
    (h : ∀ piece ∈ pieces, sep ∉ piece) : splitAt sep ([sep].intercalate pieces) = pieces := by
  induction pieces with
  | nil => exact absurd rfl hne
  | cons piece pieces ih =>
    obtain ⟨hpiece, hpieces⟩ := List.forall_mem_cons.mp h
    cases pieces with
    | nil => simpa using splitAt_of_not_mem hpiece
    | cons next pieces =>
      have hrest := ih (List.cons_ne_nil next pieces) hpieces
      rw [List.intercalate_cons_cons, List.append_assoc, List.singleton_append, splitAt_append,
        splitAt_of_not_mem hpiece, hrest, List.singleton_append]

end Text

namespace FilePath

variable {word : String} {words : List String}

/-- A name that means nothing else in a path and has no extension. -/
structure IsPlain (word : String) : Prop where
  nonempty : word ≠ ""
  noSlash : '/' ∉ word.toList
  noDot : '.' ∉ word.toList

/-- Names with a slash between each two. -/
def ofNames (words : List String) : FilePath := ⟨"/".intercalate words⟩

theorem ofNames_concat (hne : words ≠ []) (word : String) :
    (ofNames (words ++ [word])).text = (ofNames words).text ++ "/" ++ word := by
  simp [ofNames, String.intercalate_append_of_ne_nil hne (List.cons_ne_nil word [])]

/-- What goes behind the last name goes behind the path. -/
theorem ofNames_append (words : List String) (word tail : String) :
    ofNames (words ++ [word ++ tail]) = ⟨(ofNames (words ++ [word])).text ++ tail⟩ := by
  by_cases hne : words = []
  · subst hne
    simp [ofNames]
  · have hwhole := ofNames_concat hne (word ++ tail)
    rw [← String.append_assoc, ← ofNames_concat hne] at hwhole
    exact congrArg FilePath.mk hwhole

/-- A path of names ends with the last of them. -/
theorem exists_text_ofNames (words : List String) (word : String) :
    ∃ before, (ofNames (words ++ [word])).text = before ++ word := by
  by_cases hne : words = []
  · subst hne
    exact ⟨"", by simp [ofNames]⟩
  · exact ⟨_, ofNames_concat hne word⟩

namespace IsPlain

theorem toList_ne_nil (h : IsPlain word) : word.toList ≠ [] := by
  simpa using h.nonempty

theorem component? (h : IsPlain word) : component? word.toList = some (.name word) := by
  have hhere : word.toList ≠ ['.'] := fun heq => h.noDot (by simp [heq])
  have hparent : word.toList ≠ ['.', '.'] := fun heq => h.noDot (by simp [heq])
  rw [FilePath.component?, if_neg h.toList_ne_nil, if_neg hhere, if_neg hparent,
    String.ofList_toList]

/-- A plain name has no extension. -/
theorem splitExtension (h : IsPlain word) : splitExtension word = (word, none) := by
  rw [FilePath.splitExtension, Text.splitAt_of_not_mem h.noDot]
  rfl

theorem not_isAbsolute (h : IsPlain word) : ¬ isAbsolute ⟨word⟩ := by
  unfold isAbsolute
  rw [decide_eq_true_eq]
  exact fun heq => h.noSlash (List.mem_of_mem_head? heq)

/-- The last character of a text that ends with a plain name is one of the name. -/
theorem getLast?_append (h : IsPlain word) (before : String) :
    ∃ c ∈ word.toList, (before ++ word).toList.getLast? = some c := by
  obtain ⟨front, c, hc⟩ := List.eq_nil_or_concat word.toList |>.resolve_left h.toList_ne_nil
  rw [String.toList_append, hc]
  exact ⟨c, by simp, by simp [List.getLast?_append]⟩

end IsPlain

theorem components_ofNames (h : ∀ w ∈ words, IsPlain w) :
    (ofNames words).components = words.map .name := by
  cases words with
  | nil => rfl
  | cons word words =>
    obtain ⟨hword, hwords⟩ := List.forall_mem_cons.mp h
    have htext : (ofNames (word :: words)).text.toList =
        ['/'].intercalate ((word :: words).map String.toList) := String.toList_intercalate
    have hparts : (Text.splitAt '/' (ofNames (word :: words)).text.toList).map component? =
        (word :: words).map fun w => some (.name w) := by
      rw [htext, Text.splitAt_intercalate (by simp) fun piece hpiece => ?_, List.map_map]
      · exact List.map_congr_left fun w hw => (h w hw).component?
      · obtain ⟨w, hw, rfl⟩ := List.mem_map.mp hpiece
        exact (h w hw).noSlash
    have hinner : (words.map fun w => some (Component.name w)).filterMap
        (fun c => if c = some .here then none else c) = words.map .name := by
      rw [List.filterMap_map, ← List.filterMap_eq_map]
      rfl
    unfold components
    rw [hparts]
    dsimp only
    split
    · -- A path of plain names does not begin with a slash.
      rename_i heq
      obtain ⟨c, cs, hc⟩ := List.exists_cons_of_ne_nil hword.toList_ne_nil
      obtain ⟨rest, hrest⟩ : ∃ rest, (ofNames (word :: words)).text.toList = c :: rest := by
        rw [htext, List.map_cons, hc]
        cases words with
        | nil => exact ⟨cs, by simp⟩
        | cons next words => exact ⟨_, by rw [List.map_cons, List.intercalate_cons_cons]; rfl⟩
      rw [hrest, List.cons.injEq] at heq
      exact absurd (hc ▸ heq.1 ▸ List.mem_cons_self ..) hword.noSlash
    · exact congrArg (.name word :: ·) hinner

theorem fileName?_ofNames (h : ∀ w ∈ words, IsPlain w) (hword : IsPlain word) :
    (ofNames (words ++ [word])).fileName? = some word := by
  have hall : ∀ w ∈ words ++ [word], IsPlain w :=
    List.forall_mem_append.mpr ⟨h, List.forall_mem_singleton.mpr hword⟩
  simp [fileName?, components_ofNames hall]

/-- A plain name goes behind a path of plain names. -/
theorem join_ofNames (h : ∀ w ∈ words, IsPlain w) (hword : IsPlain word) :
    (ofNames words).join ⟨word⟩ = ofNames (words ++ [word]) := by
  obtain rfl | ⟨front, last, rfl⟩ := List.eq_nil_or_concat words
  · rw [join, if_neg hword.not_isAbsolute]
    simp [ofNames]
  · have hlast : IsPlain last := h last (by simp)
    obtain ⟨before, htext⟩ := exists_text_ofNames front last
    obtain ⟨c, hc, hends⟩ := hlast.getLast?_append before
    have hslash : (ofNames (front ++ [last])).text.toList.getLast? ≠ some '/' := by
      rw [htext, hends]
      rintro heq
      exact hlast.noSlash (Option.some.inj heq ▸ hc)
    have hempty : (ofNames (front ++ [last])).text ≠ "" := by
      rw [htext]
      simp [hlast.nonempty]
    rw [join, if_neg hword.not_isAbsolute, if_neg (by simp [hslash, hempty])]
    exact congrArg FilePath.mk (ofNames_concat (by simp) word).symm

theorem dropHere_cons {c : Char} {cs : List Char} (hslash : c ≠ '/') (hdot : c ≠ '.') :
    dropHere (c :: cs) = c :: cs := by
  unfold dropHere
  split <;> simp_all

/-- The extension goes behind the last name. -/
theorem withExtension_ofNames (h : ∀ w ∈ words, IsPlain w) (hword : IsPlain word)
    {extension : String} (hextension : extension ≠ "") :
    (ofNames (words ++ [word])).withExtension extension =
      ofNames (words ++ [word ++ "." ++ extension]) := by
  have hkept : dropHere (ofNames (words ++ [word])).text.toList.reverse =
      (ofNames (words ++ [word])).text.toList.reverse := by
    obtain ⟨before, htext⟩ := exists_text_ofNames words word
    obtain ⟨c, hc, hends⟩ := hword.getLast?_append before
    obtain ⟨cs, hcs⟩ : ∃ cs, (ofNames (words ++ [word])).text.toList.reverse = c :: cs := by
      rw [← List.head?_reverse, ← htext] at hends
      exact List.head?_eq_some_iff.mp hends
    rw [hcs]
    exact dropHere_cons (fun heq => hword.noSlash (heq ▸ hc)) fun heq => hword.noDot (heq ▸ hc)
  unfold withExtension
  rw [fileName?_ofNames h hword]
  simp only [hword.splitExtension, hkept, Nat.sub_self, List.drop_zero, List.reverse_reverse,
    String.ofList_toList, if_neg hextension]
  rw [String.append_assoc, ofNames_append]

end FilePath

/-- Segments that are plain names stand below each other as they are. -/
theorem pathOfSegments_eq {words : List String} (h : ∀ w ∈ words, FilePath.IsPlain w) :
    pathOfSegments words = FilePath.ofNames words := by
  induction words using List.reverseRecOn with
  | nil => rfl
  | append_singleton words word ih =>
    obtain ⟨hwords, hword⟩ := List.forall_mem_append.mp h
    rw [pathOfSegments, List.foldl_append]
    change (pathOfSegments words).join ⟨word⟩ = _
    rw [ih hwords, FilePath.join_ofNames hwords (List.forall_mem_singleton.mp hword)]

/-- A class may be in the file named for any leading run of segments of its name. -/
theorem mem_candidatePaths {fullName extension word : String} {front rest : List String}
    (hsegments : Name.segments fullName = front ++ word :: rest)
    (hfront : ∀ w ∈ front, FilePath.IsPlain w) (hword : FilePath.IsPlain word)
    (hextension : extension ≠ "") :
    FilePath.ofNames (front ++ [word ++ "." ++ extension]) ∈ candidatePaths fullName extension := by
  refine List.mem_map.mpr ⟨front.length, ?_, ?_⟩
  · rw [List.mem_reverse, List.mem_range, hsegments, List.length_append, List.length_cons]
    omega
  · have htaken : (Name.segments fullName).take (front.length + 1) = front ++ [word] := by
      rw [hsegments, List.take_append, List.take_of_length_le (Nat.le_succ _),
        Nat.add_sub_cancel_left]
      rfl
    have hplain : ∀ w ∈ front ++ [word], FilePath.IsPlain w :=
      List.forall_mem_append.mpr ⟨hfront, List.forall_mem_singleton.mpr hword⟩
    rw [htaken, pathOfSegments_eq hplain, FilePath.withExtension_ofNames hfront hword hextension]

end JavaModel
