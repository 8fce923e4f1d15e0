import JavaModel.DocText
import JavaModel.Proofs.Name
import JavaModel.Proofs.Text.Trimming

/-! Documentation comments in the usual layout, in which each line stands behind an indentation, a
star and a blank, between the lines of the opening and the closing sign. `clean` gives back the
lines: it takes away the margin, which comes first on a line, and nothing of what stands behind it,
however much that looks like a margin itself. -/

namespace JavaModel

namespace Text

/-- Lines that end in front of a text are the pieces before its own. -/
theorem splitAt_flatMap {sep : Char} {pieces : List (List Char)} (h : ∀ p ∈ pieces, sep ∉ p)
    (rest : List Char) :
    splitAt sep (pieces.flatMap (· ++ [sep]) ++ rest) = pieces ++ splitAt sep rest := by
  induction pieces with
  | nil => rfl
  | cons p ps ih =>
    obtain ⟨hp, hps⟩ := List.forall_mem_cons.mp h
    rw [List.flatMap_cons, List.append_assoc, List.append_assoc, List.singleton_append,
      splitAt_append, splitAt_of_not_mem hp, ih hps]
    rfl

end Text

namespace DocText

open Text

variable {indent line : String} {lines : List String}

/-! ### Layout -/

/-- A line behind its margin. -/
def behindMargin (indent line : String) : String := indent ++ " * " ++ line

/-- A comment that holds lines, each behind a margin, on lines of their own between its signs. -/
def laidOut (indent : String) (lines : List String) : String :=
  "/**\n" ++ String.join (lines.map fun line => behindMargin indent line ++ "\n") ++
    indent ++ " */"

/-- What stands between the signs of such a comment, line by line. -/
def piecesOf (indent : String) (lines : List String) : List (List Char) :=
  [] :: lines.map (fun line => (behindMargin indent line).toList) ++ [indent.toList ++ [' ']]

/-- White space that may indent a line. -/
def IsIndentation (indent : String) : Prop := ∀ c ∈ indent.toList, isBlank c ∧ c ≠ '\n'

/-- The lines of a text without white space around it and at the end of its lines. -/
structure AreLines (lines : List String) : Prop where
  nonempty : lines ≠ []
  unbroken : ∀ line ∈ lines, '\n' ∉ line.toList
  /-- No line ends in white space. -/
  trimmed : ∀ line ∈ lines, ∀ c ∈ line.toList.getLast?, isBlank c = false
  first : ∀ line ∈ lines.head?, line ≠ ""
  last : ∀ line ∈ lines.getLast?, line ≠ ""
  /-- The first line does not begin with white space. -/
  start : ∀ line ∈ lines.head?, ∀ c ∈ line.toList.head?, isBlank c = false

/-- The white space in front of the star of a margin. -/
theorem IsIndentation.blank (h : IsIndentation indent) : ∀ c ∈ indent.toList ++ [' '], isBlank c :=
  List.forall_mem_append.mpr ⟨fun c hc => (h c hc).1, List.forall_mem_singleton.mpr rfl⟩

theorem IsIndentation.not_mem (h : IsIndentation indent) : '\n' ∉ indent.toList :=
  fun hmem => (h '\n' hmem).2 rfl

/-! ### Signs and margins -/

theorem dropLeading_append (pre cs : List Char) : dropLeading pre (pre ++ cs) = cs := by
  rw [dropLeading, if_pos (List.isPrefixOf_iff_prefix.mpr (List.prefix_append pre cs)),
    List.drop_left]

theorem dropTrailing_append (cs post : List Char) : dropTrailing post (cs ++ post) = cs := by
  rw [dropTrailing, List.reverse_append, dropLeading_append, List.reverse_reverse]

/-- The margin of a line is taken away, and nothing behind it. -/
theorem cleanLine_behindMargin (hindent : IsIndentation indent)
    (hline : ∀ c ∈ line.toList.getLast?, isBlank c = false) :
    cleanLine (behindMargin indent line).toList = line.toList := by
  have hchars : (behindMargin indent line).toList =
      (indent.toList ++ [' ']) ++ (['*'] ++ ([' '] ++ line.toList)) := by
    simp [behindMargin]
  have hstar : trimLeft (['*'] ++ ([' '] ++ line.toList)) = ['*'] ++ ([' '] ++ line.toList) :=
    trimLeft_eq_self (by rintro c ⟨⟩; decide)
  rw [hchars, cleanLine, trimLeft_append hindent.blank, hstar, dropLeading_append,
    dropLeading_append, trimRight_eq_self hline]

/-- Of a line of white space nothing is left. -/
theorem cleanLine_blank {cs : List Char} (h : ∀ c ∈ cs, isBlank c) : cleanLine cs = [] := by
  rw [cleanLine, trimLeft_blank h]
  rfl

theorem lineFeed_not_mem_behindMargin (hindent : IsIndentation indent)
    (hline : '\n' ∉ line.toList) : '\n' ∉ (behindMargin indent line).toList := by
  simp [behindMargin, hindent.not_mem, hline]

/-- Without its signs a comment in the usual layout falls into its pieces. -/
theorem splitAt_laidOut (hindent : IsIndentation indent) (hlines : AreLines lines) :
    splitAt '\n' (dropTrailing ['*', '/'] (dropLeading ['/', '*', '*']
      (laidOut indent lines).toList)) = piecesOf indent lines := by
  let ended := [] :: lines.map fun line => (behindMargin indent line).toList
  have hchars : (laidOut indent lines).toList = ['/', '*', '*'] ++
      ((ended.flatMap (· ++ ['\n']) ++ (indent.toList ++ [' '])) ++ ['*', '/']) := by
    simp [laidOut, ended, String.toList_join, List.flatMap_map]
  have hended : ∀ p ∈ ended, '\n' ∉ p :=
    List.forall_mem_cons.mpr ⟨List.not_mem_nil, List.forall_mem_map.mpr fun line hline =>
      lineFeed_not_mem_behindMargin hindent (hlines.unbroken line hline)⟩
  have hlast : '\n' ∉ indent.toList ++ [' '] := by
    simp [hindent.not_mem]
  rw [hchars, dropLeading_append, dropTrailing_append, splitAt_flatMap hended,
    splitAt_of_not_mem hlast]
  rfl

/-- Of the lines of the two signs nothing is left, and of the others what stands behind the
margin. -/
theorem map_cleanLine (hindent : IsIndentation indent) (hlines : AreLines lines) :
    (piecesOf indent lines).map cleanLine = ("" :: lines ++ [""]).map String.toList := by
  have hmargins : lines.map (fun line => cleanLine (behindMargin indent line).toList) =
      lines.map String.toList :=
    List.map_congr_left fun line hline => cleanLine_behindMargin hindent (hlines.trimmed line hline)
  simp only [piecesOf, List.cons_append, List.map_cons, List.map_append, List.map_map,
    Function.comp_def, hmargins, cleanLine_blank hindent.blank]
  rfl

/-! ### The lines put together -/

/-- A text of lines begins as the first of them. -/
theorem head?_intercalate (hne : line ≠ "") (lines : List String) :
    ("\n".intercalate (line :: lines)).toList.head? = line.toList.head? := by
  have hchars : line.toList ≠ [] := fun hnil => hne (String.toList_eq_nil_iff.mp hnil)
  cases lines with
  | nil => rw [String.intercalate_singleton]
  | cons next more =>
    rw [String.intercalate_cons_cons, String.append_assoc, String.toList_append,
      List.head?_append_of_ne_nil _ hchars]

/-- A text of lines ends as the last of them. -/
theorem getLast?_intercalate (hne : line ≠ "") (lines : List String) :
    ("\n".intercalate (lines ++ [line])).toList.getLast? = line.toList.getLast? := by
  have hchars : line.toList ≠ [] := fun hnil => hne (String.toList_eq_nil_iff.mp hnil)
  cases lines with
  | nil => rw [List.nil_append, String.intercalate_singleton]
  | cons first more =>
    rw [String.intercalate_append_of_ne_nil (List.cons_ne_nil first more)
      (List.cons_ne_nil line []), String.intercalate_singleton, String.toList_append,
      List.getLast?_append_of_ne_nil _ hchars]

/-- A text of lines neither begins nor ends with white space, and is not empty. -/
theorem AreLines.ends (h : AreLines lines) : ("\n".intercalate lines).toList ≠ [] ∧
    (∀ c ∈ ("\n".intercalate lines).toList.head?, isBlank c = false) ∧
      ∀ c ∈ ("\n".intercalate lines).toList.getLast?, isBlank c = false := by
  have hhead : ("\n".intercalate lines).toList.head? = (lines.head h.nonempty).toList.head? := by
    rw [← head?_intercalate (h.first _ (List.head?_eq_some_head h.nonempty)) lines.tail,
      List.cons_head_tail]
  have hlast : ("\n".intercalate lines).toList.getLast? =
      (lines.getLast h.nonempty).toList.getLast? := by
    rw [← getLast?_intercalate (h.last _ (List.getLast?_eq_some_getLast h.nonempty)) lines.dropLast,
      List.dropLast_append_getLast h.nonempty]
  refine ⟨fun hnil => ?_, ?_, ?_⟩
  · rw [hnil, List.head?_nil, eq_comm, List.head?_eq_none_iff, String.toList_eq_nil_iff] at hhead
    exact h.first _ (List.head?_eq_some_head h.nonempty) hhead
  · rw [hhead]
    exact h.start _ (List.head?_eq_some_head h.nonempty)
  · rw [hlast]
    exact h.trimmed _ (List.getLast_mem h.nonempty)

theorem intercalate_between (hne : lines ≠ []) :
    "\n".intercalate ("" :: lines ++ [""]) = "\n" ++ "\n".intercalate lines ++ "\n" := by
  rw [String.intercalate_append_of_ne_nil (List.cons_ne_nil "" lines) (List.cons_ne_nil "" []),
    String.intercalate_cons_of_ne_nil hne, String.intercalate_singleton, String.empty_append,
    String.append_empty]

/-- A comment in the usual layout is cleaned to the lines that it holds. -/
theorem clean_laidOut (hindent : IsIndentation indent) (hlines : AreLines lines) :
    clean (laidOut indent lines) = "\n".intercalate lines := by
  have hcleaned : ['\n'].intercalate (("" :: lines ++ [""]).map String.toList) =
      ['\n'] ++ ("\n".intercalate lines).toList ++ ['\n'] := by
    calc ['\n'].intercalate (("" :: lines ++ [""]).map String.toList)
      _ = ("\n".intercalate ("" :: lines ++ [""])).toList := by
          rw [String.toList_intercalate]
          rfl
      _ = ['\n'] ++ ("\n".intercalate lines).toList ++ ['\n'] := by
          rw [intercalate_between hlines.nonempty, String.toList_append, String.toList_append]
          rfl
  obtain ⟨hne, hfirst, hlast⟩ := hlines.ends
  have hfeed : ∀ c ∈ ['\n'], isBlank c := List.forall_mem_singleton.mpr rfl
  simp only [clean, splitAt_laidOut hindent hlines, map_cleanLine hindent hlines, hcleaned,
    trim_between hfeed hfeed hne hfirst hlast, String.ofList_toList]

/-- Indented, empty and starred lines behind a margin of a tab and a blank. -/
theorem clean_laidOut_list :
    let lines := ["A list:", "", "  * one", "* two */", "*/"]
    IsIndentation "\t " ∧ AreLines lines ∧
      clean (laidOut "\t " lines) = "A list:\n\n  * one\n* two */\n*/" := by
  intro lines
  have hindent : IsIndentation "\t " := by
    have hall : "\t ".toList.all (fun c => isBlank c && c != '\n') := by decide +kernel
    intro c hc
    simpa using List.all_eq_true.mp hall c hc
  have hlines : AreLines lines := by
    have htrimmed : lines.all (fun line => line.toList.getLast?.all fun c => !isBlank c) := by
      decide +kernel
    refine ⟨List.cons_ne_nil _ _, by decide +kernel, fun line hline c hc => ?_, by decide +kernel,
      by decide +kernel, ?_⟩
    · have hall := List.all_eq_true.mp htrimmed line hline
      rw [Option.mem_def.mp hc] at hall
      simpa using hall
    · rintro line ⟨⟩ c ⟨⟩
      decide
  exact ⟨hindent, hlines, clean_laidOut hindent hlines⟩

end DocText

end JavaModel
