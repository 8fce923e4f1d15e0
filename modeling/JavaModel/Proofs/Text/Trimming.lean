import Mathlib.Data.List.Basic
import JavaModel.Text.Blank

/-! White space removed from the ends of a text. What stands at an end goes as long as it is white
space; a text that neither begins nor ends with white space is left as it is, and is what is left
when there is more white space around it. -/

namespace JavaModel.Text

variable {before behind cs : List Char}

theorem trimLeft_append (h : ∀ c ∈ before, isBlank c) (cs : List Char) :
    trimLeft (before ++ cs) = trimLeft cs :=
  List.dropWhile_append_of_pos h

/-- Nothing is left of white space. -/
theorem trimLeft_blank (h : ∀ c ∈ cs, isBlank c) : trimLeft cs = [] := by
  rw [← List.append_nil cs, trimLeft_append h]
  rfl

theorem trimLeft_eq_self (h : ∀ c ∈ cs.head?, isBlank c = false) : trimLeft cs = cs := by
  cases cs with
  | nil => rfl
  | cons c cs => exact List.dropWhile_cons_of_neg (by simp [h c rfl])

theorem trimRight_append (h : ∀ c ∈ behind, isBlank c) (cs : List Char) :
    trimRight (cs ++ behind) = trimRight cs := by
  unfold trimRight
  rw [List.reverse_append, List.dropWhile_append_of_pos fun c hc => h c (List.mem_reverse.mp hc)]

/-- Nothing is removed up to a character that is no white space. -/
theorem trimRight_cons {d : Char} (hd : isBlank d = false) (front body : List Char) :
    trimRight (front ++ d :: body) = front ++ d :: trimRight body := by
  simp only [trimRight, List.reverse_append, List.reverse_cons, List.append_assoc,
    List.dropWhile_append, List.singleton_append]
  split
  · rename_i hempty
    rw [List.isEmpty_iff.mp hempty]
    simp [hd]
  · simp

theorem trimRight_eq_self (h : ∀ c ∈ cs.getLast?, isBlank c = false) : trimRight cs = cs := by
  rcases List.eq_nil_or_concat' cs with rfl | ⟨front, d, rfl⟩
  · rfl
  · exact trimRight_cons (h d (by simp)) front []

theorem trimRight_prefix (cs : List Char) : trimRight cs <+: cs := by
  have hsuffix := List.dropWhile_suffix isBlank (l := cs.reverse)
  rw [← List.reverse_prefix, List.reverse_reverse] at hsuffix
  exact hsuffix

/-- White space around a text is removed, and nothing of the text. -/
theorem trim_between (hbefore : ∀ c ∈ before, isBlank c) (hbehind : ∀ c ∈ behind, isBlank c)
    (hne : cs ≠ []) (hfirst : ∀ c ∈ cs.head?, isBlank c = false)
    (hlast : ∀ c ∈ cs.getLast?, isBlank c = false) :
    trimRight (trimLeft (before ++ cs ++ behind)) = cs := by
  have hhead : ∀ c ∈ (cs ++ behind).head?, isBlank c = false := by
    rwa [List.head?_append_of_ne_nil _ hne]
  rw [List.append_assoc, trimLeft_append hbefore, trimLeft_eq_self hhead, trimRight_append hbehind,
    trimRight_eq_self hlast]

/-- A trimmed text has no white space to be removed at either end. -/
theorem trim_eq_self {text : String} (h : trim text = text) :
    trimLeft text.toList = text.toList ∧ trimRight text.toList = text.toList := by
  have hlist : trimRight (trimLeft text.toList) = text.toList := by
    have := congrArg String.toList h
    simpa [trim] using this
  have hleft : trimLeft text.toList = text.toList := by
    refine (List.dropWhile_suffix _).eq_of_length_le ?_
    have hshort := trimRight_prefix (trimLeft text.toList)
    rw [hlist] at hshort
    exact hshort.length_le
  exact ⟨hleft, by rwa [hleft] at hlist⟩

theorem head_of_dropWhile {p : Char → Bool} {cs : List Char} (h : cs.dropWhile p = cs) :
    ∀ c ∈ cs.head?, p c = false := by
  intro c hc
  cases cs with
  | nil => cases hc
  | cons d cs =>
    cases hc
    by_cases hp : p c
    · have := (List.dropWhile_suffix p (l := cs)).length_le
      rw [List.dropWhile_cons_of_pos hp] at h
      rw [h, List.length_cons] at this
      omega
    · simpa using hp

/-- A trimmed text neither begins nor ends with white space. -/
theorem ends_of_trim {text : String} (h : trim text = text) :
    (∀ c ∈ text.toList.head?, isBlank c = false) ∧
      ∀ c ∈ text.toList.getLast?, isBlank c = false := by
  obtain ⟨hleft, hright⟩ := trim_eq_self h
  refine ⟨head_of_dropWhile hleft, fun c hc => ?_⟩
  have hreverse : text.toList.reverse.dropWhile isBlank = text.toList.reverse := by
    rw [← List.reverse_eq_iff]
    exact hright
  refine head_of_dropWhile hreverse c ?_
  rwa [List.head?_reverse]

/-- A trimmed text is what is left when white space around it is removed. -/
theorem trim_surrounded {text : String} (h : trim text = text) {before behind : String}
    (hbefore : ∀ c ∈ before.toList, isBlank c) (hbehind : ∀ c ∈ behind.toList, isBlank c)
    (hne : text ≠ "") : trim (before ++ text ++ behind) = text := by
  obtain ⟨hfirst, hlast⟩ := ends_of_trim h
  have hlist : text.toList ≠ [] := fun hnil => hne (String.toList_eq_nil_iff.mp hnil)
  rw [trim, String.toList_append, String.toList_append,
    trim_between hbefore hbehind hlist hfirst hlast, String.ofList_toList]

end JavaModel.Text
