import JavaModel.Proofs.Library.Rising
import JavaModel.Proofs.Session.Regular

/-! Answers of a session over time. Once a class has been found for a name, the name is answered
from then on, by the same entry of the chain with the very class or by an entry in front of it; and
once a class has been said to exist, it exists. -/

namespace JavaModel

namespace Session

open ChainEntry

variable {s t : Session}

/-- The chain of `t` still has every class that the chain of `s` has answered with. -/
def Retains (s t : Session) : Prop := List.Forall₂ ChainEntry.Retains s.entries t.entries

theorem Retains.refl (s : Session) : s.Retains s := List.forall₂_same.mpr fun e _ => .refl e

theorem Retains.trans {r : Session} (h : r.Retains s) (h' : s.Retains t) : r.Retains t :=
  forall₂_retains_trans h h'

theorem retains_find (onlyExisting : Bool) (name : String) (s : Session) :
    s.Retains (find onlyExisting name s).2 := by
  have hentries : (find onlyExisting name s).2.entries =
      (consult s.tree onlyExisting name 0 s.entries s.sources).entries := entries_count _ _
  rw [Retains, hentries]
  exact retains_consult s.tree onlyExisting name 0 s.entries s.sources

theorem retains_respond (turn : Turn) (s : Session) : s.Retains (respond turn s).2 := by
  obtain ⟨q, rfl⟩ | hadds := asks_or_adds turn s
  · exact ask_keeps (fun ht onlyExisting name => ht.trans (retains_find onlyExisting name _))
      (fun ht _ _ => ht) (Retains.refl s) q
  · rw [Retains, hadds.entries]
    exact Retains.refl s

theorem retains_converse (ts : List Turn) (s : Session) : s.Retains (converse ts s).2 :=
  converse_keeps (fun ht turn => ht.trans (retains_respond turn _)) (.refl s) ts

/-- The entry that answers keeps the class. -/
theorem hasAnswered_find {onlyExisting : Bool} {name : String} {a : Answer}
    (h : (find onlyExisting name s).1 = some a) :
    HasAnswered onlyExisting name (find onlyExisting name s).2.entries a.position a.found := by
  have hentries : (find onlyExisting name s).2.entries =
      (consult s.tree onlyExisting name 0 s.entries s.sources).entries := entries_count _ _
  obtain ⟨i, hi, hanswered⟩ := hasAnswered_of_consult h
  rw [Nat.zero_add] at hi
  rwa [hentries, hi]

/-- As long as the entry keeps it, the name is answered no further down the chain, and at the same
position with the same class. -/
theorem find_rises {onlyExisting : Bool} {name : String} {a : Answer}
    (h : HasAnswered onlyExisting name t.entries a.position a.found) :
    ∃ b, (find onlyExisting name t).1 = some b ∧ b.position ≤ a.position ∧
      (b.position = a.position → b = a) := by
  obtain ⟨b, hb, hle, hsame⟩ := consult_of_hasAnswered h t.tree 0 t.sources
  rw [Nat.zero_add] at hle hsame
  exact ⟨b, hb, hle, fun heq => congrArg₂ Answer.mk heq (hsame heq)⟩

end Session

theorem Answer.same_self (a : Answer) : a.same a := by
  unfold same
  cases a.found.id? <;> simp

namespace Session

/-- In any session, whatever is said before and after: the entry that finds a class for a name has
the class from then on, with all others that the chain has answered with; the name is found again, by
this entry and then as the class that it has, or by an entry in front of it; and a class that has been
said to exist is said to exist again. -/
theorem answers_rise (options : SessionOptions) (tree : FileTree) (parts : List ChainPart)
    (before between : List Turn) (name : String) :
    let s := (converse before (start options tree parts)).2
    (∀ a, (classNamed name s).1 = some a →
      let found := (classNamed name s).2
      let t := (converse between found).2
      HasAnswered false name found.entries a.position a.found ∧ found.Retains t ∧
      HasAnswered false name t.entries a.position a.found ∧
      ∃ b, (classNamed name t).1 = some b ∧
        b.position ≤ a.position ∧ (b.position = a.position → b = a ∧ b.same a)) ∧
    ((hasClass name s).1 = true →
      (hasClass name (converse between (hasClass name s).2).2).1 = true) := by
  intro s
  refine ⟨fun a ha => ?_, fun hexists => ?_⟩
  · have hretains := retains_converse between (classNamed name s).2
    have hanswered := hasAnswered_find ha
    have hkept := hanswered.mono hretains
    obtain ⟨b, hb, hle, hsame⟩ := find_rises hkept
    refine ⟨hanswered, hretains, hkept, b, hb, hle, fun heq => ?_⟩
    obtain rfl := hsame heq
    exact ⟨rfl, b.same_self⟩
  · obtain ⟨a, ha⟩ := Option.isSome_iff_exists.mp hexists
    obtain ⟨b, hb, _⟩ := find_rises ((hasAnswered_find ha).mono (retains_converse between _))
    exact congrArg Option.isSome hb

/-- A class that the registry has answered with, behind a text that declares one of its name. -/
theorem answers_rise_string :
    let s := standard .standard (.empty ⟨"/"⟩)
    let between := [Turn.add (.text ⟨"String.java"⟩ "package java.lang; class String \x7b\x7d")]
    ∃ a, (classNamed "java.lang.String" s).1 = some a ∧ a.position = 1 ∧
      (∃ b, (classNamed "java.lang.String"
          (converse between (classNamed "java.lang.String" s).2).2).1 = some b ∧
        b.position ≤ a.position ∧ (b.position = a.position → b = a ∧ b.same a)) ∧
      (hasClass "java.lang.String" s).1 = true ∧
      (hasClass "java.lang.String"
        (converse between (hasClass "java.lang.String" s).2).2).1 = true := by
  intro s between
  have hposition : (classNamed "java.lang.String" s).1.map (·.position) = some 1 := by
    decide +kernel
  have hexists : (hasClass "java.lang.String" s).1 = true := by
    decide +kernel
  obtain ⟨a, ha, hone⟩ := Option.map_eq_some_iff.mp hposition
  obtain ⟨hrises, hstays⟩ := answers_rise .standard (.empty ⟨"/"⟩) SessionOptions.standard.parts []
    between "java.lang.String"
  obtain ⟨-, -, -, hagain⟩ := hrises a ha
  exact ⟨a, ha, hone, hagain, hexists, hstays hexists⟩

end Session

end JavaModel
