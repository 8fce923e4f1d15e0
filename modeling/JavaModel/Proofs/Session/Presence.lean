import JavaModel.Proofs.Library.Discovery
import JavaModel.Proofs.Resolution
import JavaModel.Proofs.Session.Rising
import JavaModel.Proofs.Session.Spelling

/-! Simple names that mean something. What a unit has in scope is a class of the session, and what
is found elsewhere was said to exist. Either way a class of the name is found from then on, whatever
is said. Only an import may name a class that nobody knows. -/

namespace JavaModel

namespace Session

variable {s t : Session} {u : SourceUnit} {context : Option ClassIndex} {name fullName : String}

/-- Whatever is said, a class of the name is found that is not made up. -/
def Present (s : Session) (name : String) : Prop :=
  ∀ ts, ∃ a, (classNamed name (converse ts s).2).1 = some a ∧ a.found.isStub = false ∧
    a.found.fullName = name

/-- A class that is said to exist is found. -/
theorem Reachable.exists_of_hasClass (h : s.Reachable) (hexists : (hasClass name s).1) :
    ∃ a, (classNamed name s).1 = some a ∧ a.found.isStub = false ∧ a.found.fullName = name := by
  obtain ⟨hreal, made, hanswer, _⟩ := h.answers name
  obtain ⟨a, ha⟩ := Option.isSome_iff_exists.mp (show (find true name s).1.isSome from hexists)
  refine ⟨a, ?_, hreal a ha, fullName_of_consult h.regular.sound.entries h.isFilled ha⟩
  rw [hanswer, ha, Option.some_or]

/-- A class that was said to exist is present from then on. -/
theorem Reachable.present_of_hasClass (h : s.Reachable) (hexists : (hasClass name s).1) :
    (hasClass name s).2.Present name := by
  intro ts
  obtain ⟨a, ha⟩ := Option.isSome_iff_exists.mp (show (find true name s).1.isSome from hexists)
  obtain ⟨b, hb, _⟩ :=
    find_rises ((hasAnswered_find ha).mono (retains_converse ts (find true name s).2))
  exact ((h.respond (.ask (.hasClass name))).converse ts).exists_of_hasClass
    (congrArg Option.isSome hb)

/-- A chain that asks the units of the session knows what they declare. -/
theorem Reachable.hasClass_of_declared (h : s.Reachable)
    (hparsed : .parsedSources ∈ s.entries.map (·.strategy)) {c : Class}
    (hc : c ∈ s.sources.declared) : (hasClass c.fullName s).1 := by
  by_contra hunknown
  have hnone : (consult s.tree true c.fullName 0 s.entries s.sources).answer = none :=
    Option.not_isSome_iff_eq_none.mp hunknown
  have hundeclared := class?_of_unanswered h.regular.sound.entries (.inl hparsed) hnone
  obtain ⟨d, hd⟩ := Option.isSome_iff_exists.mp (h.isFilled.class?_isSome hc)
  have hgrows := grows_consult s.tree true c.fullName 0 s.entries s.sources
  cases hundeclared.symm.trans (hgrows.class? hd)

theorem Sound.mem_strategies (h : s.Sound) {strategy : Strategy}
    (hstrategy : strategy ∈ s.entries.map (·.strategy)) (ts : List Turn) :
    strategy ∈ (Session.converse ts s).2.entries.map (·.strategy) := by
  rwa [(h.converse ts).2.strategies]

/-- What a unit of the session declares is present, if the chain asks the units. -/
theorem Reachable.present_of_declared (h : s.Reachable)
    (hparsed : .parsedSources ∈ s.entries.map (·.strategy)) {c : Class}
    (hc : c ∈ s.sources.declared) : s.Present c.fullName := by
  intro ts
  have hlater := h.converse ts
  have hleads := (h.regular.sound.converse ts).2
  refine hlater.exists_of_hasClass (hlater.hasClass_of_declared ?_ ?_)
  · exact h.regular.sound.mem_strategies hparsed ts
  · obtain ⟨v, hv, hclass⟩ := List.mem_flatMap.mp hc
    exact List.mem_flatMap.mpr ⟨v, hleads.sources.units.subset hv, hclass⟩

/-- Of some names in turn, the first that is said to exist is present from then on. -/
theorem Reachable.present_of_firstKnown {names : List String} (h : s.Reachable)
    (hfound : firstKnown hasClass names s = (some fullName, t)) : t.Present fullName := by
  induction names generalizing s with
  | nil => cases hfound
  | cons name names ih =>
    rw [firstKnown, bind_apply] at hfound
    cases hexists : (hasClass name s).1 with
    | true =>
      rw [hexists] at hfound
      cases hfound
      exact h.present_of_hasClass hexists
    | false =>
      rw [hexists] at hfound
      exact ih (h.respond (.ask (.hasClass name))) hfound

/-- In any session whose chain asks the units of the session, let a name without dots stand
anywhere in one of them, and be the last segment of no single import there. If it means something,
then a class of the full name that it means is found at once and ever after, whatever is said, and
is not made up. -/
theorem meaning_present (h : s.Reachable)
    (hparsed : .parsedSources ∈ s.entries.map (·.strategy)) (hu : u ∈ s.sources.units)
    (hsimple : '.' ∉ name.toList) (himport : SourceUnit.imported u.imports name = [])
    (hmeaning : u.resolveName s.library context name s = (some fullName, t)) (ts : List Turn) :
    ∃ a, (classNamed fullName (converse ts t).2).1 = some a ∧ a.found.isStub = false ∧
      a.found.fullName = fullName := by
  have hsingle : (ImportScope.ofImports u.imports).single.find? name = none := by
    rw [(ImportScope.ofImports_scan u.imports).1, himport, List.head?_nil]
  rw [SourceUnit.resolveName, SourceUnit.splitHead_of_not_mem hsimple] at hmeaning
  dsimp only at hmeaning
  rw [SourceUnit.resolveSimple, hsingle, Option.none_or] at hmeaning
  cases hscope : u.inScope? context name with
  | some found =>
    -- A class of the unit itself.
    rw [hscope] at hmeaning
    cases hmeaning
    obtain ⟨c, hc, rfl⟩ := SourceUnit.exists_of_inScope? hscope
    exact h.present_of_declared hparsed (List.mem_flatMap.mpr ⟨u, hu, hc⟩) ts
  | none =>
    rw [hscope] at hmeaning
    exact h.present_of_firstKnown hmeaning ts

/-- A name that means a class of the registry, and means it still when a text has declared a class
of the same full name. -/
theorem meaning_present_string :
    let s := (converse [.add (.text ⟨"A.java"⟩ "package p; class A \x7b String f; \x7d")]
      (standard .standard (.empty ⟨"/"⟩))).2
    let later := [Turn.add (.text ⟨"String.java"⟩ "package java.lang; class String \x7b\x7d")]
    s.Reachable ∧ .parsedSources ∈ s.entries.map (·.strategy) ∧ '.' ∉ "String".toList ∧
      ∃ u ∈ s.sources.units, SourceUnit.imported u.imports "String" = [] ∧
        ∃ t, u.resolveName s.library (some ⟨0⟩) "String" s = (some "java.lang.String", t) ∧
          ∃ a, (classNamed "java.lang.String" (converse later t).2).1 = some a ∧
            a.found.isStub = false ∧ a.found.fullName = "java.lang.String" := by
  intro s later
  have hreachable : s.Reachable := ⟨_, _, _, _, rfl⟩
  have hsound : (standard .standard (.empty ⟨"/"⟩)).Sound := sound_start _ _ _
  have hstrategy : .parsedSources ∈ (standard .standard (.empty ⟨"/"⟩)).entries.map (·.strategy) :=
    List.mem_of_getElem? (i := 0) rfl
  have hparsed : .parsedSources ∈ s.entries.map (·.strategy) := hsound.mem_strategies hstrategy _
  have hsimple : '.' ∉ "String".toList := by decide
  obtain ⟨u, hu, himport, hmeaning⟩ : ∃ u ∈ s.sources.units,
      SourceUnit.imported u.imports "String" = [] ∧
        (u.resolveName s.library (some ⟨0⟩) "String" s).1 = some "java.lang.String" := by
    decide +kernel
  clear_value s later
  rcases hresolved : u.resolveName s.library (some ⟨0⟩) "String" s with ⟨meaning, t⟩
  rw [hresolved] at hmeaning
  obtain rfl : meaning = some "java.lang.String" := hmeaning
  exact ⟨hreachable, hparsed, hsimple, u, hu, himport, t, hresolved,
    meaning_present hreachable hparsed hu hsimple himport hresolved later⟩

end Session

end JavaModel
