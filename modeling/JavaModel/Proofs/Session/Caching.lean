import JavaModel.Proofs.Library.Forgetting
import JavaModel.Proofs.Session.Run

/-! What a library remembers is never noticed in its answers. Where the chain asks the units of the
session before any source roots, as every chain composed from options does, a class is found, and is
said to exist, just as it would be with all remembered answers forgotten. -/

namespace JavaModel

theorem parsedFirst_cons (rest : List Strategy) : ParsedFirst (.parsedSources :: rest) := by
  intro pre locators post h
  cases pre with
  | nil => cases h
  | cons first pre =>
    obtain ⟨rfl, _⟩ := List.cons.inj h
    exact List.mem_cons_self ..

namespace Session

/-- The strategies that a host's parts compose, in the order in which they are asked. -/
def chainOf (options : SessionOptions) (parts : List ChainPart) : List Strategy :=
  (parts.foldl ChainPlan.add ⟨[], false, options.implicitPackages⟩).chain

theorem strategies_start (options : SessionOptions) (tree : FileTree) (parts : List ChainPart) :
    (start options tree parts).entries.map (·.strategy) = chainOf options parts := by
  change List.map _ (List.map _ _) = _
  rw [List.map_map]
  exact List.map_id _

/-- Chains composed from options ask the units of the session first. -/
theorem parsedFirst_options (options : SessionOptions) :
    ParsedFirst (chainOf options options.parts) := by
  have hchain : ∃ rest, chainOf options options.parts = .parsedSources :: rest := by
    unfold chainOf SessionOptions.parts
    cases options.hasJavaLang <;> cases options.hasStub <;> cases options.sourceRoots <;>
      exact ⟨_, rfl⟩
  obtain ⟨rest, hrest⟩ := hchain
  rw [hrest]
  exact parsedFirst_cons rest

/-- The session with nothing remembered by its library. Units and the files tried stay. -/
def forgetting (s : Session) : Session := { s with entries := s.entries.map ChainEntry.forget }

theorem Sound.find_forgetting {s : Session} (h : s.Sound)
    (hfirst : ParsedFirst (s.entries.map (·.strategy))) (onlyExisting : Bool) (name : String) :
    (find onlyExisting name s.forgetting).1 = (find onlyExisting name s).1 :=
  (consult_forget h.entries h.sources (.inl hfirst) onlyExisting 0).1

/-- Behind any run, forgetting all remembered answers changes no answer. -/
theorem answers_forgetting (options : SessionOptions) (tree : FileTree) (parts : List ChainPart)
    (hfirst : ParsedFirst (chainOf options parts)) (ops : List Operation) (name : String) :
    (classNamed name ((start options tree parts).after ops).forgetting).1 =
        (classNamed name ((start options tree parts).after ops)).1 ∧
      (hasClass name ((start options tree parts).after ops).forgetting).1 =
        (hasClass name ((start options tree parts).after ops)).1 := by
  obtain ⟨hsound, hleads⟩ := (sound_start options tree parts).after ops
  have hchain : ParsedFirst
      (((start options tree parts).after ops).entries.map (·.strategy)) := by
    rw [hleads.strategies, strategies_start]
    exact hfirst
  refine ⟨hsound.find_forgetting hchain false name, ?_⟩
  exact congrArg Option.isSome (hsound.find_forgetting hchain true name)

/-- A session with the usual options, behind a source, a question and a resolution. -/
theorem answers_forgetting_standard :
    ParsedFirst (chainOf .standard SessionOptions.standard.parts) ∧
      (classNamed "p.A" ((standard .standard (.empty ⟨"/"⟩)).after
          [.addText ⟨"A.java"⟩ "package p; class A { B b; }", .hasClass "p.B",
            .resolve ⟨"B", [], 0, .written ⟨⟨0⟩, 0⟩ (some ⟨0⟩)⟩]).forgetting).1 =
        (classNamed "p.A" ((standard .standard (.empty ⟨"/"⟩)).after
          [.addText ⟨"A.java"⟩ "package p; class A { B b; }", .hasClass "p.B",
            .resolve ⟨"B", [], 0, .written ⟨⟨0⟩, 0⟩ (some ⟨0⟩)⟩])).1 :=
  ⟨parsedFirst_options _, (answers_forgetting .standard (.empty ⟨"/"⟩) SessionOptions.standard.parts
    (parsedFirst_options _) _ "p.A").1⟩

end Session

end JavaModel
