import JavaModel.Proofs.Library.Misses
import JavaModel.Proofs.Session.Regular

/-! Misses of single strategies over time, past what the chain remembers of them. A registry or the
stub that has missed a name misses it from then on. Source roots, whose misses are kept as final
too, do not: they answer with whatever the units of the session declare by then, from wherever these
units came. -/

namespace JavaModel

namespace Session

variable {s t : Session}

/-- Asks the strategy at a position of the chain itself, whatever the chain remembers. -/
def lookUp (position : Nat) (name : String) : Query (Option Class) := fun s =>
  match s.entries[position]? with
  | none => (none, s)
  | some e =>
    let (answer, e', sources) := e.ask s.tree s.sources name
    (answer, { s with entries := s.entries.set position e', sources })

/-- What may happen to a session: a turn of a dialogue, or a question to one strategy. -/
inductive Move where
  | turn (turn : Turn)
  | lookUp (position : Nat) (name : String)

/-- The session behind a move. -/
def move (s : Session) : Move → Session
  | .turn turn => (respond turn s).2
  | .lookUp position name => (Session.lookUp position name s).2

/-- The session behind some moves. -/
def moved (s : Session) (ms : List Move) : Session := ms.foldl move s

theorem lookUp_none {position : Nat} (h : s.entries[position]? = none) (name : String) :
    lookUp position name s = (none, s) := by
  simp only [lookUp, h]

theorem lookUp_some {position : Nat} {e : ChainEntry} (h : s.entries[position]? = some e)
    (name : String) : lookUp position name s =
      ((e.ask s.tree s.sources name).1,
        { s with
          entries := s.entries.set position (e.ask s.tree s.sources name).2.1,
          sources := (e.ask s.tree s.sources name).2.2 }) := by
  simp only [lookUp, h]

/-! ### What moves keep -/

/-- `t` is the session `s` at a later time: its chain has tried the files that the chain of `s` has
tried, and it is sound. -/
structure Goes (s t : Session) : Prop where
  sound : t.Sound
  tree : t.tree = s.tree
  entries : List.Forall₂ ChainEntry.Tries s.entries t.entries

theorem Sound.goes (h : s.Sound) : s.Goes s :=
  ⟨h, rfl, List.forall₂_same.mpr fun e _ => .refl e⟩

theorem forall₂_tries_trans {es es' es'' : List ChainEntry}
    (h : List.Forall₂ ChainEntry.Tries es es') (h' : List.Forall₂ ChainEntry.Tries es' es'') :
    List.Forall₂ ChainEntry.Tries es es'' := by
  induction h generalizing es'' with
  | nil => exact h'
  | cons he _ ih =>
    cases h' with
    | cons he' hes' => exact .cons (he.trans he') (ih hes')

theorem Goes.trans {r : Session} (h : r.Goes s) (h' : s.Goes t) : r.Goes t :=
  ⟨h'.sound, h'.tree.trans h.tree, forall₂_tries_trans h.entries h'.entries⟩

theorem Sound.goes_find (h : s.Sound) (onlyExisting : Bool) (name : String) :
    s.Goes (find onlyExisting name s).2 := by
  obtain ⟨hsound, hleads⟩ := keeps_find onlyExisting name s h
  have hentries : (find onlyExisting name s).2.entries =
      (consult s.tree onlyExisting name 0 s.entries s.sources).entries := entries_count _ _
  refine ⟨hsound, hleads.tree, ?_⟩
  rw [hentries]
  exact consult_entries .refl (fun e sources => (ChainEntry.tries_ask e s.tree sources name).trans
    (ChainEntry.tries_keep _ name _)) onlyExisting 0 s.entries s.sources

theorem Sound.goes_respond (h : s.Sound) (turn : Turn) :
    s.Goes (Session.respond turn s).2 := by
  obtain ⟨q, rfl⟩ | hadds := asks_or_adds turn s
  · refine ask_keeps (P := s.Goes) (fun ht onlyExisting name =>
      ht.trans (ht.sound.goes_find onlyExisting name)) (fun {r slot} ht _ fullName => ?_) h.goes q
    exact ⟨(keeps_record slot fullName r ht.sound).1, ht.tree, ht.entries⟩
  · obtain ⟨hsound, hleads⟩ := h.respond turn
    refine ⟨hsound, hleads.tree, ?_⟩
    rw [hadds.entries]
    exact h.goes.entries

theorem forall₂_tries_set {es : List ChainEntry} {position : Nat} {e e' : ChainEntry}
    (he : es[position]? = some e) (h : e.Tries e') :
    List.Forall₂ ChainEntry.Tries es (es.set position e') := by
  induction es generalizing position with
  | nil => cases he
  | cons d es ih =>
    cases position with
    | zero =>
      obtain rfl : d = e := Option.some.inj he
      exact .cons h (List.forall₂_same.mpr fun d _ => .refl d)
    | succ position => exact .cons (.refl d) (ih he)

/-- A question to one strategy keeps a session sound. -/
theorem Sound.goes_lookUp (h : s.Sound) (position : Nat) (name : String) :
    s.Goes (lookUp position name s).2 := by
  cases he : s.entries[position]? with
  | none =>
    rw [lookUp_none he]
    exact h.goes
  | some e =>
    have hasks := ChainEntry.ask_asks e s.tree s.sources name
    rw [lookUp_some he]
    refine ⟨⟨hasks.valid h.sources, fun d hd => ?_⟩, rfl,
      forall₂_tries_set he (ChainEntry.tries_ask e s.tree s.sources name)⟩
    rcases List.mem_or_eq_of_mem_set hd with hd | rfl
    · exact (h.entries d hd).mono hasks.grows
    · exact (h.entries e (List.mem_of_getElem? he)).ask name

theorem Goes.moved (h : s.Goes t) (ms : List Move) : s.Goes (t.moved ms) := by
  induction ms generalizing t with
  | nil => exact h
  | cons m ms ih =>
    refine ih (h.trans ?_)
    cases m with
    | turn turn => exact h.sound.goes_respond turn
    | lookUp position name => exact h.sound.goes_lookUp position name

/-! ### Misses -/

/-- A strategy whose misses are kept as final and that has missed a name answers it, after any
moves, as its kind says: source roots with what the units of the session declare by then, and the
others not at all. -/
theorem Goes.lookUp {position : Nat} {name : String} {e : ChainEntry} (hs : s.Sound)
    (h : s.Goes t) (he : s.entries[position]? = some e) (hcaches : e.strategy.cachesMisses)
    (hmissed : (lookUp position name s).1 = none) :
    (lookUp position name t).1 =
      match e.strategy with
      | .sourceRoots _ => t.sources.class? name
      | _ => none := by
  obtain ⟨hlt, hget⟩ := List.getElem?_eq_some_iff.mp he
  have hlt' : position < t.entries.length := h.entries.length_eq ▸ hlt
  have htries : e.Tries t.entries[position] := hget ▸ h.entries.get hlt hlt'
  rw [lookUp_some he] at hmissed
  rw [lookUp_some (List.getElem?_eq_getElem hlt'), h.tree]
  exact htries.ask hcaches hs.sources h.sound.sources hmissed

/-- In any session, whatever has happened to it and happens behind: a strategy whose misses are kept
as final and that misses a name takes the miss back only if it reads source files, and then just
when the units of the session declare the name. -/
theorem miss_later (options : SessionOptions) (tree : FileTree) (parts : List ChainPart)
    (before after : List Move) (position : Nat) (name : String) (strategy : Strategy) :
    let s := (start options tree parts).moved before
    let t := s.moved after
    s.entries[position]?.map (·.strategy) = some strategy → strategy.cachesMisses →
    (lookUp position name s).1 = none →
      (lookUp position name t).1 =
        match strategy with
        | .sourceRoots _ => t.sources.class? name
        | _ => none := by
  intro s t hstrategy hcaches hmissed
  obtain ⟨e, he, rfl⟩ := Option.map_eq_some_iff.mp hstrategy
  have hsound : s.Sound := ((sound_start options tree parts).goes.moved before).sound
  exact Goes.lookUp hsound (hsound.goes.moved after) he hcaches hmissed

/-- Source roots without files miss a class, and then a text declares it. -/
theorem miss_later_sourceRoots :
    let s := start .standard (.empty ⟨"/"⟩) [.locators [.memory .empty]]
    let t := s.moved [.turn (.add (.text ⟨"X.java"⟩ "class X \x7b\x7d"))]
    (lookUp 0 "X" s).1 = none ∧ (lookUp 0 "X" t).1 = t.sources.class? "X" := by
  intro s t
  have hmissed : (lookUp 0 "X" s).1 = none := by
    have hnone : (lookUp 0 "X" s).1.isNone := by decide +kernel
    exact Option.isNone_iff_eq_none.mp hnone
  exact ⟨hmissed, miss_later .standard (.empty ⟨"/"⟩) [.locators [.memory .empty]] []
    [.turn (.add (.text ⟨"X.java"⟩ "class X \x7b\x7d"))] 0 "X" (.sourceRoots [.memory .empty])
    rfl rfl hmissed⟩

/-- Source roots take a miss back that is kept as final, when a text declares the class, whether or
not they were asked before. A chain that was asked before still says then that there is no class. So
what it says of the class depends on when it was asked first. -/
theorem miss_taken_back :
    let s := start .standard (.empty ⟨"/"⟩) [.locators [.memory .empty]]
    let added : Move := .turn (.add (.text ⟨"X.java"⟩ "class X {}"))
    let asked : Move := .turn (.ask (.hasClass "X"))
    s.entries.map (·.strategy.cachesMisses) = [true] ∧
      (lookUp 0 "X" s).1.isNone ∧
      (lookUp 0 "X" (s.moved [added])).1.isSome ∧
      (lookUp 0 "X" (s.moved [.lookUp 0 "X", added])).1.isSome ∧
      (hasClass "X" (s.moved [added])).1 = true ∧
      (hasClass "X" s).1 = false ∧
      (lookUp 0 "X" (s.moved [asked, added])).1.isSome ∧
      (hasClass "X" (s.moved [asked, added])).1 = false := by
  decide +kernel

end Session

end JavaModel
