import JavaModel.Proofs.Library.Overlooked
import JavaModel.Proofs.Session.Discovery
import JavaModel.Proofs.Session.Misses

/-! What a miss of source roots says of their locators. Whatever has been said to a session and asked
of its strategies, a file of a class that is missed was passed over, because a file that another
locator has under the same path was tried in its place, and one of the two stands in memory. Source
roots on disk, and any single locator, have no file of a class that they miss. -/

namespace JavaModel

namespace Session

variable {s : Session}

/-- The chain of the session accounts for all files that it has tried. -/
def Accounts (s : Session) : Prop := ∀ e ∈ s.entries, e.Accounts s.tree s.sources

theorem accounts_start (options : SessionOptions) (tree : FileTree) (parts : List ChainPart) :
    (start options tree parts).Accounts := by
  intro e he
  obtain ⟨strategy, _, rfl⟩ := List.mem_map.mp he
  exact ChainEntry.accounts_fresh strategy

theorem Accounts.find (h : s.Accounts) (onlyExisting : Bool) (name : String) :
    (find onlyExisting name s).2.Accounts := by
  have hkept := find_keeps (I := fun _ => True) (J := fun e sources => e.Accounts s.tree sources)
    (fun _ he => ⟨trivial, (he.ask name).keep name _⟩) ChainEntry.Accounts.mono onlyExisting
    trivial h
  rw [Accounts, tree_find]
  exact hkept.2

theorem Accounts.respond (h : s.Accounts) (hsound : s.Sound) (turn : Turn) :
    (respond turn s).2.Accounts := by
  obtain ⟨q, rfl⟩ | hadds := asks_or_adds turn s
  · exact ask_keeps Accounts.find (fun hs _ _ => hs) h q
  · have hleads := (hsound.respond turn).2
    intro e he
    rw [hadds.entries] at he
    rw [hleads.tree]
    exact (h e he).mono hleads.sources

theorem Accounts.lookUp (h : s.Accounts) (position : Nat) (name : String) :
    (lookUp position name s).2.Accounts := by
  cases he : s.entries[position]? with
  | none =>
    rw [lookUp_none he]
    exact h
  | some e =>
    rw [lookUp_some he]
    intro d hd
    rcases List.mem_or_eq_of_mem_set hd with hd | rfl
    · exact (h d hd).mono (ChainEntry.ask_asks e s.tree s.sources name).grows
    · exact (h e (List.mem_of_getElem? he)).ask name

/-- Moves keep a session sound, its tree as it is, and all tried files accounted for. -/
theorem Accounts.moved (h : s.Accounts) (hsound : s.Sound) (ms : List Move) :
    (s.moved ms).Accounts ∧ s.Goes (s.moved ms) := by
  refine ⟨?_, hsound.goes.moved ms⟩
  induction ms generalizing s with
  | nil => exact h
  | cons m ms ih =>
    cases m with
    | turn turn => exact ih (h.respond hsound turn) (hsound.goes_respond turn).sound
    | lookUp position name =>
      exact ih (h.lookUp position name) (hsound.goes_lookUp position name).sound

/-- In any session, whatever has been said to it and asked of its strategies: if source roots miss
a name, then for every file that a locator offers for the name and that declares a class of it,
another locator has offered a file under the same path that does not declare it, and the two
locators do not both read from the tree. -/
theorem missed_overlooked (options : SessionOptions) (tree : FileTree) (parts : List ChainPart)
    (ms : List Move) (position : Nat) (locators : List Locator) (name : String) :
    let s := (start options tree parts).moved ms
    s.entries[position]?.map (·.strategy) = some (.sourceRoots locators) →
    (lookUp position name s).1 = none →
    ∀ l ∈ locators, ∀ p ∈ l.candidates tree name, Loading.Declares tree (l, p) name →
      ∃ l' ∈ locators, l' ≠ l ∧ ¬ (l'.isDirectory ∧ l.isDirectory) ∧
        ∃ other, ∃ p' ∈ l'.candidates tree other, p'.components = p.components ∧
          ¬ Loading.Declares tree (l', p') name := by
  intro s hstrategy hmissed l hl p hp hdeclares
  obtain ⟨e, he, hroots⟩ := Option.map_eq_some_iff.mp hstrategy
  obtain ⟨haccounts, hgoes⟩ :=
    (accounts_start options tree parts).moved (sound_start options tree parts) ms
  have htree : s.tree = tree := hgoes.tree
  rw [lookUp_some he] at hmissed
  have hoffered : (l, p) ∈ Locator.filesFor locators s.tree name := by
    rw [htree]
    exact List.mem_flatMap.mpr ⟨l, hl, List.mem_map_of_mem hp⟩
  rw [← htree] at hdeclares
  obtain ⟨⟨l', p'⟩, hoffers, hshare, hpath, hundeclared⟩ :=
    (haccounts e (List.mem_of_getElem? he)).overlooked hgoes.sound.sources hroots hmissed hoffered
      hdeclares
  rw [htree] at hoffers hundeclared
  obtain ⟨hl', other, hp'⟩ := Loading.offers_iff.mp hoffers
  exact ⟨l', hl', fun hsame => hshare (.inl hsame), fun hdisk => hshare (.inr hdisk), other, p', hp',
    hpath, hundeclared⟩

/-! ### Two texts under one path -/

/-- A text in memory that declares `p.A`. -/
def declaring : Locator := .memory ⟨[(⟨"p/A.java"⟩, "package p; class A \x7b\x7d")]⟩

/-- Two locators with a text each under the same path, the second of which declares `p.A`. -/
def sharedPath : List Locator := [.memory ⟨[(⟨"p/A.java"⟩, "class X \x7b\x7d")]⟩, declaring]

theorem declares_declaring (tree : FileTree) :
    ⟨"p/A.java"⟩ ∈ declaring.candidates tree "p.A" ∧
      Loading.Declares tree (declaring, ⟨"p/A.java"⟩) "p.A" := by
  have hcandidate : ⟨"p/A.java"⟩ ∈ declaring.candidates (.empty ⟨"/"⟩) "p.A" := by
    decide +kernel
  have hparse : (parse "package p; class A \x7b\x7d").error = none := by
    decide +kernel
  have hread : declaring.read tree ⟨"p/A.java"⟩ = .ok "package p; class A \x7b\x7d" := rfl
  exact ⟨hcandidate, _, ⟨0⟩, _, hread, SourceUnit.ofText_of_parses hparse _ _, by decide +kernel⟩

theorem isNone_sharedPath :
    (lookUp 0 "p.A" (start .standard (.empty ⟨"/"⟩) [.locators sharedPath])).1.isNone := by
  decide +kernel

/-- The text that declares the class is passed over, for another locator has one under its path. -/
theorem missed_overlooked_sharedPath :
    let tree : FileTree := .empty ⟨"/"⟩
    let s := start .standard tree [.locators sharedPath]
    s.entries[0]?.map (·.strategy) = some (.sourceRoots sharedPath) ∧
      (lookUp 0 "p.A" s).1 = none ∧ declaring ∈ sharedPath ∧
      (∃ p ∈ declaring.candidates tree "p.A", Loading.Declares tree (declaring, p) "p.A") ∧
      ∃ l ∈ sharedPath, l ≠ declaring ∧ ¬ (l.isDirectory ∧ declaring.isDirectory) := by
  intro tree s
  obtain ⟨hp, hdeclares⟩ := declares_declaring tree
  have hmissed : (lookUp 0 "p.A" s).1 = none := Option.isNone_iff_eq_none.mp isNone_sharedPath
  have hl : declaring ∈ sharedPath := List.mem_of_getElem? (i := 1) rfl
  obtain ⟨l, hl', hne, hdisk, _⟩ := missed_overlooked .standard tree [.locators sharedPath] [] 0
    sharedPath "p.A" rfl hmissed declaring hl _ hp hdeclares
  exact ⟨rfl, hmissed, hl, ⟨_, hp, hdeclares⟩, l, hl', hne, hdisk⟩

/-- Source roots miss a class that a text of one of their locators declares. Where this locator is
the only one the class is found. -/
theorem missed_sharedPath :
    let tree : FileTree := .empty ⟨"/"⟩
    let s := start .standard tree [.locators sharedPath]
    let alone := start .standard tree [.locators [declaring]]
    (lookUp 0 "p.A" s).1 = none ∧ (hasClass "p.A" s).1 = false ∧
      (∃ l ∈ sharedPath, ∃ p ∈ l.candidates tree "p.A", Loading.Declares tree (l, p) "p.A") ∧
      (hasClass "p.A" alone).1 = true := by
  intro tree s alone
  obtain ⟨hp, hdeclares⟩ := declares_declaring tree
  exact ⟨Option.isNone_iff_eq_none.mp isNone_sharedPath, by decide +kernel,
    ⟨declaring, List.mem_of_getElem? (i := 1) rfl, _, hp, hdeclares⟩, by decide +kernel⟩

end Session

end JavaModel
