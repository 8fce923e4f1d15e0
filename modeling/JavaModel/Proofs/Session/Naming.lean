import JavaModel.Proofs.Library.Naming
import JavaModel.Proofs.Session.Caching
import JavaModel.Proofs.Session.Regular

/-! What a session answers for a name. Whatever has been said to it, its source set has been filled
step by step, and its chain asks authoritative strategies before a stub. So a class that is found
has the name that was asked for, a class exists just when one is found that is no stub, and with a
stub a class is found for every valid name. -/

namespace JavaModel

namespace Session

open SourceSet

variable {s t : Session}

/-! ### Filling the source set -/

/-- Ids are handed out, as many as are asked for. -/
theorem reaches_reserve (sources : SourceSet) (n : Nat) :
    ∀ unused, ∃ unused', Relation.ReflTransGen Filling.Step ⟨sources, unused⟩
        ⟨{ sources with nextId := sources.nextId + n }, unused'⟩ ∧
      ∀ k < n, (⟨sources.nextId + k⟩ : UnitId) ∈ unused' := by
  induction n with
  | zero => exact fun unused => ⟨unused, .refl, fun k hk => absurd hk (Nat.not_lt_zero k)⟩
  | succ n ih =>
    intro unused
    obtain ⟨unused', hreach, hids⟩ := ih unused
    refine ⟨⟨sources.nextId + n⟩ :: unused', hreach.tail .reserve, fun k hk => ?_⟩
    obtain hk | rfl := Nat.lt_succ_iff_lt_or_eq.mp hk
    · exact List.mem_cons_of_mem _ (hids k hk)
    · exact List.mem_cons_self ..

theorem reaches_addRead {read : UnitId → Except SourceError SourceUnit}
    (h : ∀ id u, read id = .ok u → u.id = id ∧ u.IsRead) (s : Session) :
    s.sources.Reaches ((reserveId >>= fun id => insertRead (read id)) s).2.sources := by
  rw [bind_apply]
  cases hread : read (reserveId s).1 with
  | error e => exact reaches_reserveId s.sources
  | ok u =>
    obtain ⟨hid, hisRead⟩ := h _ u hread
    exact reaches_insert_next hid hisRead

theorem reaches_addText (path : FilePath) (text : String) (s : Session) :
    s.sources.Reaches (addText path text s).2.sources :=
  reaches_addRead (fun _ _ h => ⟨(SourceUnit.ofText_places h).1, SourceUnit.isRead_ofText h⟩) s

theorem reaches_addSource (x : Source) (s : Session) :
    s.sources.Reaches (addSource x s).2.sources := by
  cases x with
  | text path text => exact reaches_addText path text s
  | reader path given =>
    exact reaches_addRead
      (fun _ _ h => ⟨(SourceUnit.ofReader_places h).1, SourceUnit.isRead_ofReader h⟩) s
  | file path =>
    rw [addSource]
    cases hread : s.tree.read path with
    | error fault =>
      rw [addFile_unreadable hread]
      exact .refl _
    | ok text =>
      rw [addFile_readable hread]
      exact reaches_addText path text s

/-- Units are added under ids that have been handed out for them. -/
theorem reaches_insertAll {read : List (FilePath × Except SourceError SourceUnit)}
    {unused : List UnitId} (hids : (unitsRead read).Pairwise fun u v => u.id ≠ v.id)
    (hunits : ∀ u ∈ unitsRead read, u.id ∈ unused ∧ u.IsRead) (s : Session) :
    ∃ unused', Relation.ReflTransGen Filling.Step ⟨s.sources, unused⟩
      ⟨(insertAll read s).2.sources, unused'⟩ := by
  induction read generalizing s unused with
  | nil => exact ⟨unused, .refl⟩
  | cons first read ih =>
    obtain ⟨p, result⟩ := first
    cases result with
    | ok u =>
      rw [unitsRead_ok] at hids hunits
      obtain ⟨hu, hunits⟩ := List.forall_mem_cons.mp hunits
      obtain ⟨hfresh, hids⟩ := List.pairwise_cons.mp hids
      have hleft : ∀ v ∈ unitsRead read, v.id ∈ unused.erase u.id ∧ v.IsRead := fun v hv =>
        ⟨(List.mem_erase_of_ne (hfresh v hv).symm).mpr (hunits v hv).1, (hunits v hv).2⟩
      obtain ⟨unused', hrest⟩ := ih hids hleft (Session.insert u s).2
      rw [state_insertAll_ok]
      exact ⟨unused', .head (.insert u hu) hrest⟩
    | error e =>
      rw [state_insertAll_error]
      split
      · exact ih hids hunits s
      · exact ⟨unused, .refl⟩

theorem reaches_addFiles (numbering : Numbering) (ps : List FilePath) (s : Session)
    (hcount : numbering.count = readableCount s.tree ps) :
    s.sources.Reaches (addFiles numbering.order ps s).2.sources := by
  intro unused
  let first := s.sources.nextId
  let read := readUnits s.tree (fun n => ⟨first + numbering.order n⟩) 0 ps
  obtain ⟨unused', hreserved, hgiven⟩ :=
    reaches_reserve s.sources (readableCount s.tree ps) unused
  obtain ⟨hunits, hordered⟩ :=
    unitsRead_readUnits s.tree (fun n => ⟨first + numbering.order n⟩) 0 ps
  have hisRead := isRead_readUnits s.tree (fun n => ⟨first + numbering.order n⟩) 0 ps
  have hids : (unitsRead read).Pairwise fun u v => u.id ≠ v.id := by
    refine hordered.imp ?_
    rintro u v ⟨j, k, _, hjk, hk, hu, hv⟩ heq
    rw [hu, hv] at heq
    injection heq with heq
    have := numbering.injective j (by omega) k (by omega) (by omega)
    omega
  have hall : ∀ u ∈ unitsRead read, u.id ∈ unused' ∧ u.IsRead := by
    intro u hu
    obtain ⟨_, k, _, hk, hid⟩ := hunits u hu
    have hlt := numbering.below k (by omega)
    exact ⟨hid ▸ hgiven _ (by omega), hisRead u hu⟩
  obtain ⟨unused'', hinserted⟩ := reaches_insertAll hids hall
    { s with sources := { s.sources with nextId := first + readableCount s.tree ps } }
  exact ⟨unused'', hreserved.trans hinserted⟩

theorem reaches_loadTree (numbering : Numbering) {dir : FilePath}
    (hnumbers : s.Numbers dir numbering) :
    s.sources.Reaches (loadTree numbering.order dir s).2.sources := by
  obtain hsame | hfiles := state_loadTree numbering.order dir s
  · rw [hsame]
    exact .refl _
  · rw [hfiles]
    exact reaches_addFiles numbering _ s hnumbers

theorem reaches_find (onlyExisting : Bool) (name : String) (s : Session) :
    s.sources.Reaches (find onlyExisting name s).2.sources := by
  have hsources : (find onlyExisting name s).2.sources =
      (consult s.tree onlyExisting name 0 s.entries s.sources).sources := sources_count _ _
  rw [hsources]
  exact reaches_consult s.tree onlyExisting name 0 s.entries s.sources

theorem reaches_respond (turn : Turn) (s : Session) :
    s.sources.Reaches (respond turn s).2.sources := by
  cases turn with
  | ask q =>
    exact ask_keeps (P := fun t => s.sources.Reaches t.sources)
      (fun ht onlyExisting name => ht.trans (reaches_find onlyExisting name _))
      (fun ht _ _ => ht) (.refl _) q
  | add x => exact reaches_addSource x s
  | addTree numbering dir =>
    change s.sources.Reaches ((if s.Numbers dir numbering then _ else _ : Query Reply) s).2.sources
    split
    · exact reaches_loadTree numbering ‹_›
    · exact reaches_loadTree (.inOrder (readableCount s.tree (s.filesBelow dir))) rfl

theorem reaches_converse (ts : List Turn) (s : Session) :
    s.sources.Reaches (converse ts s).2.sources :=
  converse_keeps (P := fun t => s.sources.Reaches t.sources)
    (fun ht turn => ht.trans (reaches_respond turn _)) (.refl _) ts

theorem Reachable.isFilled (h : s.Reachable) : s.sources.IsFilled := by
  obtain ⟨options, tree, parts, before, rfl⟩ := h
  exact isFilled_empty.reaches (reaches_converse before (start options tree parts))

/-! ### The chain -/

/-- The chain has authoritative strategies, and behind them at most a stub. -/
theorem Reachable.chain_cases (h : s.Reachable) : ∃ es last, s.entries = es ++ last ∧
    (∀ e ∈ es, e.strategy.isAuthoritative) ∧
    (last = [] ∨ ∃ e : ChainEntry, last = [e] ∧ e.strategy = .stub) := by
  obtain ⟨options, tree, parts, before, rfl⟩ := h
  obtain ⟨_, hleads⟩ := (sound_start options tree parts).converse before
  let plan := parts.foldl ChainPlan.add ⟨[], false, options.implicitPackages⟩
  have hchain := hleads.strategies.trans (strategies_start options tree parts)
  obtain ⟨es, last, hentries, hes, hlast⟩ := List.map_eq_append_iff.mp hchain
  have hauthoritative : ∀ x ∈ plan.strategies, x.isAuthoritative :=
    ChainPlan.authoritative_foldl (fun x hx => (List.not_mem_nil hx).elim) parts
  refine ⟨es, last, hentries, fun e he => ?_, ?_⟩
  · refine hauthoritative e.strategy ?_
    rw [← hes]
    exact List.mem_map_of_mem he
  · split at hlast
    · obtain ⟨e, rfl, he⟩ := List.map_eq_singleton_iff.mp hlast
      exact .inr ⟨e, rfl, he⟩
    · exact .inl (List.map_eq_nil_iff.mp hlast)

/-- An answer of authoritative strategies is no stub. -/
theorem Regular.not_stub (h : s.Regular) {es last : List ChainEntry}
    (hentries : s.entries = es ++ last) (hauthoritative : ∀ e ∈ es, e.strategy.isAuthoritative)
    {name : String} {a : Answer}
    (ha : (consult s.tree false name 0 es s.sources).answer = some a) :
    a.found.isStub = false := by
  have hplaced : s.sources.Placed := fun u hu => by
    obtain ⟨path, text, hread⟩ := h.read u hu
    exact (SourceUnit.ofText_places hread).2
  have hfaithful : ∀ e ∈ es, e.Faithful s.tree s.sources := fun e he =>
    h.sound.entries e (hentries ▸ List.mem_append_left _ he)
  obtain ⟨e, he, hfinds⟩ := finds_of_consult hfaithful ha
  exact hfinds.not_stub (placed_consult hplaced s.tree false name 0 es) (hauthoritative e he)

/-- A question for an existing class has no stub for an answer. A question for any class has the
same answer, or else perhaps a stub, and if the chain has a stub just for valid names. -/
theorem Reachable.answers (h : s.Reachable) (name : String) :
    (∀ a, (find true name s).1 = some a → a.found.isStub = false) ∧
    ∃ made : Option Answer, (classNamed name s).1 = (find true name s).1.or made ∧
      (∀ a, made = some a → a.found.isStub = true) ∧
      (.stub ∈ s.entries.map (·.strategy) → (made.isSome ↔ Name.isQualified name)) := by
  obtain ⟨es, last, hentries, hauthoritative, hlast⟩ := h.chain_cases
  have hreal (a : Answer) (ha : (consult s.tree false name 0 es s.sources).answer = some a) :
      a.found.isStub = false := h.regular.not_stub hentries hauthoritative ha
  have hclass : (classNamed name s).1 =
      (consult s.tree false name 0 s.entries s.sources).answer := rfl
  have hexists : (find true name s).1 =
      (consult s.tree true name 0 s.entries s.sources).answer := rfl
  obtain rfl | ⟨e, rfl, hstub⟩ := hlast
  · -- Without a stub, both questions have the same answer.
    rw [List.append_nil] at hentries
    rw [hclass, hexists, hentries, consult_authoritative hauthoritative]
    refine ⟨hreal, none, Option.or_none.symm, fun a ha => absurd ha (by simp), fun hmem => ?_⟩
    obtain ⟨e, he, heq⟩ := List.mem_map.mp hmem
    have hfalse := hauthoritative e he
    rw [heq] at hfalse
    cases hfalse
  · have hlast : e.Faithful s.tree s.sources :=
      h.regular.sound.entries e (hentries ▸ List.mem_append_right es (List.mem_singleton_self e))
    obtain ⟨hexisting, hany⟩ := answer_stubBehind hauthoritative hstub hlast name
    rw [hclass, hexists, hentries, hexisting, hany]
    refine ⟨hreal, _, rfl, fun a ha => ?_, fun _ => ?_⟩
    · obtain ⟨_, ha⟩ := Option.ite_none_right_eq_some.mp ha
      rw [← Option.some.inj ha]
      rfl
    · by_cases hname : Name.isQualified name <;> simp [hname]

/-- In any session and for any name: a class that is found has the name; a class of the name exists
just when one is found that is not made up; and with a stub in the chain one is found just when one
exists or the name is valid. -/
theorem answers_named (h : s.Reachable) (name : String) :
    (∀ a, (classNamed name s).1 = some a → a.found.fullName = name) ∧
    ((hasClass name s).1 = true ↔
      ∃ a, (classNamed name s).1 = some a ∧ a.found.isStub = false) ∧
    (.stub ∈ s.entries.map (·.strategy) →
      ((classNamed name s).1.isSome ↔ (hasClass name s).1 = true ∨ Name.isQualified name)) := by
  obtain ⟨hreal, made, hanswer, hmade, hany⟩ := h.answers name
  have hexists : (hasClass name s).1 = (find true name s).1.isSome := rfl
  refine ⟨fun a ha => fullName_of_consult h.regular.sound.entries h.isFilled ha, ?_⟩
  rw [hanswer, hexists]
  cases hfront : (find true name s).1 with
  | some a => simpa using hreal a hfront
  | none =>
    refine ⟨⟨fun hfalse => absurd hfalse Bool.false_ne_true, ?_⟩, fun hmem => ?_⟩
    · rintro ⟨a, ha, hstub⟩
      rw [hmade a ha] at hstub
      cases hstub
    · simpa using hany hmem

/-- A session with a stub, which says of an unknown class that it does not exist. -/
theorem answers_named_ghost :
    let s := standard { SessionOptions.standard with hasStub := true } (.empty ⟨"/"⟩)
    s.Reachable ∧ .stub ∈ s.entries.map (·.strategy) ∧ Name.isQualified "com.acme.Ghost" ∧
      (classNamed "com.acme.Ghost" s).1.isSome ∧ (hasClass "com.acme.Ghost" s).1 = false ∧
      ∀ a, (classNamed "com.acme.Ghost" s).1 = some a → a.found.fullName = "com.acme.Ghost" := by
  intro s
  have hreachable : s.Reachable := ⟨_, _, _, [], rfl⟩
  have hstub : .stub ∈ s.entries.map (·.strategy) := List.mem_of_getElem? (i := 2) rfl
  have hname : Name.isQualified "com.acme.Ghost" := by
    decide +kernel
  have hunknown : (hasClass "com.acme.Ghost" s).1 = false := by
    decide +kernel
  obtain ⟨hnamed, _, hany⟩ := answers_named hreachable "com.acme.Ghost"
  exact ⟨hreachable, hstub, hname, (hany hstub).mpr (.inr hname), hunknown, hnamed⟩

end Session

end JavaModel
