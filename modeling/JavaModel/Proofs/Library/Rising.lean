import JavaModel.Proofs.Library.Exhaustion

/-! Answers of a chain over time. An entry that has answered with a class keeps it, so that a later
question for the same name comes no further down the chain than this entry, and has the class that
it keeps if it comes so far. -/

namespace JavaModel

namespace ChainEntry

variable {e e' : ChainEntry} {name : String} {c : Class}

/-- `e'` is the entry `e` at a later time: it still has every class that it has answered with. -/
structure Retains (e e' : ChainEntry) : Prop where
  strategy : e'.strategy = e.strategy
  found : ∀ name c, e.found.find? name = some c → e'.found.find? name = some c

theorem Retains.refl (e : ChainEntry) : e.Retains e := ⟨rfl, fun _ _ h => h⟩

theorem Retains.trans {e'' : ChainEntry} (h : e.Retains e') (h' : e'.Retains e'') :
    e.Retains e'' :=
  ⟨h'.strategy.trans h.strategy, fun name c hc => h'.found name c (h.found name c hc)⟩

theorem retains_keep (e : ChainEntry) (name : String) (answer : Option Class) :
    e.Retains (e.keep name answer) := by
  refine ⟨strategy_keep e name answer, fun n c hc => ?_⟩
  unfold keep
  split
  · exact Table.find?_record_of_some hc name _
  · split <;> exact hc

theorem retains_ask (e : ChainEntry) (tree : FileTree) (sources : SourceSet) (name : String) :
    e.Retains (e.ask tree sources name).2.1 := by
  have hasks := ask_asks e tree sources name
  exact ⟨hasks.strategy, fun n c hc => by rwa [hasks.found]⟩

theorem found_keep (h : e.found.find? name = none) (c : Class) :
    (e.keep name (some c)).found.find? name = some c := by
  simp [keep, Table.find?_record, h]

end ChainEntry

open ChainEntry

variable {tree : FileTree} {sources : SourceSet} {es es' : List ChainEntry} {onlyExisting : Bool}
  {name : String} {position i : Nat} {c : Class}

/-- What asking any entry and keeping its answer does to the entry, a question to a chain does to
each entry or leaves it as it is. -/
theorem consult_entries {R : ChainEntry → ChainEntry → Prop} (hrefl : ∀ e, R e e)
    (hask : ∀ e sources, R e ((ChainEntry.ask e tree sources name).2.1.keep name
      (ChainEntry.ask e tree sources name).1))
    (onlyExisting : Bool) (position : Nat) (es : List ChainEntry) (sources : SourceSet) :
    List.Forall₂ R es (consult tree onlyExisting name position es sources).entries := by
  have hresponds {e e' sources sources' answer}
      (h : Responds tree onlyExisting name e sources answer e' sources') : R e e' := by
    cases h with
    | skipped | found | absent => exact hrefl _
    | asked _ _ hanswer => exact hanswer ▸ hask e sources
  exact consult_induction (motive := fun _ es _ r => List.Forall₂ R es r.entries)
    (fun _ _ => .nil) (fun _ h ih => .cons (hresponds h) ih)
    (fun _ h => .cons (hresponds h) (List.forall₂_same.mpr fun d _ => hrefl d)) position es sources

/-- The entry at an index has answered the question with the class. -/
def HasAnswered (onlyExisting : Bool) (name : String) (es : List ChainEntry) (i : Nat)
    (c : Class) : Prop :=
  ∃ e, es[i]? = some e ∧ ¬ Skips onlyExisting e ∧ e.found.find? name = some c

theorem HasAnswered.cons (h : HasAnswered onlyExisting name es i c) (e : ChainEntry) :
    HasAnswered onlyExisting name (e :: es) (i + 1) c := h

/-- What has been answered stays answered. -/
theorem HasAnswered.mono (h : HasAnswered onlyExisting name es i c)
    (hretains : List.Forall₂ Retains es es') : HasAnswered onlyExisting name es' i c := by
  obtain ⟨e, he, hskips, hc⟩ := h
  obtain ⟨hi, rfl⟩ := List.getElem?_eq_some_iff.mp he
  have hi' : i < es'.length := hretains.length_eq ▸ hi
  have hkept : Retains es[i] es'[i] := hretains.get hi hi'
  refine ⟨es'[i], List.getElem?_eq_getElem hi', ?_, hkept.found name c hc⟩
  rwa [Skips, hkept.strategy]

theorem forall₂_retains_trans {es'' : List ChainEntry} (h : List.Forall₂ Retains es es')
    (h' : List.Forall₂ Retains es' es'') : List.Forall₂ Retains es es'' := by
  induction h generalizing es'' with
  | nil => exact h'
  | cons he _ ih =>
    cases h' with
    | cons he' hes' => exact .cons (he.trans he') (ih hes')

/-- A question leaves all classes that were answered with where they are. -/
theorem retains_consult (tree : FileTree) (onlyExisting : Bool) (name : String) (position : Nat)
    (es : List ChainEntry) (sources : SourceSet) :
    List.Forall₂ Retains es (consult tree onlyExisting name position es sources).entries :=
  consult_entries .refl (fun e sources => (retains_ask e tree sources name).trans
    (retains_keep _ name _)) onlyExisting position es sources

/-- An entry that answers keeps the answer. -/
theorem Responds.hasAnswered {e e' : ChainEntry} {sources' : SourceSet}
    (h : Responds tree onlyExisting name e sources (some c) e' sources') (es : List ChainEntry) :
    HasAnswered onlyExisting name (e' :: es) 0 c := by
  refine ⟨e', rfl, ?_, ?_⟩
  · rw [Skips, h.strategy]
    cases h with
    | found hskips | asked hskips => exact hskips
  · cases h with
    | found _ hremembered => exact remembered_found hremembered
    | asked _ hremembered =>
      refine found_keep ?_ c
      rw [(ask_asks e tree sources name).found]
      exact found_of_remembered_unknown hremembered

/-- An entry that has answered before answers again. -/
theorem Responds.eq_of_hasAnswered {e e' : ChainEntry} {sources' : SourceSet}
    {answer : Option Class} (h : Responds tree onlyExisting name e sources answer e' sources')
    (hanswered : HasAnswered onlyExisting name (e :: es) 0 c) : answer = some c := by
  obtain ⟨d, hd, hskips, hc⟩ := hanswered
  obtain rfl : e = d := Option.some.inj hd
  have hknown : e.remembered name = .found c := by
    rw [remembered, hc]
  cases h with
  | skipped h => exact absurd h hskips
  | found _ hremembered => cases hknown.symm.trans hremembered; rfl
  | absent _ hremembered | asked _ hremembered => cases hknown.symm.trans hremembered

/-- An answer is kept at its position. -/
theorem hasAnswered_of_consult {a : Answer}
    (h : (consult tree onlyExisting name position es sources).answer = some a) :
    ∃ i, a.position = position + i ∧ HasAnswered onlyExisting name
      (consult tree onlyExisting name position es sources).entries i a.found := by
  refine consult_induction (motive := fun position _ _ r => r.answer = some a →
    ∃ i, a.position = position + i ∧ HasAnswered onlyExisting name r.entries i a.found)
    ?nil ?passed ?answered position es sources h
  case nil =>
    intro _ _ h
    cases h
  case passed =>
    intro position e es sources e' sources' tally _ r ih h
    obtain ⟨i, hi, hanswered⟩ := ih h
    exact ⟨i + 1, by omega, hanswered.cons e'⟩
  case answered =>
    intro position e es sources c e' sources' tally hresponds h
    obtain rfl := Option.some.inj h
    exact ⟨0, rfl, hresponds.hasAnswered es⟩

/-- A name for which some entry has answered is answered by this entry, with the same class, or by
one in front of it. -/
theorem consult_of_hasAnswered (h : HasAnswered onlyExisting name es i c) (tree : FileTree)
    (position : Nat) (sources : SourceSet) :
    ∃ b, (consult tree onlyExisting name position es sources).answer = some b ∧
      b.position ≤ position + i ∧ (b.position = position + i → b.found = c) := by
  refine consult_induction (motive := fun position es _ r =>
    ∀ i, HasAnswered onlyExisting name es i c → ∃ b, r.answer = some b ∧
      b.position ≤ position + i ∧ (b.position = position + i → b.found = c))
    ?nil ?passed ?answered position es sources i h
  case nil =>
    rintro _ _ _ ⟨_, he, _⟩
    cases he
  case passed =>
    intro position e es sources e' sources' tally hresponds r ih i h
    cases i with
    | zero => cases hresponds.eq_of_hasAnswered h
    | succ i =>
      obtain ⟨b, hb, hle, hsame⟩ := ih i h
      exact ⟨b, hb, by omega, fun heq => hsame (by omega)⟩
  case answered =>
    intro position e es sources c' e' sources' tally hresponds i h
    refine ⟨_, rfl, Nat.le_add_right _ _, fun heq => ?_⟩
    obtain rfl : i = 0 := by simpa using heq
    exact Option.some.inj (hresponds.eq_of_hasAnswered h)

end JavaModel
