import JavaModel.Proofs.Grammar.Spelling
import JavaModel.Proofs.Model.Contents

/-! The names in a unit that was read from a text. All of them are made of the identifiers of the
text and of the names of primitive types: the package, the imports, the full names of the classes,
and the names that stand in types anywhere in the unit. -/

namespace JavaModel

open Name

namespace SourceUnit

variable {W : String → Prop} {u : SourceUnit}

/-- The references in the classes of the unit, at any depth. -/
def references (u : SourceUnit) : List TypeRef :=
  u.classes.flatMap fun c => c.typeRefs.flatMap fun site => site.ref.spread

theorem mem_references {r : TypeRef} : r ∈ u.references ↔
    ∃ c ∈ u.classes, ∃ site ∈ c.typeRefs, r ∈ site.ref.spread := by
  simp only [references, List.mem_flatMap]

/-- The reference stands in a class of the unit or at its package. -/
def Mentions (u : SourceUnit) (r : TypeRef) : Prop :=
  r ∈ u.references ∨ ∃ a ∈ u.packageAnnotations, r ∈ a.type.spread

/-- Every name in the unit, but for those of members, is made of words in `W`. -/
structure Spelled (W : String → Prop) (u : SourceUnit) : Prop where
  package : ∀ p ∈ u.package, Dotted W p
  imports : ∀ i ∈ u.imports, Dotted W i.name
  classes : ∀ c ∈ u.classes, Dotted W c.fullName
  mentions : ∀ r, u.Mentions r → Dotted W r.name

theorem Spelled.mono {V : String → Prop} (h : u.Spelled W) (hWV : ∀ w, W w → V w) :
    u.Spelled V :=
  ⟨fun p hp => (h.package p hp).mono hWV, fun i hi => (h.imports i hi).mono hWV,
    fun c hc => (h.classes c hc).mono hWV, fun r hr => (h.mentions r hr).mono hWV⟩

/-- A scope holds classes of the unit only. -/
theorem mem_of_mem_scopeFrom {i : Option ClassIndex} {c : Class} (h : c ∈ u.scopeFrom i) :
    c ∈ u.classes := by
  suffices houtward : ∀ bound i, c ∈ u.outward bound i → c ∈ u.classes from houtward _ i h
  intro bound i hc
  fun_induction u.outward bound i with
  | case1 bound i found hfound ih =>
    rcases List.mem_cons.mp hc with rfl | hc
    · exact List.mem_of_getElem? hfound
    · exact ih hc
  | case2 => cases hc
  | case3 => cases hc

/-- References that stand for a spelled type have names of this sort. -/
theorem dotted_of_spelled {t : TypeExpr} {r q : TypeRef} (ht : t.Spelled W) (hr : r.Writes t)
    (hq : q ∈ r.spread) : Dotted W q.name := by
  refine ht q.name ?_
  rw [← hr, TypeRef.names_written]
  exact List.mem_map_of_mem hq

end SourceUnit

/-- What was told is among the events. -/
theorem exists_of_mem_told {α : Type} {pick : Event → Option α} {es : List Event} {t : Told α}
    (h : t ∈ told pick es) : ∃ e ∈ es, pick e = some t.decl := by
  have hdecl : t.decl ∈ es.filterMap pick := by
    rw [← map_decl_told]
    exact List.mem_map_of_mem h
  exact List.mem_filterMap.mp hdecl

namespace SourceUnit

variable {W : String → Prop} {u : SourceUnit} {es : List Event}

/-- A class of the unit is one that was told. -/
theorem Contains.class_told (h : u.Contains es) {c : Class} (hc : c ∈ u.classes) :
    ∃ w, .beginClass w ∈ es ∧ Class.Holds TypeRef.Writes w c := by
  obtain ⟨t, ht, his⟩ := exists_of_forall₂ h.classes hc
  obtain ⟨e, he, hpick⟩ := exists_of_mem_told ht
  cases e <;> cases hpick
  exact ⟨t.decl, he, his.holds⟩

theorem Contains.single_name (h : u.Contains es) (hes : ∀ e ∈ es, e.Spelled W) {c : Class}
    (hc : c ∈ u.classes) : Single W c.name := by
  obtain ⟨w, hw, hholds⟩ := h.class_told hc
  rw [hholds.name]
  exact (hes _ hw).1

theorem Contains.spelled_package (h : u.Contains es) (hes : ∀ e ∈ es, e.Spelled W) :
    ∀ p ∈ u.package, Dotted W p := by
  intro p hp
  have hname : p ∈ (told Event.package? es).map (·.decl.name) := by
    rw [← h.heads.package]
    exact Option.mem_toList.mpr hp
  obtain ⟨t, ht, rfl⟩ := List.mem_map.mp hname
  obtain ⟨e, he, hpick⟩ := exists_of_mem_told ht
  cases e <;> cases hpick
  exact (hes _ he).1

/-- Every type of a class of the unit is spelled: those of its head, its fields, its methods and its
constructors. -/
theorem Contains.spelled_typeRefs (h : u.Contains es) (hes : ∀ e ∈ es, e.Spelled W) {c : Class}
    (hc : c ∈ u.classes) {site : SitedRef} (hsite : site ∈ c.typeRefs) :
    ∃ t : TypeExpr, t.Spelled W ∧ site.ref.Writes t := by
  obtain ⟨w, hw, hholds⟩ := h.class_told hc
  obtain ⟨n, hn⟩ := List.mem_iff_getElem?.mp hc
  have hmembers := h.members ⟨n⟩ c hn
  rcases hholds.refs hsite with ⟨t, ht, hR⟩ | ⟨f, hf, hr⟩ | ⟨m, hm, hr⟩
  · exact ⟨t, (hes _ hw).2 t ht, hR⟩
  · obtain ⟨told, htold, his⟩ := exists_of_forall₂ hmembers.fields hf
    obtain ⟨e, he, hpick⟩ := exists_of_mem_told (List.mem_of_mem_filter htold)
    obtain ⟨t, ht, hR⟩ := his.holds.refs hr
    cases e <;> cases hpick
    exact ⟨t, hes _ he t ht, hR⟩
  · -- Constructors and other methods are told by the same event.
    have hmethod : ∃ w, .beginMethod w ∈ es ∧ Method.Holds TypeRef.Writes w m := by
      rcases List.mem_append.mp hm with hm | hm
      · obtain ⟨told, htold, his⟩ := exists_of_forall₂ hmembers.constructors hm
        obtain ⟨e, he, hpick⟩ := exists_of_mem_told (List.mem_of_mem_filter htold)
        obtain ⟨hpick, _⟩ := Option.filter_eq_some_iff.mp hpick
        cases e <;> cases hpick
        exact ⟨told.decl, he, his.holds⟩
      · obtain ⟨told, htold, his⟩ := exists_of_forall₂ hmembers.methods hm
        obtain ⟨e, he, hpick⟩ := exists_of_mem_told (List.mem_of_mem_filter htold)
        obtain ⟨hpick, _⟩ := Option.filter_eq_some_iff.mp hpick
        cases e <;> cases hpick
        exact ⟨told.decl, he, his.holds⟩
    obtain ⟨w, hw, hholds⟩ := hmethod
    obtain ⟨t, ht, hR⟩ := hholds.refs hr
    exact ⟨t, hes _ hw t ht, hR⟩

/-- A unit that contains spelled events is spelled. -/
theorem Contains.spelled (h : u.Contains es) (hes : ∀ e ∈ es, e.Spelled W) : u.Spelled W := by
  refine ⟨h.spelled_package hes, fun i hi => ?_, fun c hc => ?_, fun r hr => ?_⟩
  · rw [h.heads.imports] at hi
    obtain ⟨e, he, hpick⟩ := List.mem_filterMap.mp hi
    cases e <;> cases hpick
    exact hes _ he
  · rw [h.fullName c hc]
    refine Dotted.ofSegments (List.append_ne_nil_of_right_ne_nil _ (by simp)) fun w hw => ?_
    simp only [List.mem_append, List.mem_map, List.mem_reverse, List.mem_singleton] at hw
    rcases hw with (hw | ⟨o, ho, rfl⟩) | rfl
    · exact h.spelled_package hes w (Option.mem_toList.mp hw)
    · exact (h.single_name hes (mem_of_mem_scopeFrom ho)).dotted
    · exact (h.single_name hes hc).dotted
  · rcases hr with hr | ⟨a, ha, hr⟩
    · obtain ⟨c, hc, site, hsite, hr⟩ := mem_references.mp hr
      obtain ⟨t, ht, hwrites⟩ := h.spelled_typeRefs hes hc hsite
      exact dotted_of_spelled ht hwrites hr
    · obtain ⟨w, hw, hholds⟩ := exists_of_forall₂ h.heads.packageAnnotations ha
      obtain ⟨told, htold, hw⟩ := List.mem_flatMap.mp hw
      obtain ⟨e, he, hpick⟩ := exists_of_mem_told htold
      cases e <;> cases hpick
      exact dotted_of_spelled ((hes _ he).2 _ (List.mem_map_of_mem hw)) hholds.type hr

theorem ofText_of_parses {text : String} (h : (parse text).error = none) (id : UnitId)
    (path : FilePath) : ofText id path text = .ok (ofEvents id path (parse text).events) := by
  simp only [ofText, h]

/-- The unit of a text is told by the events of the text. -/
theorem eq_ofEvents_of_ofText {id : UnitId} {path : FilePath} {text : String}
    (h : ofText id path text = .ok u) : u = ofEvents id path (parse text).events := by
  unfold ofText at h
  dsimp only at h
  split at h
  · cases h
  · exact (Except.ok.inj h).symm

/-- The unit of a text contains the events of the text. -/
theorem contains_of_ofText {id : UnitId} {path : FilePath} {text : String}
    (h : ofText id path text = .ok u) : u.Contains (parse text).events := by
  obtain ⟨t, ht⟩ := run_parse text
  rw [eq_ofEvents_of_ofText h]
  exact contains_ofEvents id path ht fun p hp => package_name_ne hp

/-- The words that the names of a text can be made of. -/
def IsWordOf (text word : String) : Prop :=
  (∃ t ∈ (lex text).tokens, t.kind = .identifier ∧ t.text = word) ∨ word ∈ Name.primitives

theorem spelled_events (text : String) :
    ∀ e ∈ (parse text).events, e.Spelled (IsWordOf text) :=
  spelled_parse (fun t ht hkind => .inl ⟨t, ht, hkind, rfl⟩) fun _ hword => .inr hword

/-- Every name in the unit of a text is made of identifiers of the text and of the names of
primitive types. -/
theorem spelled_ofText {id : UnitId} {path : FilePath} {text : String}
    (h : ofText id path text = .ok u) : u.Spelled (IsWordOf text) :=
  (contains_of_ofText h).spelled (spelled_events text)

theorem IsWordOf.isWord {text word : String} (h : IsWordOf text word) : Lexer.IsWord word := by
  rcases h with ⟨t, ht, hkind, rfl⟩ | hprimitive
  · exact (Lexer.word_of_run ht (.inl hkind)).1.toIsWord
  · have hall : Name.primitives.all (fun w => w ≠ "" && w.toList.all Lexer.isWordPart) := by
      decide
    have hword := List.all_eq_true.mp hall word hprimitive
    rw [Bool.and_eq_true, List.all_eq_true] at hword
    exact ⟨of_decide_eq_true hword.1, hword.2⟩

theorem linked_ofText {id : UnitId} {path : FilePath} {text : String}
    (h : ofText id path text = .ok u) : u.Linked := by
  rw [eq_ofEvents_of_ofText h]
  exact ((Assembly.orderly_start id path).foldl _).linked

/-- The segments of a full name are those of the package, and the names of the classes around the
class from the outside in. -/
theorem segments_fullName {id : UnitId} {path : FilePath} {text : String}
    (h : ofText id path text = .ok u) {i : ClassIndex} {c : Class} (hc : u.classAt? i = some c) :
    segments c.fullName = u.package.toList.flatMap segments ++
      (u.scopeFrom (some i)).reverse.map (·.name) := by
  have hcontains := contains_of_ofText h
  have hnames : ∀ w ∈ (u.scopeFrom (some i)).reverse.map (·.name), Single (IsWordOf text) w := by
    intro w hw
    obtain ⟨o, ho, rfl⟩ := List.mem_map.mp hw
    exact hcontains.single_name (spelled_events text)
      (mem_of_mem_scopeFrom (List.mem_reverse.mp ho))
  rw [hcontains.fullName c (List.mem_of_getElem? hc),
    segments_ofSegments (List.append_ne_nil_of_right_ne_nil _ (by simp)), List.append_assoc,
    List.flatMap_append, ← flatMap_segments hnames, (linked_ofText h).scopeFrom_some hc,
    List.reverse_cons, List.map_append]
  rfl

end SourceUnit

end JavaModel
