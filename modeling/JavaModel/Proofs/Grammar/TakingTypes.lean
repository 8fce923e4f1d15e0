import JavaModel.Proofs.Grammar.Taking

/-! What names, annotations, modifiers, types and parameters take of a text: no class is told, and no
word that begins a declaration is taken outside all braces and parentheses. -/

namespace JavaModel

namespace Grammar

open Reader Lexeme

variable {α : Type} {ls : List Lexeme}

/-! ### Names, annotations and modifiers -/

theorem takes_qualifiedName : Takes ls qualifiedName Quiet := by
  refine (takes_identifier _).andThen Outside.after_quiet fun first rest => takes_look ?_
  rintro told name left - hrun -
  obtain ⟨front, hrest, hfront⟩ := takeSegments_append first rest
  cases hrun
  exact ⟨front, hrest, quiet_plain hfront⟩

theorem takes_annotationUse (h : startsAnnotationUse ls) : Takes ls annotationUse Quiet := by
  simp only [startsAnnotationUse, Bool.and_eq_true, decide_eq_true_eq] at h
  obtain ⟨l, ls, rfl, hl⟩ := kindAt_zero h.1
  refine (takes_skip_one (hl ▸ rfl)).andThen Outside.after_quiet fun _ rest => ?_
  refine takes_qualifiedName.andThen Outside.after_quiet fun name rest => ?_
  refine takes_ifAtKind (fun hparen => ?_) (takes_pure _)
  exact (takes_enclosed (b := .paren) hparen).andThen Outside.after_quiet fun _ _ => takes_pure _

theorem takes_annotations : Takes ls annotations Quiet :=
  takes_many quiet_nil Outside.after_quiet fun _ => takes_annotationUse

theorem takes_decorations : Takes ls decorations Quiet := by
  refine Takes.recurse (fun self hself _ ls => takes_look (.ite (fun hstarts => ?_) fun _ => ?_))
    () ls
  · refine (takes_annotationUse hstarts).andThen Outside.after_quiet fun a rest => ?_
    exact (hself () rest).andThen Outside.after_quiet fun _ _ => takes_pure _
  · split
    · rename_i m n hmodifier
      obtain ⟨_, front, rest, rfl, hlength, hplain⟩ := modifierAt?_spec hmodifier
      refine (takes_skip hlength hplain).andThen Outside.after_quiet fun _ rest => ?_
      exact (hself () rest).andThen Outside.after_quiet fun _ _ => takes_pure _
    · exact takes_pure _

/-! ### Types -/

theorem takes_dims : Takes ls dims Quiet := by
  rintro told n rest - hrun -
  obtain ⟨front, hls, hfront⟩ := countDims_append ls
  cases hrun
  exact ⟨front, hls, quiet_plain hfront⟩

theorem takes_typeArgument {type : Reader TypeExpr} (h : ∀ ls, Takes ls type Quiet) :
    Takes ls (typeArgument type) Quiet := by
  refine takes_annotations.andThen Outside.after_quiet fun _ rest => ?_
  refine (takes_accept rfl).andThen Outside.after_quiet fun _ rest => .ite (fun _ => ?_) fun _ => ?_
  · refine (takes_accept rfl).andThen Outside.after_quiet fun _ rest =>
      .ite (fun _ => ?_) fun _ => ?_
    · exact (h rest).andThen Outside.after_quiet fun _ _ => takes_pure _
    · refine (takes_accept rfl).andThen Outside.after_quiet fun _ rest =>
        .ite (fun _ => ?_) fun _ => takes_pure _
      exact (h rest).andThen Outside.after_quiet fun _ _ => takes_pure _
  · exact (h rest).andThen Outside.after_quiet fun _ _ => takes_pure _

theorem takes_typeArguments {type : Reader TypeExpr} (h : ∀ ls, Takes ls type Quiet) :
    Takes ls (typeArguments type) Quiet := by
  refine (takes_accept rfl).andThen Outside.after_quiet fun _ rest =>
    .ite (fun _ => ?_) fun _ => takes_pure _
  refine (takes_accept rfl).andThen Outside.after_quiet fun _ rest =>
    .ite (fun _ => takes_pure _) fun _ => ?_
  refine (takes_separated rfl fun _ => takes_typeArgument h).andThen Outside.after_quiet
    fun _ rest => ?_
  exact (takes_expect rfl _).andThen Outside.after_quiet fun _ _ => takes_pure _

theorem takes_typeSegments {type : Reader TypeExpr} (h : ∀ ls, Takes ls type Quiet)
    (name : String) : Takes ls (typeSegments type name) Quiet := by
  refine Takes.recurse (fun self hself name ls => ?_) name ls
  refine (takes_typeArguments h).andThen Outside.after_quiet fun args rest => takes_look
    (.ite (fun hstarts => ?_) fun _ => takes_pure _)
  simp only [startsTypeSegment, Bool.and_eq_true, decide_eq_true_eq] at hstarts
  obtain ⟨l, rest, rfl, hl⟩ := kindAt_zero hstarts.1
  refine (takes_skip_one (hl ▸ rfl)).andThen Outside.after_quiet fun _ rest => ?_
  refine takes_annotations.andThen Outside.after_quiet fun _ rest => ?_
  exact (takes_identifier _).andThen Outside.after_quiet fun segment rest => hself _ rest

theorem takes_type : Takes ls type Quiet := by
  refine Takes.recurse (fun self hself _ ls => ?_) () ls
  refine takes_annotations.andThen Outside.after_quiet fun _ rest => ?_
  refine takes_ifAtKind (fun _ => ?_) ?_
  · refine (takes_expect rfl _).andThen Outside.after_quiet fun name rest => ?_
    exact takes_dims.andThen Outside.after_quiet fun _ _ => takes_pure _
  · refine (takes_identifier _).andThen Outside.after_quiet fun first rest => ?_
    refine (takes_typeSegments (hself ()) first).andThen Outside.after_quiet fun named rest => ?_
    exact takes_dims.andThen Outside.after_quiet fun _ _ => takes_pure _

theorem takes_typeList : Takes ls typeList Quiet := takes_separated rfl fun _ => takes_type

theorem takes_typesAfter {word : TokenKind} (h : isPlain word) :
    Takes ls (typesAfter word) Quiet :=
  (takes_accept h).andThen Outside.after_quiet fun _ _ =>
    .ite (fun _ => takes_typeList) fun _ => takes_pure _

/-! ### Parameters -/

theorem takes_typeParameter : Takes ls typeParameter Quiet := by
  refine takes_annotations.andThen Outside.after_quiet fun _ rest => ?_
  refine (takes_identifier _).andThen Outside.after_quiet fun name rest => ?_
  refine (takes_accept rfl).andThen Outside.after_quiet fun _ rest =>
    .ite (fun _ => ?_) fun _ => takes_pure _
  exact (takes_separated rfl fun _ => takes_type).andThen Outside.after_quiet fun _ _ =>
    takes_pure _

theorem takes_typeParameters : Takes ls typeParameters Quiet := by
  refine (takes_accept rfl).andThen Outside.after_quiet fun _ rest =>
    .ite (fun _ => ?_) fun _ => takes_pure _
  refine (takes_separated rfl fun _ => takes_typeParameter).andThen Outside.after_quiet
    fun _ rest => ?_
  exact (takes_expect rfl _).andThen Outside.after_quiet fun _ _ => takes_pure _

theorem takes_parameter : Takes ls parameter Quiet := by
  refine takes_decorations.andThen Outside.after_quiet fun d rest => ?_
  refine takes_type.andThen Outside.after_quiet fun t rest => ?_
  refine takes_annotations.andThen Outside.after_quiet fun _ rest => ?_
  refine (takes_accept rfl).andThen Outside.after_quiet fun isVarargs rest => takes_look ?_
  split
  · rename_i n hreceiver
    obtain ⟨_, front, rest, rfl, hlength, hplain⟩ := receiverLength?_spec hreceiver
    exact (takes_skip hlength hplain).andThen Outside.after_quiet fun _ _ => takes_pure _
  · refine (takes_identifier _).andThen Outside.after_quiet fun name rest => ?_
    exact takes_dims.andThen Outside.after_quiet fun _ _ => takes_pure _

theorem takes_parameters : Takes ls parameters Quiet := by
  refine takes_block (b := .paren) (C := Quiet) ?_ fun rest => ?_
  · intro o inner close told ho hclose h
    have hquiet := quiet_enclosed ho h.nested hclose
    exact ⟨⟨hquiet.nested, h.ended⟩, h.classes, hquiet.words⟩
  · refine takes_ifAccept (C := fun told taken => told = [] ∧ taken = []) ?_ (fun rest => ?_) ?_
    · rintro l _ _ hl ⟨rfl, rfl⟩
      exact ⟨[], l, rfl, hl, quiet_nil⟩
    · rintro told b rest' - ⟨⟩ -
      exact ⟨[], rfl, rfl, rfl⟩
    · refine (takes_separated rfl fun _ => takes_parameter).andThen (Upto.after Outside.after_quiet)
        fun params rest => ?_
      exact (takes_upto _ quiet_nil).last fun _ => params.filterMap id

end Grammar

end JavaModel
