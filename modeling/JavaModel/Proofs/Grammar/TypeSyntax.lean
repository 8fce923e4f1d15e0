import JavaModel.Proofs.Grammar.AnnotationSyntax

/-! The grammar of types. `Derives` says which lexemes write a type, with annotations, type
arguments behind any segment and pairs of brackets, and which type they write. `type_iff`: the
reader of types takes just such lexemes from the front, up to what does not go on with them. -/

namespace JavaModel.Grammar

open Reader Lexeme

/-! ### Lexemes of types -/

/-- The parts of a type. -/
inductive TypePart where
  | type (t : TypeExpr)
  /-- What makes of the name before it a longer one, with the arguments of its last segment. -/
  | behind (name full : String) (args : List (Argument TypeExpr))
  /-- Arguments between angle brackets, if there are any. -/
  | arguments (args : List (Argument TypeExpr))
  /-- Arguments with a comma between each two. -/
  | listed (args : List (Argument TypeExpr))
  | argument (a : Argument TypeExpr)

/-- Lexemes that write a part of a type. -/
inductive Derives : TypePart → List Lexeme → Prop where
  | primitive {notes pairs : List Lexeme} {p : Lexeme} {n : Nat} (hnotes : Annotations notes)
      (hp : p.kind = .primitive) (hpairs : Pairs n pairs) :
      Derives (.type ⟨p.text, [], n⟩) (notes ++ p :: pairs)
  | named {notes more pairs : List Lexeme} {first : Lexeme} {name : String}
      {args : List (Argument TypeExpr)} {n : Nat} (hnotes : Annotations notes)
      (hfirst : first.kind = .identifier) (hmore : Derives (.behind first.text name args) more)
      (hpairs : Pairs n pairs) :
      Derives (.type ⟨name, args, n⟩) (notes ++ first :: (more ++ pairs))
  | last {name : String} {args : List (Argument TypeExpr)} {ls : List Lexeme}
      (h : Derives (.arguments args) ls) : Derives (.behind name name args) ls
  | segment {name full : String} {inner args : List (Argument TypeExpr)}
      {ls notes more : List Lexeme} {d l : Lexeme} (h : Derives (.arguments inner) ls)
      (hd : d.kind = .dot) (hnotes : Annotations notes) (hl : l.kind = .identifier)
      (hmore : Derives (.behind (name ++ "." ++ l.text) full args) more) :
      Derives (.behind name full args) (ls ++ d :: (notes ++ l :: more))
  | absent : Derives (.arguments []) []
  | diamond {o c : Lexeme} (ho : o.kind = .less) (hc : c.kind = .greater) :
      Derives (.arguments []) [o, c]
  | angled {args : List (Argument TypeExpr)} {ls : List Lexeme} {o c : Lexeme} (ho : o.kind = .less)
      (h : Derives (.listed args) ls) (hc : c.kind = .greater) :
      Derives (.arguments args) (o :: (ls ++ [c]))
  | one {a : Argument TypeExpr} {ls : List Lexeme} (h : Derives (.argument a) ls) :
      Derives (.listed [a]) ls
  | next {a : Argument TypeExpr} {as : List (Argument TypeExpr)} {ls more : List Lexeme}
      {comma : Lexeme} (h : Derives (.argument a) ls) (hcomma : comma.kind = .comma)
      (hmore : Derives (.listed as) more) : Derives (.listed (a :: as)) (ls ++ comma :: more)
  | exactly {t : TypeExpr} {ls : List Lexeme} (h : Derives (.type t) ls) :
      Derives (.argument (.exactly t)) ls
  | unbounded {notes : List Lexeme} {q : Lexeme} (hnotes : Annotations notes)
      (hq : q.kind = .question) : Derives (.argument .unbounded) (notes ++ [q])
  | extending {t : TypeExpr} {notes ls : List Lexeme} {q w : Lexeme} (hnotes : Annotations notes)
      (hq : q.kind = .question) (hw : w.kind = .extendsWord) (h : Derives (.type t) ls) :
      Derives (.argument (.extending t)) (notes ++ q :: w :: ls)
  | above {t : TypeExpr} {notes ls : List Lexeme} {q w : Lexeme} (hnotes : Annotations notes)
      (hq : q.kind = .question) (hw : w.kind = .superWord) (h : Derives (.type t) ls) :
      Derives (.argument (.above t)) (notes ++ q :: w :: ls)

/-- The kind of the last lexeme. -/
def lastKind (ls : List Lexeme) : Option TokenKind := ls.getLast?.map Lexeme.kind

@[simp] theorem lastKind_nil : lastKind [] = none := rfl

@[simp] theorem lastKind_append (xs ys : List Lexeme) :
    lastKind (xs ++ ys) = (lastKind ys).or (lastKind xs) := by
  unfold lastKind
  rw [List.getLast?_append]
  cases ys.getLast? <;> rfl

@[simp] theorem lastKind_cons (l : Lexeme) (ls : List Lexeme) :
    lastKind (l :: ls) = (lastKind ls).or (some l.kind) :=
  lastKind_append [l] ls

theorem Pairs.lastKind {n : Nat} {ls : List Lexeme} (h : Pairs n ls) :
    ls = [] ∨ lastKind ls = some .rightBracket := by
  induction h with
  | nil => exact .inl rfl
  | cons hl hr _ ih =>
    right
    rcases ih with rfl | ih
    · simp [hr]
    · simp [ih]

/-- What stands behind a type and does not go on with it. -/
structure TypeStops (front rest : List Lexeme) : Prop where
  args : lastKind front = some .identifier → kindAt rest 0 ≠ some .less
  segment : lastKind front = some .identifier ∨ lastKind front = some .greater →
    startsTypeSegment rest = false
  pairs : EndsPairs rest

/-- Behind an identifier or a closing angle bracket, no further segment stands; arguments may stand
behind arguments only. -/
structure NameStops (front rest : List Lexeme) : Prop where
  args : lastKind front = some .greater ∨ kindAt rest 0 ≠ some .less
  segment : startsTypeSegment rest = false

/-- Annotations may be added in front of a type. -/
theorem Derives.annotated {t : TypeExpr} {notes ls : List Lexeme} (hnotes : Annotations notes)
    (h : Derives (.type t) ls) : Derives (.type t) (notes ++ ls) := by
  cases h with
  | primitive hmore hp hpairs =>
    rw [← List.append_assoc]
    exact .primitive (hnotes.append hmore) hp hpairs
  | named hmore hfirst hname hpairs =>
    rw [← List.append_assoc]
    exact .named (hnotes.append hmore) hfirst hname hpairs

/-! ### What the readers take -/

theorem type_eq (ls : List Lexeme) : type ls = typeBody (fun _ => type) () ls :=
  Descent.type.advances.recurse_eq () ls

theorem typeSegments_eq (name : String) (ls : List Lexeme) :
    typeSegments type name ls = typeSegmentsBody type (typeSegments type) name ls :=
  Loop.typeSegments.advances.recurse_eq name ls

theorem typeArgumentList_eq (ls : List Lexeme) : separated .comma (typeArgument type) ls =
    separatedBody .comma (typeArgument type)
      (fun _ => separated .comma (typeArgument type)) () ls :=
  Loop.typeArguments.advances.recurse_eq () ls

/-- Wherever a type is read, it is read off lexemes that write it. -/
def Reveals (ls : List Lexeme) : Prop :=
  ∀ told t rest, type ls = (told, .ok (t, rest)) →
    ∃ front, ls = front ++ rest ∧ Derives (.type t) front ∧ TypeStops front rest

section Reveals

variable {n : Nat} (htype : ∀ ls, ls.length ≤ n → Reveals ls) {ls rest : List Lexeme}
  {told : List Event}

include htype

theorem derives_typeArgument (hn : ls.length ≤ n) {a : Argument TypeExpr}
    (h : typeArgument type ls = (told, .ok (a, rest))) :
    ∃ front, ls = front ++ rest ∧ Derives (.argument a) front := by
  unfold typeArgument at h
  obtain ⟨as, middle, has, hbody⟩ := silent_annotations.bind_ok h
  obtain ⟨notes, rfl, hnotes, -⟩ := annotations_of_run has
  rw [List.length_append] at hn
  obtain ⟨b, behind, hquestion, hrun⟩ := (silent_accept _).bind_ok hbody
  obtain ⟨rfl, q, rfl, hq⟩ | ⟨rfl, rfl⟩ := accept_ok hquestion
  · rw [List.length_cons] at hn
    obtain ⟨b, bound, hextends, hlower⟩ := (silent_accept _).bind_ok hrun
    obtain ⟨rfl, w, rfl, hw⟩ | ⟨rfl, rfl⟩ := accept_ok hextends
    · rw [List.length_cons] at hn
      obtain ⟨t, left, ht, hend⟩ := silent_type.bind_ok hlower
      cases hend
      obtain ⟨front, rfl, hfront, -⟩ := htype _ (by omega) _ _ _ ht
      exact ⟨notes ++ q :: w :: front, by simp, .extending hnotes hq hw hfront⟩
    · obtain ⟨b, bound, hsuper, hlast⟩ := (silent_accept _).bind_ok hlower
      obtain ⟨rfl, w, rfl, hw⟩ | ⟨rfl, rfl⟩ := accept_ok hsuper
      · rw [List.length_cons] at hn
        obtain ⟨t, left, ht, hend⟩ := silent_type.bind_ok hlast
        cases hend
        obtain ⟨front, rfl, hfront, -⟩ := htype _ (by omega) _ _ _ ht
        exact ⟨notes ++ q :: w :: front, by simp, .above hnotes hq hw hfront⟩
      · cases hlast
        exact ⟨notes ++ [q], by simp, .unbounded hnotes hq⟩
  · obtain ⟨t, left, ht, hend⟩ := silent_type.bind_ok hrun
    cases hend
    obtain ⟨front, rfl, hfront, -⟩ := htype _ (by omega) _ _ _ ht
    exact ⟨notes ++ front, by simp, .exactly (hfront.annotated hnotes)⟩

theorem derives_typeArgumentList (hn : ls.length ≤ n) {as : List (Argument TypeExpr)}
    (h : separated .comma (typeArgument type) ls = (told, .ok (as, rest))) :
    ∃ front, ls = front ++ rest ∧ Derives (.listed as) front := by
  induction hlength : ls.length using Nat.strongRecOn generalizing ls as told with
  | ind k ih =>
    subst hlength
    rw [typeArgumentList_eq] at h
    unfold separatedBody at h
    obtain ⟨a, middle, ha, hrun⟩ := (silent_typeArgument silent_type).bind_ok h
    obtain ⟨front, rfl, hfront⟩ := derives_typeArgument htype hn ha
    obtain ⟨b, behind, haccept, hmore⟩ := (silent_accept _).bind_ok hrun
    obtain ⟨rfl, comma, rfl, hcomma⟩ | ⟨rfl, rfl⟩ := accept_ok haccept
    · obtain ⟨bs, left, hbs, hend⟩ := ((silent_typeArgument silent_type).separated _).bind_ok hmore
      cases hend
      rw [List.length_append, List.length_cons] at hn
      obtain ⟨more, rfl, hlist⟩ := ih _ (by simp; omega) (by omega) hbs rfl
      exact ⟨front ++ comma :: more, by simp, .next hfront hcomma hlist⟩
    · cases hmore
      exact ⟨front, rfl, .one hfront⟩

theorem derives_typeArguments (hn : ls.length ≤ n) {args : List (Argument TypeExpr)}
    (h : typeArguments type ls = (told, .ok (args, rest))) :
    ∃ front, ls = front ++ rest ∧ Derives (.arguments args) front ∧
      (lastKind front = some .greater ∨ kindAt rest 0 ≠ some .less) := by
  unfold typeArguments at h
  obtain ⟨b, middle, hless, hrun⟩ := (silent_accept _).bind_ok h
  obtain ⟨rfl, o, rfl, ho⟩ | ⟨rfl, rfl⟩ := accept_ok hless
  · rw [List.length_cons] at hn
    obtain ⟨b, behind, hgreater, hlist⟩ := (silent_accept _).bind_ok hrun
    obtain ⟨rfl, c, rfl, hc⟩ | ⟨rfl, rfl⟩ := accept_ok hgreater
    · cases hlist
      exact ⟨[o, c], rfl, .diamond ho hc, .inl (by simp [hc])⟩
    · obtain ⟨as, behind, has, hclose⟩ :=
        ((silent_typeArgument silent_type).separated _).bind_ok hlist
      obtain ⟨front, rfl, hfront⟩ := derives_typeArgumentList htype (by omega) has
      obtain ⟨s, left, hexpect, hend⟩ := (silent_expect _ _).bind_ok hclose
      obtain ⟨-, c, rfl, hc, -⟩ := expect_ok hexpect
      cases hend
      exact ⟨o :: (front ++ [c]), by simp, .angled ho hfront hc, .inl (by simp [hc])⟩
  · cases hrun
    refine ⟨[], rfl, .absent, .inr fun hkind => ?_⟩
    obtain ⟨l, ls, rfl, hl⟩ := kindAt_zero hkind
    rw [accept_next hl] at hless
    cases hless

theorem derives_typeSegments (hn : ls.length ≤ n) {name full : String}
    {args : List (Argument TypeExpr)}
    (h : typeSegments type name ls = (told, .ok ((full, args), rest))) :
    ∃ front, ls = front ++ rest ∧ Derives (.behind name full args) front ∧
      NameStops front rest := by
  induction hlength : ls.length using Nat.strongRecOn generalizing ls name told with
  | ind k ih =>
    subst hlength
    rw [typeSegments_eq] at h
    unfold typeSegmentsBody at h
    obtain ⟨inner, middle, hinner, hrun⟩ := (silent_typeArguments silent_type).bind_ok h
    obtain ⟨front, rfl, hfront, hless⟩ := derives_typeArguments htype hn hinner
    rw [bind_quiet rfl] at hrun
    split at hrun
    · rename_i hstarts
      simp only [startsTypeSegment, Bool.and_eq_true, decide_eq_true_eq] at hstarts
      obtain ⟨d, middle, rfl, hd⟩ := kindAt_zero hstarts.1
      rw [bind_quiet rfl, List.drop_succ_cons, List.drop_zero] at hrun
      obtain ⟨as, behind, has, hsegment⟩ := silent_annotations.bind_ok hrun
      obtain ⟨notes, rfl, hnotes, -⟩ := annotations_of_run has
      obtain ⟨s, left, hidentifier, hself⟩ := (silent_identifier _).bind_ok hsegment
      obtain ⟨-, l, rfl, hl, rfl⟩ := expect_ok hidentifier
      simp only [List.length_append, List.length_cons] at hn
      obtain ⟨more, rfl, hmore, hstops⟩ := ih _ (by simp; omega) (by omega) hself rfl
      refine ⟨front ++ d :: (notes ++ l :: more), by simp,
        .segment hfront hd hnotes hl hmore, hstops.args.imp_left fun hlast => ?_, hstops.segment⟩
      simp [hlast]
    · rename_i hstops
      cases hrun
      exact ⟨front, rfl, .last hfront, hless, by simpa using hstops⟩

end Reveals

/-- A type is read off lexemes that write it. -/
theorem reveals (ls : List Lexeme) : Reveals ls := by
  induction hlength : ls.length using Nat.strongRecOn generalizing ls with
  | ind k ih =>
    subst hlength
    intro told t rest h
    rw [type_eq] at h
    unfold typeBody at h
    obtain ⟨as, middle, has, hrun⟩ := silent_annotations.bind_ok h
    obtain ⟨notes, rfl, hnotes, -⟩ := annotations_of_run has
    rw [bind_quiet rfl] at hrun
    split at hrun
    · obtain ⟨name, behind, hname, hend⟩ := (silent_expect _ _).bind_ok hrun
      obtain ⟨-, p, rfl, hp, rfl⟩ := expect_ok hname
      obtain ⟨pairs, hbehind, hpairs, hends⟩ := pairs_countDims behind
      cases hend
      refine ⟨notes ++ p :: pairs, by simp [← hbehind], .primitive hnotes hp hpairs, ?_, ?_, hends⟩
      all_goals
        rcases hpairs.lastKind with rfl | hlast
        · simp [hp]
        · simp [hlast]
    · obtain ⟨s, behind, hidentifier, hname⟩ := (silent_identifier _).bind_ok hrun
      obtain ⟨-, first, rfl, hfirst, rfl⟩ := expect_ok hidentifier
      obtain ⟨⟨name, args⟩, middle, hsegments, hend⟩ :=
        (silent_typeSegments silent_type _).bind_ok hname
      have hshorter : ∀ ms, ms.length ≤ behind.length → Reveals ms := fun ms hms =>
        ih ms.length (by simp; omega) ms rfl
      obtain ⟨more, rfl, hmore, hstops⟩ := derives_typeSegments hshorter (Nat.le_refl _) hsegments
      obtain ⟨pairs, hmiddle, hpairs, hends⟩ := pairs_countDims middle
      cases hend
      refine ⟨notes ++ first :: (more ++ pairs), by simp [← hmiddle],
        .named hnotes hfirst hmore hpairs, ?_, ?_, hends⟩
      all_goals
        rcases hpairs.lastKind with rfl | hlast
        · have hargs := hstops.args
          have hsegment := hstops.segment
          rw [List.nil_append] at hmiddle
          rw [hmiddle] at hargs hsegment
          rcases hargs with hargs | hargs <;> simp [hargs, hsegment]
        · simp [hlast]

/-! ### What is read of lexemes -/

/-- How the lexemes of a part begin or end. -/
def TypePart.Shaped : TypePart → List Lexeme → Prop
  | .type _, ls | .listed _, ls | .argument _, ls =>
    ∃ l more, ls = l :: more ∧ l.kind ∈ [.atSign, .primitive, .identifier, .question]
  | .behind _ _ _, ls => ls = [] ∨ lastKind ls = some .identifier ∨ lastKind ls = some .greater
  | .arguments _, ls => ls = [] ∨ lastKind ls = some .greater

theorem Annotations.shaped {notes : List Lexeme} (h : Annotations notes) {l : Lexeme}
    (hl : l.kind ∈ [.atSign, .primitive, .identifier, .question]) (ls : List Lexeme) :
    ∃ first more, notes ++ l :: ls = first :: more ∧
      first.kind ∈ [.atSign, .primitive, .identifier, .question] := by
  cases h with
  | nil => exact ⟨l, ls, rfl, hl⟩
  | cons h _ =>
    obtain ⟨sign, first, more, rfl, hsign, -⟩ := h.begins
    exact ⟨sign, _, rfl, by simp [hsign]⟩

theorem Derives.shaped {part : TypePart} {ls : List Lexeme} (h : Derives part ls) :
    part.Shaped ls := by
  induction h with
  | primitive hnotes hp _ => exact hnotes.shaped (by simp [hp]) _
  | named hnotes hfirst _ _ _ => exact hnotes.shaped (by simp [hfirst]) _
  | last _ ih => exact ih.imp_right .inr
  | @segment _ _ _ _ ls notes more d l _ _ _ hl _ _ ih =>
    rcases ih with rfl | ih
    · exact .inr (.inl (by simp [hl]))
    · exact .inr (ih.imp (fun h => by simp [h]) fun h => by simp [h])
  | absent => exact .inl rfl
  | diamond _ hc => exact .inr (by simp [hc])
  | angled _ _ hc => exact .inr (by simp [hc])
  | one _ ih => exact ih
  | next _ _ _ ih =>
    obtain ⟨l, more, rfl, hl⟩ := ih
    exact ⟨l, _, rfl, hl⟩
  | exactly _ ih => exact ih
  | unbounded hnotes hq => exact hnotes.shaped (by simp [hq]) _
  | extending hnotes hq | above hnotes hq => exact hnotes.shaped (by simp [hq]) _

/-- Behind a type argument stands a comma or the end of all of them. -/
def ArgumentStops (rest : List Lexeme) : Prop :=
  kindAt rest 0 = some .comma ∨ kindAt rest 0 = some .greater

theorem ArgumentStops.type {rest : List Lexeme} (h : ArgumentStops rest) (front : List Lexeme) :
    TypeStops front rest := by
  rcases h with h | h <;>
    exact ⟨fun _ => by simp [h], fun _ => by simp [startsTypeSegment, h], fun hopen => by
      simp [h] at hopen⟩

/-- In front of what does not go on with it, a part is read off lexemes that write it. -/
def TypePart.Readable : TypePart → List Lexeme → Prop
  | .type t, ls => ∀ rest, TypeStops ls rest → Grammar.type (ls ++ rest) = ([], .ok (t, rest))
  | .behind name full args, ls => ∀ rest, NameStops ls rest →
      typeSegments Grammar.type name (ls ++ rest) = ([], .ok ((full, args), rest))
  | .arguments args, ls => ∀ rest, lastKind ls = some .greater ∨ kindAt rest 0 ≠ some .less →
      typeArguments Grammar.type (ls ++ rest) = ([], .ok (args, rest))
  | .listed args, ls => ∀ rest, kindAt rest 0 = some .greater →
      separated .comma (typeArgument Grammar.type) (ls ++ rest) = ([], .ok (args, rest))
  | .argument a, ls => ∀ rest, ArgumentStops rest →
      typeArgument Grammar.type (ls ++ rest) = ([], .ok (a, rest))

/-- Annotations end before a name, a primitive type or a question mark. -/
theorem Annotations.reads_before {notes : List Lexeme} (h : Annotations notes) {l : Lexeme}
    (hl : l.kind = .identifier ∨ l.kind = .primitive ∨ l.kind = .question) (ls : List Lexeme) :
    ∃ as, annotations (notes ++ l :: ls) = ([], .ok (as, l :: ls)) := by
  refine h.reads (endsAnnotation_cons ?_ ?_ ls) ?_
  all_goals rcases hl with hl | hl | hl <;> simp [startsAnnotationUse, hl]

/-- Where a type is read, the type argument is that type. -/
theorem typeArgument_of_type {ls rest : List Lexeme} {t : TypeExpr}
    (h : type ls = ([], .ok (t, rest))) :
    typeArgument type ls = ([], .ok (.exactly t, rest)) := by
  rw [type_eq] at h
  unfold typeBody at h
  obtain ⟨as, middle, has, hrun⟩ := silent_annotations.bind_ok h
  obtain ⟨notes, rfl, -, hstops⟩ := annotations_of_run has
  have hquestion : kindAt middle 0 ≠ some .question := by
    rw [bind_quiet rfl] at hrun
    split at hrun
    · obtain ⟨name, behind, hname, -⟩ := (silent_expect _ _).bind_ok hrun
      obtain ⟨-, p, rfl, hp, -⟩ := expect_ok hname
      simp [hp]
    · obtain ⟨name, behind, hname, -⟩ := (silent_identifier _).bind_ok hrun
      obtain ⟨-, l, rfl, hl, -⟩ := expect_ok hname
      simp [hl]
  have hnone : annotations middle = ([], .ok ([], middle)) := by
    rw [annotations_eq]
    unfold manyBody
    rw [bind_quiet rfl, if_neg (by simp [hstops])]
    rfl
  have htype : type middle = ([], .ok (t, rest)) := by
    rw [type_eq]
    unfold typeBody
    rwa [bind_quiet hnone]
  unfold typeArgument
  rw [bind_quiet has, bind_quiet (accept_other hquestion), if_neg Bool.false_ne_true,
    bind_quiet htype]
  rfl

/-- A wildcard with a bound. -/
theorem typeArgument_bounded {notes ls rest : List Lexeme} {q w : Lexeme} {t : TypeExpr}
    (hnotes : Annotations notes) (hq : q.kind = .question)
    (htype : type (ls ++ rest) = ([], .ok (t, rest))) :
    (w.kind = .extendsWord → typeArgument type (notes ++ q :: w :: ls ++ rest) =
        ([], .ok (.extending t, rest))) ∧
      (w.kind = .superWord → typeArgument type (notes ++ q :: w :: ls ++ rest) =
        ([], .ok (.above t, rest))) := by
  rw [List.append_assoc, List.cons_append, List.cons_append]
  obtain ⟨as, has⟩ := hnotes.reads_before (.inr (.inr hq)) (w :: (ls ++ rest))
  unfold typeArgument
  rw [bind_quiet has, bind_quiet (accept_next hq), if_pos rfl]
  refine ⟨fun hw => ?_, fun hw => ?_⟩
  · rw [bind_quiet (accept_next hw), if_pos rfl, bind_quiet htype]
    rfl
  · rw [bind_quiet (accept_other (by simp [hw])), if_neg Bool.false_ne_true,
      bind_quiet (accept_next hw), if_pos rfl, bind_quiet htype]
    rfl

/-- What stops a type stops the name in it. -/
theorem TypeStops.name {notes more pairs rest : List Lexeme} {first : Lexeme} {n : Nat}
    {name full : String} {args : List (Argument TypeExpr)} (hfirst : first.kind = .identifier)
    (hmore : Derives (.behind name full args) more) (hpairs : Pairs n pairs)
    (h : TypeStops (notes ++ first :: (more ++ pairs)) rest) : NameStops more (pairs ++ rest) := by
  cases hpairs with
  | cons hl _ _ => exact ⟨.inr (by simp [hl]), by simp [startsTypeSegment, hl]⟩
  | nil =>
    have hlast : lastKind (notes ++ first :: (more ++ [])) =
        (lastKind more).or (some .identifier) := by
      simp [hfirst]
    have hargs := h.args
    have hsegment := h.segment
    rw [hlast] at hargs hsegment
    rcases hmore.shaped with rfl | hshape | hshape
    · exact ⟨.inr (hargs rfl), hsegment (.inl rfl)⟩
    · exact ⟨.inr (hargs (by simp [hshape])), hsegment (by simp [hshape])⟩
    · exact ⟨.inl hshape, hsegment (by simp [hshape])⟩

theorem Derives.readable {part : TypePart} {ls : List Lexeme} (h : Derives part ls) :
    part.Readable ls := by
  induction h with
  | @primitive notes pairs p n hnotes hp hpairs =>
    intro rest hstops
    obtain ⟨as, has⟩ := hnotes.reads_before (.inr (.inl hp)) (pairs ++ rest)
    rw [List.append_assoc, List.cons_append, type_eq]
    unfold typeBody
    rw [bind_quiet has, bind_quiet rfl, if_pos (by simp [hp]), bind_quiet (expect_next hp _),
      bind_quiet (hpairs.reads hstops.pairs)]
    rfl
  | @named notes more pairs first name args n hnotes hfirst hmore hpairs ih =>
    intro rest hstops
    obtain ⟨as, has⟩ := hnotes.reads_before (.inl hfirst) (more ++ (pairs ++ rest))
    rw [List.append_assoc, List.cons_append, List.append_assoc, type_eq]
    unfold typeBody
    rw [bind_quiet has, bind_quiet rfl, if_neg (by simp [hfirst]),
      bind_quiet (identifier_next hfirst _), bind_quiet (ih _ (hstops.name hfirst hmore hpairs))]
    dsimp only
    rw [bind_quiet (hpairs.reads hstops.pairs)]
    rfl
  | last h ih =>
    intro rest hstops
    rw [typeSegments_eq]
    unfold typeSegmentsBody
    rw [bind_quiet (ih rest hstops.args), bind_quiet rfl, if_neg (by simp [hstops.segment])]
    rfl
  | @segment name full inner args ls notes more d l h hd hnotes hl hmore ih ih' =>
    intro rest hstops
    obtain ⟨as, has⟩ := hnotes.reads_before (.inl hl) (more ++ rest)
    have hstarts : startsTypeSegment (d :: (notes ++ l :: (more ++ rest))) := by
      have hnext : kindAt (notes ++ l :: (more ++ rest)) 0 = some .identifier ∨
          kindAt (notes ++ l :: (more ++ rest)) 0 = some .atSign := by
        cases hnotes with
        | nil => exact .inl (congrArg some hl)
        | cons h _ =>
          obtain ⟨sign, first, tail, rfl, hsign, -⟩ := h.begins
          exact .inr (congrArg some hsign)
      simp only [startsTypeSegment, Bool.and_eq_true, Bool.or_eq_true, decide_eq_true_eq]
      exact ⟨congrArg some hd, hnext⟩
    have hmoreStops : NameStops more rest := by
      refine ⟨hstops.args.imp_left fun hlast => ?_, hstops.segment⟩
      cases hkind : lastKind more with
      | none => simp [hkind, hl] at hlast
      | some k => simpa [hkind] using hlast
    rw [List.append_assoc, List.cons_append, List.append_assoc, List.cons_append, typeSegments_eq]
    unfold typeSegmentsBody
    rw [bind_quiet (ih _ (.inr (by simp [hd]))), bind_quiet rfl, if_pos hstarts, bind_quiet rfl,
      List.drop_succ_cons, List.drop_zero, bind_quiet has, bind_quiet (identifier_next hl _)]
    exact ih' rest hmoreStops
  | absent =>
    intro rest hstops
    unfold typeArguments
    rw [List.nil_append, bind_quiet (accept_other (by simpa using hstops))]
    rfl
  | diamond ho hc =>
    intro rest _
    unfold typeArguments
    rw [List.cons_append, bind_quiet (accept_next ho), if_pos rfl, List.cons_append,
      bind_quiet (accept_next hc)]
    rfl
  | @angled args ls o c ho h hc ih =>
    intro rest _
    obtain ⟨l, more, rfl, hl⟩ := h.shaped
    have hgreater : kindAt (l :: (more ++ c :: rest)) 0 ≠ some .greater := by
      intro hkind
      rw [kindAt_cons_zero, Option.some.injEq] at hkind
      simp [hkind] at hl
    have hlist := ih (c :: rest) (congrArg some hc)
    rw [List.cons_append] at hlist
    unfold typeArguments
    rw [List.cons_append, bind_quiet (accept_next ho), if_pos rfl, List.append_assoc,
      List.singleton_append, List.cons_append, bind_quiet (accept_other hgreater),
      if_neg Bool.false_ne_true, bind_quiet hlist, bind_quiet (expect_next hc _)]
    rfl
  | one h ih =>
    intro rest hgreater
    rw [typeArgumentList_eq]
    unfold separatedBody
    rw [bind_quiet (ih rest (.inr hgreater)),
      bind_quiet (accept_other (by rw [hgreater]; decide))]
    rfl
  | @next a as ls more comma h hcomma hmore ih ih' =>
    intro rest hgreater
    rw [List.append_assoc, List.cons_append, typeArgumentList_eq]
    unfold separatedBody
    rw [bind_quiet (ih (comma :: (more ++ rest)) (.inl (congrArg some hcomma))),
      bind_quiet (accept_next hcomma), if_pos rfl, bind_quiet (ih' rest hgreater)]
    rfl
  | exactly h ih => exact fun rest hstops => typeArgument_of_type (ih rest (hstops.type _))
  | @unbounded notes q hnotes hq =>
    intro rest hstops
    obtain ⟨as, has⟩ := hnotes.reads_before (.inr (.inr hq)) rest
    have hne : kindAt rest 0 ≠ some .extendsWord ∧ kindAt rest 0 ≠ some .superWord := by
      rcases hstops with h | h <;> simp [h]
    unfold typeArgument
    rw [List.append_assoc, List.singleton_append, bind_quiet has, bind_quiet (accept_next hq),
      if_pos rfl, bind_quiet (accept_other hne.1), if_neg Bool.false_ne_true,
      bind_quiet (accept_other hne.2)]
    rfl
  | extending hnotes hq hw h ih =>
    exact fun rest hstops => (typeArgument_bounded hnotes hq (ih rest (hstops.type _))).1 hw
  | above hnotes hq hw h ih =>
    exact fun rest hstops => (typeArgument_bounded hnotes hq (ih rest (hstops.type _))).2 hw

/-- The reader of types tells nothing and takes lexemes that write the type, up to what does not go
on with it. -/
theorem type_iff {ls rest : List Lexeme} {told : List Event} {t : TypeExpr} :
    type ls = (told, .ok (t, rest)) ↔
      told = [] ∧ ∃ front, ls = front ++ rest ∧ Derives (.type t) front ∧ TypeStops front rest := by
  refine ⟨fun h => ⟨silent_type.told_eq h, reveals ls told t rest h⟩, ?_⟩
  rintro ⟨rfl, front, rfl, hfront, hstops⟩
  exact hfront.readable rest hstops

end JavaModel.Grammar
