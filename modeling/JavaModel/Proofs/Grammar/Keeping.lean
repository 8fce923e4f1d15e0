import JavaModel.Proofs.Grammar.PackageNames
import JavaModel.Proofs.Grammar.Progress

/-! What the parts of a source unit keep, the whole keeps. `Keeps L R p Q` says of a reader `p`
that, where it succeeds at an end of the lexemes `L`, the events it tells lie in `R` between what it
was given and what it leaves, that it leaves an end of `L`, and that its result is in `Q`. A relation
that goes over to one telling behind another needs to be shown of the readers that tell events, and
holds of what a whole text tells. -/

namespace JavaModel

namespace Reader

/-- What may be told from some lexemes on, up to others. -/
abbrev Passage : Type := List Lexeme → List Event → List Lexeme → Prop

/-- A passage in which nothing need be told, and to which another one can be joined. -/
class Joins (R : Passage) : Prop where
  quiet : ∀ {ls rest}, rest <:+ ls → R ls [] rest
  append : ∀ {ls told middle more rest}, R ls told middle → R middle more rest →
    R ls (told ++ more) rest

variable {α β : Type} {L : List Lexeme} {R : Passage} {Q : α → Prop} {S : β → Prop}

/-- What a reader does that succeeds. -/
def Keeps (L : List Lexeme) (R : Passage) (p : Reader α) (Q : α → Prop) : Prop :=
  ∀ ls told a rest, ls <:+ L → p ls = (told, .ok (a, rest)) → R ls told rest ∧ rest <:+ L ∧ Q a

/-- A lexeme is accepted if it stands next, and nothing else is taken. -/
theorem accept_ok {k : TokenKind} {ls rest : List Lexeme} {told : List Event} {b : Bool}
    (h : accept k ls = (told, .ok (b, rest))) :
    b = true ∧ (∃ l, ls = l :: rest ∧ l.kind = k) ∨ b = false ∧ rest = ls := by
  unfold accept at h
  split at h
  · split at h
    · rename_i l rest hl
      cases h
      exact .inl ⟨rfl, l, rfl, hl⟩
    · cases h
      exact .inr ⟨rfl, rfl⟩
  · cases h
    exact .inr ⟨rfl, rfl⟩

theorem Keeps.ite {c : Prop} [Decidable c] {p q : Reader α} (hp : Keeps L R p Q)
    (hq : Keeps L R q Q) : Keeps L R (if c then p else q) Q := by
  split
  · exact hp
  · exact hq

theorem keeps_fail (x : Expectation) : Keeps L R (fail x : Reader α) Q :=
  fun _ _ _ _ _ hrun => by cases hrun

theorem keeps_tell {e : Event} (h : ∀ ls, R ls [e] ls) : Keeps L R (tell e) fun _ => True := by
  rintro ls told a rest hls ⟨⟩
  exact ⟨h ls, hls, trivial⟩

/-- A repetition keeps what its body keeps, from values that satisfy `I`. -/
theorem Keeps.recurse {I : α → Prop} {body : (α → Reader β) → α → Reader β}
    (hbody : ∀ self, (∀ a, I a → Keeps L R (self a) S) → ∀ a, I a → Keeps L R (body self a) S)
    {a : α} (ha : I a) : Keeps L R (recurse body a) S := fun ls =>
  unroll_induction (P := fun a p => I a → Keeps L R p S) (fun _ _ => keeps_fail _) hbody
    (ls.length + 1) a ha ls

section Joined

variable [Joins R]

theorem Keeps.bind {p : Reader α} {f : α → Reader β} (hp : Keeps L R p Q)
    (hf : ∀ a, Q a → Keeps L R (f a) S) : Keeps L R (p >>= f) S := by
  intro ls told b rest hls h
  obtain ⟨first, a, middle, more, hfirst, hmore, rfl⟩ := bind_ok h
  obtain ⟨htold, hmiddle, ha⟩ := hp ls first a middle hls hfirst
  obtain ⟨htold', hrest⟩ := hf a ha middle more b rest hmiddle hmore
  exact ⟨Joins.append htold htold', hrest⟩

/-- A silent reader that leaves an end of what it was given. -/
theorem Silent.keeps {p : Reader α} (hsilent : Silent p) (hp : ∀ ls, Proceeds 0 ls p) :
    Keeps L R p fun _ => True := by
  intro ls told a rest hls hrun
  rw [hsilent.told_eq hrun]
  obtain ⟨hsuffix, -⟩ := (hp ls).taken _ _ _ hrun
  exact ⟨Joins.quiet hsuffix, hsuffix.trans hls, trivial⟩

theorem keeps_pure {a : α} (h : Q a) : Keeps L R (pure a) Q := by
  rintro ls told b rest hls ⟨⟩
  exact ⟨Joins.quiet (List.suffix_refl _), hls, h⟩

/-- A reader that only looks. -/
theorem keeps_look {p : Reader α} (h : ∀ ls, ∃ a, p ls = ([], .ok (a, ls))) :
    Keeps L R p fun _ => True := by
  intro ls told a rest hls hrun
  obtain ⟨b, hlook⟩ := h ls
  rw [hlook] at hrun
  cases hrun
  exact ⟨Joins.quiet (List.suffix_refl _), hls, trivial⟩

theorem keeps_docHere : Keeps L R docHere fun _ => True := keeps_look fun _ => ⟨_, rfl⟩

theorem keeps_lineHere : Keeps L R lineHere fun _ => True := keeps_look fun _ => ⟨_, rfl⟩

theorem keeps_lookAhead : Keeps L R lookAhead (· <:+ L) := by
  rintro ls told b rest hls ⟨⟩
  exact ⟨Joins.quiet (List.suffix_refl _), hls, hls⟩

theorem keeps_skip (n : Nat) : Keeps L R (skip n) fun _ => True := by
  rintro ls told b rest hls ⟨⟩
  exact ⟨Joins.quiet (List.drop_suffix n ls), (List.drop_suffix n ls).trans hls, trivial⟩

theorem keeps_accept (k : TokenKind) : Keeps L R (accept k) fun _ => True :=
  (silent_accept k).keeps fun _ => proceeds_accept k

theorem keeps_expect (k : TokenKind) {x : Expectation} (hx : x ≠ .endOfRepetition) :
    Keeps L R (expect k x) fun _ => True :=
  (silent_expect k x).keeps fun _ => (proceeds_expect hx).mono (Nat.zero_le 1)

theorem Keeps.many {item : Reader α} (h : Keeps L R item Q) (starts : List Lexeme → Bool) :
    Keeps L R (many starts item) fun as => ∀ a ∈ as, Q a := by
  refine Keeps.recurse (I := fun _ => True) (fun self hself _ _ => ?_) trivial
  refine keeps_lookAhead.bind fun ls _ => .ite ?_ (keeps_pure (by simp))
  exact h.bind fun a ha => (hself () trivial).bind fun as has =>
    keeps_pure (List.forall_mem_cons.mpr ⟨ha, has⟩)

theorem Keeps.separated {item : Reader α} (h : Keeps L R item Q) (separator : TokenKind) :
    Keeps L R (separated separator item) fun as => ∀ a ∈ as, Q a := by
  refine Keeps.recurse (I := fun _ => True) (fun self hself _ _ => h.bind fun a ha => ?_) trivial
  refine (keeps_accept _).bind fun b _ => .ite ?_ (keeps_pure (by simpa using ha))
  exact (hself () trivial).bind fun as has => keeps_pure (List.forall_mem_cons.mpr ⟨ha, has⟩)

end Joined

end Reader

namespace Grammar

open Reader Lexeme

variable {L : List Lexeme} {R : Passage} {O : Opening → Prop}

/-- The parts of a source unit that tell events, and what they keep. What stands before a member or
a nested class is in `O`. -/
structure KeptParts (L : List Lexeme) (R : Passage) (O : Opening → Prop) : Prop where
  opening : Keeps L R opening O
  package : Keeps L R packageDeclaration fun _ => True
  imports : Keeps L R importDeclaration fun _ => True
  constant : ∀ enum, Keeps L R (constantThen enum (pure ())) fun _ => True
  member : ∀ owner className o, O o → Keeps L R (memberRest owner className o) fun _ => True
  head : ∀ kind o, O o → Keeps L R (classOpening kind o) fun _ => True
  beginSource : ∀ ls, R ls [.beginSource] ls
  endSource : ∀ ls, R ls [.endSource] ls
  endClass : ∀ ls, R ls [.endClass] ls

namespace KeptParts

variable [Joins R]

theorem enclosed (b : Bracket) : Keeps L R (enclosed b) fun _ => True :=
  (silent_enclosed b).keeps fun _ => (proceeds_enclosed b).mono (Nat.zero_le 1)

theorem constants (h : KeptParts L R O) (enum : String) :
    Keeps L R (constants enum) fun _ => True := by
  refine Keeps.recurse (I := fun _ => True) (fun self hself _ _ => ?_) trivial
  have hend : Keeps L R (constantEnd self) fun _ => True := by
    refine (keeps_accept _).bind fun _ _ => .ite (hself () trivial) ?_
    refine keeps_lookAhead.bind fun ls _ => ?_
    split
    · exact keeps_skip 1
    · exact keeps_pure trivial
    · exact keeps_fail _
  rw [constantsBody_eq]
  refine keeps_lookAhead.bind fun ls _ => ?_
  split
  · exact keeps_skip 1
  · exact keeps_pure trivial
  · exact keeps_pure trivial
  · rw [constantThen_eq]
    exact (h.constant enum).bind fun _ _ => hend

/-- A reader of type declarations, at any of whose openings it keeps what the parts keep. -/
def KeepsTypes (L : List Lexeme) (R : Passage) (O : Opening → Prop) (readClass : ReadClass) :
    Prop :=
  ∀ kind o, O o → Keeps L R (readClass (kind, o)) fun _ => True

variable {readClass : ReadClass}

theorem members (h : KeptParts L R O) (hclass : KeepsTypes L R O readClass) (owner : ClassKind)
    (className : String) :
    Keeps L R (recurse (membersBody readClass owner className) ()) fun _ => True := by
  have hmember : Keeps L R (Grammar.member readClass owner className) fun _ => True := by
    rw [member_eq]
    refine h.opening.bind fun o ho => keeps_lookAhead.bind fun ls _ => ?_
    split
    · exact hclass _ o ho
    · exact h.member owner className o ho
  refine Keeps.recurse (I := fun _ => True) (fun self hself _ _ => ?_) trivial
  rw [membersBody_eq]
  refine keeps_lookAhead.bind fun ls _ => ?_
  split
  · exact keeps_fail _
  · exact keeps_skip 1
  · exact (keeps_skip 1).bind fun _ _ => hself () trivial
  · exact (enclosed _).bind fun _ _ => hself () trivial
  · refine .ite ?_ (hmember.bind fun _ _ => hself () trivial)
    exact (keeps_skip 1).bind fun _ _ => (enclosed _).bind fun _ _ => hself () trivial

theorem classDeclaration (h : KeptParts L R O) : KeepsTypes L R O classDeclaration := by
  intro kind o ho
  refine Keeps.recurse (I := fun start => O start.2) (fun self hself start ho => ?_) ho
  obtain ⟨kind, o⟩ := start
  rw [classBodyOf_eq]
  refine (h.head kind o ho).bind fun name _ => ?_
  have hconstants : Keeps L R (constantsOf kind name) fun _ => True :=
    .ite (h.constants name) (keeps_pure trivial)
  refine hconstants.bind fun _ _ => ?_
  exact (h.members (fun kind o ho => hself (kind, o) ho) kind name).bind fun _ _ =>
    keeps_tell h.endClass

theorem declarations (h : KeptParts L R O) :
    Keeps L R (recurse declarationsBody ()) fun _ => True := by
  have hmodule : Keeps L R moduleDeclaration fun _ => True :=
    silent_moduleDeclaration.keeps fun _ => proceeds_moduleDeclaration.mono (Nat.zero_le 1)
  have htype : Keeps L R typeDeclaration fun _ => True := by
    refine h.opening.bind fun o ho => keeps_lookAhead.bind fun ls _ => ?_
    split
    · exact h.classDeclaration _ o ho
    · exact keeps_fail _
  refine Keeps.recurse (I := fun _ => True) (fun self hself _ _ => ?_) trivial
  refine keeps_lookAhead.bind fun ls _ => .ite (keeps_pure trivial) (.ite ?_ (.ite ?_ ?_))
  · exact (keeps_skip 1).bind fun _ _ => hself () trivial
  · exact hmodule.bind fun _ _ => hself () trivial
  · exact htype.bind fun _ _ => hself () trivial

/-- What the parts keep, a source unit keeps. -/
theorem compilationUnit (h : KeptParts L R O) : Keeps L R compilationUnit fun _ => True := by
  refine Keeps.bind (keeps_tell h.beginSource) fun _ _ => h.package.bind fun _ _ => ?_
  refine (h.imports.many _).bind fun _ _ => ?_
  exact h.declarations.bind fun _ _ => keeps_tell h.endSource

/-- What the parts keep holds of the events of a text that is read to its end. -/
theorem parse {text : String} (h : KeptParts (lexemes text) R O)
    (herror : (parse text).error = none) :
    ∃ rest, R (lexemes text) (JavaModel.parse text).events rest := by
  obtain ⟨rest, hrun⟩ := compilationUnit_of_parse herror
  exact ⟨rest, (h.compilationUnit _ _ _ _ (List.suffix_refl _) hrun).1⟩

end KeptParts

end Grammar

end JavaModel
