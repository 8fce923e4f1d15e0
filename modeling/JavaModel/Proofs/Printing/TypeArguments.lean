import JavaModel.Proofs.Printing.RawText
import JavaModel.Proofs.Printing.Rendered

/-! Type arguments in expressions. The lexemes of type arguments are passed over where something
stands behind them that may follow type arguments, and otherwise taken one by one, so that an
expression ends at the first comma among them. -/

namespace JavaModel.Printing

open Grammar Reader

variable {l less close : Lexeme} {front back inner ls rest : List Lexeme}
variable {ks ms : List TokenKind}

/-! ### What an expression crosses -/

theorem behind_append (before : Option TokenKind) (front back : List Lexeme) :
    behind before (front ++ back) = behind (behind before front) back :=
  List.foldl_append

theorem crosses_nil (rest : List Lexeme) : Crosses [] rest := fun _ _ => rfl

theorem Crosses.append (h : Crosses front (back ++ rest)) (h' : Crosses back rest) :
    Crosses (front ++ back) rest := by
  intro depth before
  rw [List.append_assoc, h, h', behind_append, List.append_assoc]

theorem Crosses.cons (h : Crosses [l] (ls ++ rest)) (h' : Crosses ls rest) :
    Crosses (l :: ls) rest :=
  h.append h'

/-- A lexeme that is no bracket and ends no expression. -/
theorem crosses_other (hopen : closing? l.kind = none) (hclosing : isClosing l.kind = false)
    (hless : l.kind ≠ .less) (hinside : insideExpression l.kind) (rest : List Lexeme) :
    Crosses [l] rest :=
  fun _ _ => splitExpression_other hopen hclosing hless (fun _ => hinside) rest

/-- What stands in brackets is crossed with them. -/
theorem Crosses.enclose {o : Lexeme} {c : TokenKind} (ho : closing? o.kind = some c)
    (hclose : close.kind = c) (h : Crosses inner (close :: rest)) :
    Crosses (o :: (inner ++ [close])) rest := by
  have hclosing : isClosing close.kind := by
    rcases closing?_cases ho with ⟨_, rfl⟩ | ⟨_, rfl⟩ | ⟨_, rfl⟩ <;> rw [hclose] <;> rfl
  intro depth before
  have hbehind : behind before (o :: (inner ++ [close])) = some close.kind := by simp [behind]
  rw [List.cons_append, List.append_assoc, List.singleton_append, splitExpression_open ho, h,
    splitExpression_close hclosing, hbehind]
  simp

/-- Lexemes that belong to type arguments are passed over. -/
theorem splitExpression_pending (front rest : List Lexeme) (depth : Nat)
    (before : Option TokenKind) :
    splitExpression ⟨front.length, depth, before⟩ (front ++ rest) =
      (front ++ (splitExpression ⟨0, depth, behind before front⟩ rest).1,
        (splitExpression ⟨0, depth, behind before front⟩ rest).2) := by
  induction front generalizing before with
  | nil => rfl
  | cons l front ih =>
    rw [List.cons_append, List.length_cons, splitExpression.eq_def]
    simp only [ih]
    rfl

/-! ### Kinds inside angle brackets -/

/-- The kinds in types that are no brackets. -/
def plainKinds : List TokenKind :=
  [.identifier, .primitive, .dot, .comma, .question, .extendsWord, .superWord]

/-- Kinds of which those of types are made: angle brackets are closed in order, square brackets
stand in pairs. -/
inductive Angled : List TokenKind → Prop where
  | nil : Angled []
  | plain {k : TokenKind} {ks : List TokenKind} (hk : k ∈ plainKinds) (more : Angled ks) :
      Angled (k :: ks)
  | pair {ks : List TokenKind} (more : Angled ks) : Angled (.leftBracket :: .rightBracket :: ks)
  | angle {ks ms : List TokenKind} (inner : Angled ks) (more : Angled ms) :
      Angled (.less :: (ks ++ .greater :: ms))

theorem Angled.append (hks : Angled ks) (hms : Angled ms) : Angled (ks ++ ms) := by
  induction hks with
  | nil => exact hms
  | plain hk _ ih => exact .plain hk ih
  | pair _ ih => exact .pair ih
  | angle inner _ _ ih =>
    rw [List.cons_append, List.append_assoc, List.cons_append]
    exact .angle inner ih

theorem plain_of_mem {k : TokenKind} (hk : k ∈ plainKinds) :
    inTypeArguments k ∧ closing? k = none ∧ isClosing k = false ∧ k ≠ .less ∧ k ≠ .greater ∧
      k ≠ .semicolon := by
  revert k
  decide

theorem angled_not_trivia (h : Angled ks) : ∀ k ∈ ks, k.isTrivia = false := by
  induction h with
  | nil => nofun
  | plain hk _ ih =>
    refine List.forall_mem_cons.mpr ⟨?_, ih⟩
    revert hk
    exact (by decide : ∀ k ∈ plainKinds, k.isTrivia = false) _
  | pair _ ih => exact List.forall_mem_cons.mpr ⟨rfl, List.forall_mem_cons.mpr ⟨rfl, ih⟩⟩
  | angle _ _ ih ih' =>
    exact List.forall_mem_cons.mpr ⟨rfl, List.forall_mem_append.mpr
      ⟨ih, List.forall_mem_cons.mpr ⟨rfl, ih'⟩⟩⟩

/-- Lexemes of such kinds are counted among type arguments, at any depth. -/
theorem angleLength_angled (h : Angled ks) (hls : ls.map Lexeme.kind = ks) (depth : Nat)
    (rest : List Lexeme) :
    angleLength depth (ls ++ rest) = (angleLength depth rest).map (· + ls.length) := by
  induction h generalizing ls depth rest with
  | nil =>
    rw [List.map_eq_nil_iff.mp hls]
    simp
  | plain hk _ ih =>
    obtain ⟨l, more, rfl, rfl, hmore⟩ := List.map_eq_cons_iff.mp hls
    obtain ⟨hin, -, -, hless, hgreater, -⟩ := plain_of_mem hk
    simp [angleLength, hin, hless, hgreater, ih hmore, Function.comp_def, Nat.add_assoc]
  | pair _ ih =>
    obtain ⟨o, tail, rfl, ho, htail⟩ := List.map_eq_cons_iff.mp hls
    obtain ⟨c, more, rfl, hc, hmore⟩ := List.map_eq_cons_iff.mp htail
    simp [angleLength, ho, hc, inTypeArguments, ih hmore, Function.comp_def, Nat.add_assoc]
  | angle _ _ ih ih' =>
    obtain ⟨o, tail, rfl, ho, htail⟩ := List.map_eq_cons_iff.mp hls
    obtain ⟨inner, tail, rfl, hinner, htail⟩ := List.map_eq_append_iff.mp htail
    obtain ⟨c, more, rfl, hc, hmore⟩ := List.map_eq_cons_iff.mp htail
    have hclose : angleLength (depth + 1) (c :: (more ++ rest)) =
        (angleLength depth (more ++ rest)).map (· + 1) := by
      simp [angleLength, hc, inTypeArguments]
    have hopen : angleLength depth (o :: (inner ++ c :: (more ++ rest))) =
        (angleLength (depth + 1) (inner ++ c :: (more ++ rest))).map (· + 1) := by
      simp [angleLength, ho, inTypeArguments]
    rw [List.cons_append, List.append_assoc, List.cons_append, hopen, ih hinner, hclose, ih' hmore]
    simp only [Option.map_map, List.length_cons, List.length_append]
    congr 1
    funext n
    simp only [Function.comp_apply]
    omega

/-- The count ends with the bracket that closes the outermost, in front of what may follow. -/
theorem angleLength_close (h : Angled (inner.map Lexeme.kind)) (hclose : close.kind = .greater)
    (rest : List Lexeme) :
    angleLength 0 (inner ++ close :: rest) =
      if followsTypeArguments (Lexeme.kindAt rest 0) then some (inner ++ [close]).length
      else none := by
  have hend : angleLength 0 (close :: rest) =
      if followsTypeArguments (Lexeme.kindAt rest 0) then some 1 else none := by
    simp [angleLength, hclose, inTypeArguments]
  rw [angleLength_angled h rfl, hend, List.length_append, Nat.add_comm]
  split <;> rfl

/-- Behind a name, type arguments are crossed in front of what may follow them. -/
theorem crosses_arguments {names : List Lexeme}
    (hnames : Crosses names (less :: (inner ++ [close]) ++ rest))
    (hname : ∀ before, behind before names = some .identifier) (hless : less.kind = .less)
    (hinner : Angled (inner.map Lexeme.kind)) (hclose : close.kind = .greater)
    (hfollows : followsTypeArguments (Lexeme.kindAt rest 0)) :
    Crosses (names ++ less :: (inner ++ [close])) rest := by
  intro depth before
  have hlength : typeArgumentsLength (some .identifier) (inner ++ [close] ++ rest) =
      some (inner ++ [close]).length := by
    rw [List.append_assoc, List.singleton_append, typeArgumentsLength, angleLength_close hinner
      hclose, if_pos hfollows]
    rfl
  rw [List.append_assoc, hnames, hname, List.cons_append, splitExpression_less hless, hlength,
    Option.getD_some, splitExpression_pending]
  simp [behind]

/-- Without a comma among them, lexemes of types are crossed in front of anything. -/
theorem crosses_angled (h : Angled ks) (hcomma : .comma ∉ ks) (hls : ls.map Lexeme.kind = ks)
    (rest : List Lexeme) : Crosses ls rest := by
  induction h generalizing ls rest with
  | nil =>
    rw [List.map_eq_nil_iff.mp hls]
    exact crosses_nil rest
  | plain hk _ ih =>
    obtain ⟨l, more, rfl, rfl, hmore⟩ := List.map_eq_cons_iff.mp hls
    obtain ⟨-, hopen, hclosing, hless, -, hsemicolon⟩ := plain_of_mem hk
    rw [List.mem_cons, not_or] at hcomma
    have hinside : insideExpression l.kind := by
      simp [insideExpression, hsemicolon, Ne.symm hcomma.1]
    exact (crosses_other hopen hclosing hless hinside _).cons (ih hcomma.2 hmore rest)
  | pair _ ih =>
    obtain ⟨o, tail, rfl, ho, htail⟩ := List.map_eq_cons_iff.mp hls
    obtain ⟨c, more, rfl, hc, hmore⟩ := List.map_eq_cons_iff.mp htail
    have hpair := (crosses_nil (c :: (more ++ rest))).enclose (by rw [ho]; rfl) hc
    exact hpair.append (ih (fun h => hcomma (by simp [h])) hmore rest)
  | angle hinner _ ih ih' =>
    obtain ⟨o, tail, rfl, ho, htail⟩ := List.map_eq_cons_iff.mp hls
    obtain ⟨inner, tail, rfl, hkinds, htail⟩ := List.map_eq_append_iff.mp htail
    obtain ⟨c, more, rfl, hc, hmore⟩ := List.map_eq_cons_iff.mp htail
    intro depth before
    have hclosing : Crosses [c] (more ++ rest) :=
      crosses_other (by rw [hc]; rfl) (by rw [hc]; rfl) (by rw [hc]; decide) (by rw [hc]; rfl) _
    have hmore := ih' (fun h => hcomma (by simp [h])) hmore rest
    have hsplit : inner ++ c :: more ++ rest = inner ++ [c] ++ (more ++ rest) := by simp
    have hlength : typeArgumentsLength before (inner ++ [c] ++ (more ++ rest)) =
          some (inner ++ [c]).length ∨
        typeArgumentsLength before (inner ++ [c] ++ (more ++ rest)) = none := by
      rw [List.append_assoc, List.singleton_append, typeArgumentsLength,
        angleLength_close (hkinds ▸ hinner) hc]
      split
      · split
        · exact .inl rfl
        · exact .inr rfl
      · exact .inr rfl
    -- Either all of the arguments are passed over, or they are taken one by one.
    rw [List.cons_append, hsplit, splitExpression_less ho]
    rcases hlength with hlength | hlength
    · rw [hlength, Option.getD_some, splitExpression_pending, hmore]
      simp [behind]
    · have hinside := ih (fun h => hcomma (by simp [h])) hkinds ([c] ++ (more ++ rest))
      rw [hlength, Option.getD_none, List.append_assoc, hinside, hclosing, hmore]
      simp [behind]

/-! ### Kinds of types -/

theorem angled_of_plain (h : ∀ k ∈ ks, k ∈ plainKinds) : Angled ks := by
  induction ks with
  | nil => exact .nil
  | cons k ks ih =>
    obtain ⟨hk, hks⟩ := List.forall_mem_cons.mp h
    exact .plain hk (ih hks)

/-- A dotted name is made of the kinds of its segments and of dots, and ends with a segment. -/
theorem kinds_dotted {Q : TokenKind → Prop} {name : String}
    (h : ∀ s ∈ Name.segments name, ∃ k, Q k ∧ IsToken k s) :
    ∃ front k, kinds (dotted name) = front ++ [k] ∧ Q k ∧ ∀ k ∈ front, k = .dot ∨ Q k := by
  have hsegments : ∀ (more : List String) (first : String),
      (∀ s ∈ first :: more, ∃ k, Q k ∧ IsToken k s) →
      ∃ front k, kinds (.of first :: more.flatMap fun s => [.sign .dot, .of s]) = front ++ [k] ∧
        Q k ∧ ∀ k ∈ front, k = .dot ∨ Q k := by
    intro more
    induction more with
    | nil =>
      intro first h
      obtain ⟨k, hk, htoken⟩ := h first List.mem_cons_self
      exact ⟨[], k, kinds_token htoken [], hk, by simp⟩
    | cons s more ih =>
      intro first h
      obtain ⟨⟨k, hk, htoken⟩, hmore⟩ := List.forall_mem_cons.mp h
      obtain ⟨front, last, hkinds, hlast, hfront⟩ := ih s hmore
      refine ⟨k :: .dot :: front, last, ?_, hlast, ?_⟩
      · rw [List.flatMap_cons, kinds_token htoken, List.cons_append, kinds_sign rfl,
          List.singleton_append, hkinds]
        rfl
      · exact List.forall_mem_cons.mpr ⟨.inr hk, List.forall_mem_cons.mpr ⟨.inl rfl, hfront⟩⟩
  unfold dotted
  cases hname : Name.segments name with
  | nil => exact absurd hname (by simp [Name.segments, Text.splitAt_ne_nil])
  | cons first more => exact hsegments more first (hname ▸ h)

theorem IsTypeOf.segments {P : List (Argument TypeExpr) → Prop} {t : TypeExpr}
    (h : IsTypeOf P t) : ∀ s ∈ Name.segments t.name, ∃ k, TokenKind.isNaming k ∧ IsToken k s := by
  intro s hs
  cases h with
  | primitive h =>
    obtain ⟨hsegments, htoken⟩ := segments_primitive h
    rw [hsegments, List.mem_singleton] at hs
    exact ⟨.primitive, .inr rfl, hs ▸ htoken⟩
  | named hname => exact ⟨.identifier, .inl rfl, hname s hs⟩

/-- The kinds of a name may stand in a type, and none of them is a comma. -/
theorem plain_dotted {name : String}
    (h : ∀ s ∈ Name.segments name, ∃ k, TokenKind.isNaming k ∧ IsToken k s) :
    ∀ k ∈ kinds (dotted name), k ∈ plainKinds ∧ k ≠ .comma := by
  obtain ⟨front, last, hkinds, hlast, hfront⟩ := kinds_dotted h
  intro k hk
  have hcases : k = .dot ∨ TokenKind.isNaming k := by
    rw [hkinds, List.mem_append, List.mem_singleton] at hk
    rcases hk with hk | rfl
    · exact hfront k hk
    · exact .inr hlast
  rcases hcases with rfl | rfl | rfl <;> decide

theorem angled_brackets (n : Nat) : Angled (kinds (brackets n)) := by
  induction n with
  | zero => exact .nil
  | succ n ih =>
    rw [brackets, kinds_sign rfl, kinds_sign rfl]
    exact .pair ih

theorem comma_not_mem_brackets (n : Nat) : .comma ∉ kinds (brackets n) := by
  induction n with
  | zero => exact List.not_mem_nil
  | succ n ih =>
    rw [brackets, kinds_sign rfl, kinds_sign rfl]
    simpa using ih

theorem angled_listed {wss : List (List Word)} (h : ∀ ws ∈ wss, Angled (kinds ws)) :
    Angled (kinds (listed .comma wss)) := by
  induction wss with
  | nil => exact .nil
  | cons ws wss ih =>
    obtain ⟨hws, hwss⟩ := List.forall_mem_cons.mp h
    cases wss with
    | nil => simpa [listed] using hws
    | cons vs wss =>
      have hmore := ih hwss
      rw [listed, List.intercalate_cons_cons, List.append_assoc, kinds_append,
        List.singleton_append, kinds_sign rfl]
      exact hws.append (.plain (by decide) hmore)

/-- Lists of words between angle brackets, if there are any. -/
theorem kinds_angled (wss : List (List Word)) : wss = [] ∧ kinds (angled wss) = [] ∨
    kinds (angled wss) = .less :: (kinds (listed .comma wss) ++ [.greater]) := by
  cases wss with
  | nil => exact .inl ⟨rfl, rfl⟩
  | cons ws wss =>
    right
    rw [angled, kinds_sign rfl, kinds_append, kinds_sign rfl, kinds_nil]

theorem angled_argument {a : Argument TypeExpr}
    (h : ∀ t ∈ a.type?, Angled (kinds (typeWords t))) : Angled (kinds (argumentWords a)) := by
  cases a with
  | exactly t => exact h t rfl
  | unbounded =>
    rw [argumentWords, kinds_sign rfl]
    exact .plain (by decide) .nil
  | _ =>
    rw [argumentWords, kinds_sign rfl, kinds_sign rfl]
    exact .plain (by decide) (.plain (by decide) (h _ rfl))

theorem kinds_type (name : String) (args : List (Argument TypeExpr)) (dims : Nat) :
    kinds (typeWords ⟨name, args, dims⟩) =
      kinds (dotted name) ++
        (kinds (angled (args.map argumentWords)) ++ kinds (brackets dims)) := by
  rw [typeWords, argumentsWords_eq, kinds_append, kinds_append]

theorem angled_arguments {args : List (Argument TypeExpr)}
    (h : ∀ a ∈ args, ∀ t ∈ a.type?, Angled (kinds (typeWords t))) :
    Angled (kinds (listed .comma (args.map argumentWords))) := by
  refine angled_listed fun ws hws => ?_
  obtain ⟨a, ha, rfl⟩ := List.mem_map.mp hws
  exact angled_argument (h a ha)

/-- The tokens of a type are such as stand in type arguments. -/
theorem angled_type {P : List (Argument TypeExpr) → Prop} {t : TypeExpr} (h : IsTypeOf P t) :
    Angled (kinds (typeWords t)) := by
  have hname := angled_of_plain fun k hk => (plain_dotted h.segments k hk).1
  induction h with
  | @primitive name dims _ =>
    rw [kinds_type]
    exact hname.append (angled_brackets dims)
  | @named name args dims _ _ hargs ih =>
    rw [kinds_type]
    refine hname.append (Angled.append ?_ (angled_brackets dims))
    have hlist := angled_arguments fun a ha t ht => ih a ha t ht
      (angled_of_plain fun k hk => (plain_dotted (hargs a ha t ht).segments k hk).1)
    rcases kinds_angled (args.map argumentWords) with ⟨-, hkinds⟩ | hkinds
    · rw [hkinds]
      exact .nil
    · rw [hkinds]
      exact .angle hlist .nil

/-- There are no two type arguments side by side. -/
def AtMostOne (args : List (Argument TypeExpr)) : Prop := args.length ≤ 1

/-- Without two type arguments side by side, a type has no comma. -/
theorem comma_not_mem_type {t : TypeExpr} (h : IsTypeOf AtMostOne t) :
    .comma ∉ kinds (typeWords t) := by
  have hname : .comma ∉ kinds (dotted t.name) := fun hmem => (plain_dotted h.segments _ hmem).2 rfl
  induction h with
  | @primitive name dims _ =>
    rw [kinds_type, List.mem_append, List.mem_append]
    exact not_or.mpr ⟨hname, not_or.mpr ⟨List.not_mem_nil, comma_not_mem_brackets dims⟩⟩
  | @named name args dims _ hone hargs ih =>
    rw [kinds_type, List.mem_append, List.mem_append]
    refine not_or.mpr ⟨hname, not_or.mpr ⟨?_, comma_not_mem_brackets dims⟩⟩
    have htype : ∀ a ∈ args, ∀ t ∈ a.type?, .comma ∉ kinds (typeWords t) := fun a ha t ht =>
      ih a ha t ht fun hmem => (plain_dotted (hargs a ha t ht).segments _ hmem).2 rfl
    match args, hone, htype with
    | [], _, _ => exact List.not_mem_nil
    | [a], _, htype =>
      have hitem : .comma ∉ kinds (argumentWords a) := by
        have ha := htype a List.mem_cons_self
        cases a with
        | exactly t => exact ha t rfl
        | unbounded =>
          rw [argumentWords, kinds_sign rfl, kinds_nil]
          decide
        | _ =>
          rw [argumentWords, kinds_sign rfl, kinds_sign rfl]
          simpa using ha _ rfl
      rw [List.map_singleton, angled, kinds_sign rfl, kinds_append, kinds_sign rfl, listed,
        List.intercalate_singleton, kinds_nil]
      simpa using hitem

end JavaModel.Printing
