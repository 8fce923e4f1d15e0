import JavaModel.Proofs.Printing.Names

/-! Types and parameters printed as words, and read back. -/

namespace JavaModel.Printing

open Grammar Reader

/-! ### Words -/

/-- Lists of words with a sign between each two. -/
def listed (sign : TokenKind) (wss : List (List Word)) : List Word :=
  [Word.sign sign].intercalate wss

/-- Lists of words between angle brackets, or nothing when there are none. -/
def angled : List (List Word) → List Word
  | [] => []
  | ws :: wss => .sign .less :: (listed .comma (ws :: wss) ++ [.sign .greater])

/-- The words of pairs of brackets. -/
def brackets : Nat → List Word
  | 0 => []
  | n + 1 => .sign .leftBracket :: .sign .rightBracket :: brackets n

mutual

/-- The words of a type. -/
def typeWords : TypeExpr → List Word
  | ⟨name, args, dims⟩ => dotted name ++ (angled (argumentsWords args) ++ brackets dims)

/-- The words of type arguments. -/
def argumentsWords : List (Argument TypeExpr) → List (List Word)
  | [] => []
  | a :: as => argumentWords a :: argumentsWords as

/-- The words of a type argument. -/
def argumentWords : Argument TypeExpr → List Word
  | .exactly t => typeWords t
  | .unbounded => [.sign .question]
  | .extending t => .sign .question :: .sign .extendsWord :: typeWords t
  | .above t => .sign .question :: .sign .superWord :: typeWords t

end

theorem argumentsWords_eq (args : List (Argument TypeExpr)) :
    argumentsWords args = args.map argumentWords := by
  induction args with
  | nil => rfl
  | cons a as ih => rw [argumentsWords, ih, List.map_cons]

/-- A type of names or a primitive type, with types of the same sort as its arguments. -/
inductive IsType : TypeExpr → Prop where
  | primitive {name : String} {dims : Nat} (h : name ∈ Name.primitives) : IsType ⟨name, [], dims⟩
  | named {name : String} {args : List (Argument TypeExpr)} {dims : Nat} (hname : IsDotted name)
      (hargs : ∀ a ∈ args, ∀ t ∈ a.type?, IsType t) : IsType ⟨name, args, dims⟩

theorem forall_mem_listed {P : Word → Prop} {sign : TokenKind} (hsign : P (.sign sign))
    {wss : List (List Word)} (h : ∀ ws ∈ wss, ∀ w ∈ ws, P w) : ∀ w ∈ listed sign wss, P w := by
  induction wss with
  | nil => exact fun _ hw => absurd hw List.not_mem_nil
  | cons ws wss ih =>
    rw [List.forall_mem_cons] at h
    cases wss with
    | nil => simpa [listed] using h.1
    | cons vs wss =>
      simp only [listed, List.intercalate_cons_cons, List.forall_mem_append] at ih ⊢
      exact ⟨⟨h.1, by simpa using hsign⟩, ih h.2⟩

theorem free_angled {wss : List (List Word)} (h : ∀ ws ∈ wss, ∀ w ∈ ws, w.Free) :
    ∀ w ∈ angled wss, w.Free := by
  cases wss with
  | nil => exact fun _ hw => absurd hw List.not_mem_nil
  | cons ws wss =>
    simp only [angled, List.forall_mem_cons, List.forall_mem_append]
    exact ⟨Word.free_sign rfl, forall_mem_listed (Word.free_sign rfl) h, Word.free_sign rfl,
      by simp⟩

theorem free_brackets (n : Nat) : ∀ w ∈ brackets n, w.Free := by
  induction n with
  | zero => exact fun _ hw => absurd hw List.not_mem_nil
  | succ n ih =>
    simp only [brackets, List.forall_mem_cons]
    exact ⟨Word.free_sign rfl, Word.free_sign rfl, ih⟩

theorem segments_primitive {name : String} (h : name ∈ Name.primitives) :
    Name.segments name = [name] ∧ IsToken .primitive name := by
  have hall : ∀ name ∈ Name.primitives, Name.segments name = [name] ∧ IsToken .primitive name := by
    decide +kernel
  exact hall name h

theorem dotted_primitive {name : String} (h : name ∈ Name.primitives) :
    dotted name = [.of name] ∧ IsToken .primitive name := by
  obtain ⟨hsegments, htoken⟩ := segments_primitive h
  exact ⟨by simp [dotted, hsegments], htoken⟩

theorem IsType.free {t : TypeExpr} (h : IsType t) : ∀ w ∈ typeWords t, w.Free := by
  induction h with
  | @primitive name dims h =>
    obtain ⟨hdotted, htoken⟩ := dotted_primitive h
    simp only [typeWords, hdotted, argumentsWords, List.forall_mem_append, List.forall_mem_cons]
    exact ⟨⟨htoken.free rfl, by simp⟩, by simp [angled], free_brackets dims⟩
  | @named name args dims hname hargs ih =>
    simp only [typeWords, List.forall_mem_append, argumentsWords_eq]
    refine ⟨free_dotted hname, free_angled ?_, free_brackets dims⟩
    intro ws hws
    obtain ⟨a, ha, rfl⟩ := List.mem_map.mp hws
    have hinner := ih a ha
    cases a with
    | exactly t => exact hinner t rfl
    | unbounded => simpa [argumentWords] using Word.free_sign rfl
    | _ =>
      simp only [argumentWords, List.forall_mem_cons]
      exact ⟨Word.free_sign rfl, Word.free_sign rfl, hinner _ rfl⟩

/-- What may stand behind a type. -/
structure EndsType (more : List Piece) : Prop where
  name : kindOf more 0 ≠ some .dot
  args : kindOf more 0 ≠ some .less
  dims : kindOf more 0 ≠ some .leftBracket

theorem spell_listed {sign : TokenKind} (h : sign.sign.isSome) (wss : List (List Word)) :
    spell (listed sign wss) =
      [(⟨sign, sign.sign.getD "", none, []⟩ : Piece)].intercalate (wss.map spell) := by
  induction wss with
  | nil => rfl
  | cons ws wss ih =>
    cases wss with
    | nil => simp [listed]
    | cons vs wss =>
      simp only [listed, List.map_cons, List.intercalate_cons_cons, spell_append] at ih ⊢
      rw [ih, spell_cons, pieces_sign h]
      rfl

theorem spell_listed_cons (sign : TokenKind) (ws : List Word) (wss : List (List Word)) :
    ∃ tail, spell (listed sign (ws :: wss)) = spell ws ++ tail := by
  cases wss with
  | nil => exact ⟨[], by simp [listed]⟩
  | cons vs wss => exact ⟨_, by rw [listed, List.intercalate_cons_cons, List.append_assoc,
      spell_append]⟩

/-- Printed items with a sign between each two are read one by one. -/
theorem reads_listed {α ι : Type} {item : Reader α} {words : ι → List Word} {value : ι → α}
    {xs : List ι} {after afterItem : List Piece → Prop} (sign : TokenKind)
    (hsign : sign.sign.isSome) (hxs : xs ≠ [])
    (hitem : ∀ x ∈ xs, Reads item (spell (words x)) afterItem [] (value x))
    (hnext : ∀ more, kindOf more 0 = some sign → afterItem more)
    (hafter : ∀ more, after more → afterItem more ∧ kindOf more 0 ≠ some sign) :
    Reads (separated sign item) (spell (listed sign (xs.map words))) after [] (xs.map value) := by
  rw [spell_listed hsign, List.map_map]
  exact .separated rfl hxs hitem (fun more => hnext _ rfl) hafter

theorem length_le_intercalate {α : Type} {sep xs : List α} {xss : List (List α)} (h : xs ∈ xss) :
    xs.length ≤ (sep.intercalate xss).length := by
  induction xss with
  | nil => cases h
  | cons ys xss ih =>
    cases xss with
    | nil =>
      obtain rfl : xs = ys := by simpa using h
      simp
    | cons zs xss =>
      rw [List.intercalate_cons_cons]
      simp only [List.length_append]
      rcases List.mem_cons.mp h with rfl | h
      · omega
      · have := ih h
        omega

theorem reads_dims (n : Nat) :
    Reads Grammar.dims (spell (brackets n)) (fun more => kindOf more 0 ≠ some .leftBracket) []
      n := by
  intro more ls hmore hls
  suffices h : ∃ rest, Spelled more rest ∧ countDims ls = (n, rest) by
    obtain ⟨rest, hrest, hcount⟩ := h
    exact ⟨rest, hrest, by simp [Grammar.dims, hcount]⟩
  induction n generalizing ls with
  | zero =>
    refine ⟨ls, hls, ?_⟩
    have hkind : Lexeme.kindAt ls 0 ≠ some .leftBracket := by
      rw [Spelled.kindAt hls 0]
      exact hmore
    match ls with
    | [] => rfl
    | [_] => rfl
    | l :: r :: ls =>
      have hl : l.kind ≠ .leftBracket := fun hl => hkind (by simp [Lexeme.kindAt, hl])
      simp [countDims, hl]
  | succ n ih =>
    simp (disch := decide) only [brackets, spell_cons, pieces_sign] at hls
    cases hls with
    | cons hopen hls =>
      cases hls with
      | cons hclose hls =>
        obtain ⟨rest, hrest, hcount⟩ := ih _ hls
        exact ⟨rest, hrest, by simp [countDims, hopen.kind, hclose.kind, hcount]⟩

/-! ### Types -/

/-- Pieces begin like a type. -/
def BeginsType (ps : List Piece) : Prop :=
  ∃ p more, ps = p :: more ∧
    (p.kind = .primitive ∨ p.kind = .identifier ∧ p.text ∉ contextualWords)

theorem BeginsType.kind_ne {ps : List Piece} (h : BeginsType ps) {k : TokenKind}
    (hprimitive : k ≠ .primitive) (hidentifier : k ≠ .identifier) (more : List Piece) :
    kindOf (ps ++ more) 0 ≠ some k := by
  obtain ⟨p, qs, rfl, hp⟩ := h
  rintro ⟨rfl⟩
  rcases hp with hp | ⟨hp, -⟩
  · exact hprimitive hp
  · exact hidentifier hp

theorem BeginsType.append {ps : List Piece} (h : BeginsType ps) (more : List Piece) :
    BeginsType (ps ++ more) := by
  obtain ⟨p, qs, rfl, hp⟩ := h
  exact ⟨p, qs ++ more, rfl, hp⟩

theorem spell_primitive {name : String} (h : name ∈ Name.primitives) :
    spell (dotted name) = [⟨.primitive, name, none, []⟩] := by
  obtain ⟨hdotted, htoken⟩ := dotted_primitive h
  rw [hdotted, spell_cons, Word.of, htoken.pieces []]
  rfl

theorem IsType.begins {t : TypeExpr} (h : IsType t) : BeginsType (spell (typeWords t)) := by
  cases h with
  | primitive h =>
    rw [typeWords, spell_append, spell_primitive h]
    exact ⟨_, _, rfl, .inl rfl⟩
  | @named name args dims hname hargs =>
    match hsegments : Name.segments name with
    | [] => exact absurd hsegments (by simp [Name.segments, Text.splitAt_ne_nil])
    | first :: segments =>
      rw [typeWords, spell_append, spell_dotted hname hsegments]
      exact ⟨_, _, rfl, .inr ⟨rfl, (hname first (by simp [hsegments])).plain⟩⟩

/-- No annotation stands where a kind other than that of its sign does. -/
theorem reads_noAnnotations {after : List Piece → Prop}
    (h : ∀ more, after more → kindOf more 0 ≠ some .atSign) :
    Reads Grammar.annotations [] after [] [] := by
  refine .recurse fun n hn => ?_
  match n, hn with
  | n + 1, _ =>
    refine .lookAhead (fun more ls hmore hls => ?_) (.pure _)
    exact if_neg (by simp [startsAnnotationUse, hls.kindAt, h more hmore])

/-- What stands behind a type argument. -/
def EndsArgument (more : List Piece) : Prop :=
  kindOf more 0 = some .comma ∨ kindOf more 0 = some .greater

theorem EndsArgument.endsType {more : List Piece} (h : EndsArgument more) : EndsType more := by
  rcases h with h | h <;> exact ⟨by simp [h], by simp [h], by simp [h]⟩

/-- A type argument is read where its type is. -/
theorem reads_typeArgument {type : Reader TypeExpr} {a : Argument TypeExpr}
    (h : ∀ t ∈ a.type?, BeginsType (spell (typeWords t)) ∧
      Reads type (spell (typeWords t)) EndsType [] t) :
    Reads (typeArgument type) (spell (argumentWords a)) EndsArgument [] a := by
  cases a with
  | exactly t =>
    obtain ⟨hbegins, hreads⟩ := h t rfl
    refine .look (reads_noAnnotations fun _ h => h)
      (fun more _ => hbegins.kind_ne (by decide) (by decide) more) ?_
    refine .look (.accept_false .question)
      (fun more _ => hbegins.kind_ne (by decide) (by decide) more) ?_
    exact .last (hreads.mono fun more hmore => hmore.endsType) (.pure _)
  | unbounded =>
    simp (disch := decide) only [argumentWords, spell_cons, pieces_sign, spell_nil]
    refine .look (reads_noAnnotations fun _ h => h) (fun more _ => by simp) ?_
    refine .step (.accept_true rfl) (.look (.accept_false .extendsWord) (fun more hmore => ?_)
      (.look (.accept_false .superWord) (fun more hmore => ?_) (.pure _)))
    · rcases hmore with h | h <;> simp [h]
    · rcases hmore with h | h <;> simp [h]
  | extending t =>
    obtain ⟨hbegins, hreads⟩ := h t rfl
    simp (disch := decide) only [argumentWords, spell_cons, pieces_sign]
    refine .look (reads_noAnnotations fun _ h => h) (fun more _ => by simp) ?_
    refine .step (.accept_true rfl) (.step (.accept_true rfl) ?_)
    exact .last (hreads.mono fun more hmore => hmore.endsType) (.pure _)
  | above t =>
    obtain ⟨hbegins, hreads⟩ := h t rfl
    simp (disch := decide) only [argumentWords, spell_cons, pieces_sign]
    refine .look (reads_noAnnotations fun _ h => h) (fun more _ => by simp) ?_
    refine .step (.accept_true rfl) (.look (.accept_false .extendsWord) (fun more _ => by simp) ?_)
    refine .step (.accept_true rfl) ?_
    exact .last (hreads.mono fun more hmore => hmore.endsType) (.pure _)

/-- An argument begins like a type or with a question mark. -/
theorem kindOf_argument {a : Argument TypeExpr} (h : ∀ t ∈ a.type?, IsType t) {k : TokenKind}
    (hprimitive : k ≠ .primitive) (hidentifier : k ≠ .identifier) (hquestion : k ≠ .question)
    (more : List Piece) : kindOf (spell (argumentWords a) ++ more) 0 ≠ some k := by
  cases a with
  | exactly t => exact (h t rfl).begins.kind_ne hprimitive hidentifier more
  | _ =>
    simp (disch := decide) only [argumentWords, spell_cons, pieces_sign]
    simpa using hquestion.symm

theorem reads_typeArguments {type : Reader TypeExpr} {args : List (Argument TypeExpr)}
    (hargs : ∀ a ∈ args, ∀ t ∈ a.type?, IsType t)
    (h : ∀ a ∈ args, Reads (typeArgument type) (spell (argumentWords a)) EndsArgument [] a) :
    Reads (typeArguments type) (spell (angled (args.map argumentWords)))
      (fun more => kindOf more 0 ≠ some .less) [] args := by
  match args with
  | [] => exact .look (.accept_false .less) (fun _ hmore => hmore) (.pure _)
  | a :: as =>
    have hitems := reads_listed .comma rfl (List.cons_ne_nil a as) h (fun _ h => .inl h)
      fun more (hmore : kindOf more 0 = some .greater) => ⟨.inr hmore, by simp [hmore]⟩
    simp (disch := decide) only [List.map_cons, angled, spell_cons, spell_append, pieces_sign,
      spell_nil, List.singleton_append]
    rw [List.map_id'] at hitems
    refine .step (.accept_true rfl) (.look (.accept_false .greater) (fun more _ => ?_) ?_)
    · obtain ⟨tail, htail⟩ := spell_listed_cons .comma (argumentWords a) (as.map argumentWords)
      rw [htail, List.append_assoc, List.append_assoc]
      exact kindOf_argument (hargs a List.mem_cons_self) (by decide) (by decide) (by decide) _
    · rw [← List.map_cons]
      exact .quiet hitems (fun more _ => rfl) (.step (.expect rfl _) (.pure _))

theorem length_typeWords_le {a : Argument TypeExpr} {t : TypeExpr} (h : t ∈ a.type?) :
    (spell (typeWords t)).length ≤ (spell (argumentWords a)).length := by
  cases a with
  | unbounded => cases h
  | _ =>
    cases h
    simp only [argumentWords, spell_cons, List.length_append]
    omega

theorem length_le_angled {ws : List Word} {wss : List (List Word)} (h : ws ∈ wss) :
    (spell ws).length ≤ (spell (angled wss)).length := by
  match wss with
  | vs :: wss =>
    have hle : (spell ws).length ≤ (spell (listed .comma (vs :: wss))).length := by
      rw [spell_listed rfl]
      exact length_le_intercalate (List.mem_map_of_mem h)
    simp only [angled, spell_cons, spell_append, List.length_append]
    omega

theorem reads_typeSegments {type : Reader TypeExpr} {args : List (Argument TypeExpr)}
    {argPieces : List Piece} (segments : List String) (name : String) {n : Nat}
    (hn : (segmentPieces segments ++ argPieces).length < n)
    (h : Reads (typeArguments type) argPieces (fun more => kindOf more 0 ≠ some .less) [] args) :
    Reads (unroll (typeSegmentsBody type) n name) (segmentPieces segments ++ argPieces)
      (fun more => kindOf more 0 ≠ some .dot ∧ kindOf more 0 ≠ some .less) []
      (segments.foldl (fun name s => name ++ "." ++ s) name, args) := by
  induction segments generalizing name n with
  | nil =>
    match n, hn with
    | n + 1, _ =>
      refine .last (h.mono fun more hmore => hmore.2) (.lookAhead (fun more ls hmore hls => ?_)
        (.pure _))
      exact if_neg (by simp [startsTypeSegment, hls.kindAt, hmore.1])
  | cons s segments ih =>
    match n, hn with
    | n + 1, hn =>
      have hnone : Reads (typeArguments type) [] (fun more => kindOf more 0 ≠ some .less) [] [] :=
        .look (.accept_false .less) (fun _ hmore => hmore) (.pure _)
      simp only [segmentPieces, List.flatMap_cons, List.cons_append, List.nil_append,
        List.length_cons] at hn ⊢
      refine .look hnone (fun more _ => by simp) (.lookAhead (q := do
        skip 1
        let _ ← Grammar.annotations
        let segment ← identifier .typeName
        unroll (typeSegmentsBody type) n (name ++ "." ++ segment)) (fun more ls hmore hls => ?_) ?_)
      · exact if_pos (by simp [startsTypeSegment, hls.kindAt])
      · refine .step (.skip [_]) ?_
        refine .look (reads_noAnnotations fun _ h => h) (fun more _ => by simp) ?_
        exact .step (.identifier rfl _) (ih _ (by simp only [segmentPieces]; omega))

/-- A type is read back, with enough rounds left for the types inside it. -/
theorem reads_typeBody {t : TypeExpr} (ht : IsType t) {n : Nat}
    (hn : (spell (typeWords t)).length < n) :
    Reads (unroll typeBody n ()) (spell (typeWords t)) EndsType [] t := by
  induction ht generalizing n with
  | @primitive name dims hname =>
    match n, hn with
    | n + 1, _ =>
      rw [typeWords, spell_append, spell_primitive hname]
      refine .look (reads_noAnnotations fun _ h => h) (fun more _ => by simp) ?_
      refine .look (.atKind .primitive true) (fun more _ => by simp) ?_
      refine .step (.expect rfl _) ?_
      exact .last ((reads_dims dims).mono fun more hmore => hmore.dims) (.pure _)
  | @named name args dims hname hargs ih =>
    match n, hn, hsegments : Name.segments name with
    | n + 1, _, [] => exact absurd hsegments (by simp [Name.segments, Text.splitAt_ne_nil])
    | n + 1, hn, first :: segments =>
      simp only [typeWords, spell_append, spell_dotted hname hsegments, List.cons_append,
        argumentsWords_eq] at hn ⊢
      refine .look (reads_noAnnotations fun _ h => h) (fun more _ => by simp) ?_
      refine .look (.atKind .primitive false) (fun more _ => by simp) ?_
      refine .step (.identifier rfl _) ?_
      have harguments : ∀ a ∈ args, Reads (typeArgument (unroll typeBody n ()))
          (spell (argumentWords a)) EndsArgument [] a := by
        intro a ha
        refine reads_typeArgument fun t ht => ⟨(hargs a ha t ht).begins, ih a ha t ht ?_⟩
        have htype := length_typeWords_le ht
        have hargument := length_le_angled (List.mem_map_of_mem (f := argumentWords) ha)
        simp only [List.length_cons, List.length_append] at hn
        omega
      have hnamed : Reads (typeSegments (unroll typeBody n ()) first) _ _ [] _ :=
        .recurse fun _ hm => reads_typeSegments segments first hm
          (reads_typeArguments hargs harguments)
      rw [foldl_of_segments hsegments] at hnamed
      rw [← List.append_assoc]
      refine .quiet hnamed (fun more hmore => ?_)
        (.last ((reads_dims dims).mono fun more hmore => hmore.dims) (.pure _))
      cases dims with
      | zero => exact ⟨hmore.name, hmore.args⟩
      | succ dims =>
        simp (disch := decide) only [brackets, spell_cons, pieces_sign]
        exact ⟨by simp, by simp⟩

theorem reads_type {t : TypeExpr} (ht : IsType t) :
    Reads type (spell (typeWords t)) EndsType [] t :=
  .recurse fun _ hn => reads_typeBody ht hn

/-! ### Lists of types -/

/-- A word and types behind it, or nothing when there are none. -/
def typesBehind (word : TokenKind) : List TypeExpr → List Word
  | [] => []
  | t :: ts => .sign word :: listed .comma ((t :: ts).map typeWords)

theorem free_types {sign : TokenKind} (hsign : sign.sign.isSome) {ts : List TypeExpr}
    (h : ∀ t ∈ ts, IsType t) : ∀ w ∈ listed sign (ts.map typeWords), w.Free := by
  refine forall_mem_listed (Word.free_sign hsign) fun ws hws => ?_
  obtain ⟨t, ht, rfl⟩ := List.mem_map.mp hws
  exact (h t ht).free

theorem free_typesBehind {word : TokenKind} (hword : word.sign.isSome) {ts : List TypeExpr}
    (h : ∀ t ∈ ts, IsType t) : ∀ w ∈ typesBehind word ts, w.Free := by
  cases ts with
  | nil => exact fun _ hw => absurd hw List.not_mem_nil
  | cons t ts =>
    simp only [typesBehind, List.forall_mem_cons]
    exact ⟨Word.free_sign hword, free_types rfl h⟩

/-- What may stand behind types with a sign between each two. -/
structure EndsTypes (sign : TokenKind) (more : List Piece) : Prop extends EndsType more where
  sign : kindOf more 0 ≠ some sign

theorem reads_types {sign : TokenKind} (hsign : sign.sign.isSome)
    (hends : ∀ more, kindOf more 0 = some sign → EndsType more) {ts : List TypeExpr}
    (hne : ts ≠ []) (h : ∀ t ∈ ts, IsType t) :
    Reads (separated sign type) (spell (listed sign (ts.map typeWords))) (EndsTypes sign) []
      ts := by
  have htypes := reads_listed sign hsign hne (fun t ht => reads_type (h t ht)) hends
    (fun more (hmore : EndsTypes sign more) => ⟨hmore.toEndsType, hmore.sign⟩)
  rwa [List.map_id'] at htypes

theorem reads_typeList {ts : List TypeExpr} (hne : ts ≠ []) (h : ∀ t ∈ ts, IsType t) :
    Reads typeList (spell (listed .comma (ts.map typeWords))) (EndsTypes .comma) [] ts :=
  reads_types rfl (fun more hmore => ⟨by simp [hmore], by simp [hmore], by simp [hmore]⟩) hne h

theorem reads_typesAfter {word : TokenKind} (hword : word.sign.isSome) {ts : List TypeExpr}
    (h : ∀ t ∈ ts, IsType t) :
    Reads (typesAfter word) (spell (typesBehind word ts))
      (fun more => EndsTypes .comma more ∧ kindOf more 0 ≠ some word) [] ts := by
  match ts with
  | [] => exact .look (.accept_false word) (fun _ hmore => hmore.2) (.pure _)
  | t :: ts =>
    rw [typesBehind, spell_cons, pieces_sign hword]
    refine .step (.accept_true rfl) ?_
    exact (reads_typeList (List.cons_ne_nil t ts) h).mono fun more hmore => hmore.1

/-! ### Type parameters -/

/-- A type parameter with a name and types as bounds. -/
structure IsTypeParameter (p : TypeParameter TypeExpr) : Prop where
  name : IsName p.name
  bounds : ∀ t ∈ p.bounds, IsType t

/-- The words of a type parameter. -/
def typeParameterWords (p : TypeParameter TypeExpr) : List Word :=
  .of p.name :: match p.bounds with
    | [] => []
    | t :: ts => .sign .extendsWord :: listed .ampersand ((t :: ts).map typeWords)

theorem free_typeParameters {ps : List (TypeParameter TypeExpr)}
    (h : ∀ p ∈ ps, IsTypeParameter p) : ∀ w ∈ angled (ps.map typeParameterWords), w.Free := by
  refine free_angled fun ws hws => ?_
  obtain ⟨p, hp, rfl⟩ := List.mem_map.mp hws
  obtain ⟨name, bounds⟩ := p
  simp only [typeParameterWords, List.forall_mem_cons]
  refine ⟨(h _ hp).name.free, ?_⟩
  cases bounds with
  | nil => exact fun _ hw => absurd hw List.not_mem_nil
  | cons t ts =>
    simp only [List.forall_mem_cons]
    exact ⟨Word.free_sign rfl, free_types rfl (h _ hp).bounds⟩

theorem reads_typeParameter {p : TypeParameter TypeExpr} (h : IsTypeParameter p) :
    Reads typeParameter (spell (typeParameterWords p)) EndsArgument [] p := by
  obtain ⟨name, bounds⟩ := p
  rw [typeParameterWords, spell_cons, h.name.pieces]
  refine .look (reads_noAnnotations fun _ h => h) (fun more _ => by simp) ?_
  refine .step (.identifier rfl _) ?_
  match bounds with
  | [] =>
    refine .look (.accept_false .extendsWord) (fun more hmore => ?_) (.pure _)
    rcases hmore with h | h <;> simp [h]
  | t :: ts =>
    simp (disch := decide) only [spell_cons, pieces_sign]
    refine .step (.accept_true rfl) (.last ?_ (.pure _))
    refine (reads_types rfl (fun more hmore => ?_) (List.cons_ne_nil t ts) h.bounds).mono
      fun more hmore => ⟨hmore.endsType, ?_⟩
    · exact ⟨by simp [hmore], by simp [hmore], by simp [hmore]⟩
    · rcases hmore with h | h <;> simp [h]

theorem reads_typeParameters {ps : List (TypeParameter TypeExpr)}
    (h : ∀ p ∈ ps, IsTypeParameter p) :
    Reads typeParameters (spell (angled (ps.map typeParameterWords)))
      (fun more => kindOf more 0 ≠ some .less) [] ps := by
  match ps with
  | [] => exact .look (.accept_false .less) (fun _ hmore => hmore) (.pure _)
  | p :: ps =>
    have hitems := reads_listed .comma rfl (List.cons_ne_nil p ps)
      (fun p hp => reads_typeParameter (h p hp)) (fun _ h => .inl h)
      (fun more (hmore : kindOf more 0 = some .greater) => ⟨.inr hmore, by simp [hmore]⟩)
    rw [List.map_id'] at hitems
    simp (disch := decide) only [List.map_cons, angled, spell_cons, spell_append, pieces_sign,
      spell_nil, List.singleton_append]
    rw [← List.map_cons]
    exact .step (.accept_true rfl) (.quiet hitems (fun more _ => rfl)
      (.step (.expect rfl _) (.pure _)))

/-! ### Parameters -/

/-- A named parameter of modifiers that are keywords, annotations without arguments and a type. -/
structure IsParameter (p : Written.Parameter) : Prop where
  name : ∃ name, p.name = some name ∧ IsName name
  modifiers : .isSealed ∉ p.modifiers ∧ .isNonSealed ∉ p.modifiers
  annotations : ∀ a ∈ p.annotations, IsMarker a
  type : IsType p.type

/-- The words of a parameter. -/
def parameterWords (p : Written.Parameter) : List Word :=
  decorations p.modifiers p.annotations ++ (typeWords p.type ++
    ((if p.isVarargs then [.sign .ellipsis] else []) ++ [.of (p.name.getD "")]))

/-- The words of a parameter list. -/
def parametersWords (ps : List Written.Parameter) : List Word :=
  .sign .leftParen :: (listed .comma (ps.map parameterWords) ++ [.sign .rightParen])

theorem free_parameters {ps : List Written.Parameter} (h : ∀ p ∈ ps, IsParameter p) :
    ∀ w ∈ parametersWords ps, w.Free := by
  simp only [parametersWords, List.forall_mem_cons, List.forall_mem_append]
  refine ⟨Word.free_sign rfl, forall_mem_listed (Word.free_sign rfl) fun ws hws => ?_,
    Word.free_sign rfl, by simp⟩
  obtain ⟨p, hp, rfl⟩ := List.mem_map.mp hws
  have hp := h p hp
  obtain ⟨name, hname, hisName⟩ := hp.name
  simp only [parameterWords, hname, List.forall_mem_append]
  refine ⟨free_decorations hp.annotations, hp.type.free, ?_, by simpa using hisName.free⟩
  split
  · simpa using Word.free_sign rfl
  · simp

theorem BeginsType.endsDecorations {ps : List Piece} (h : BeginsType ps) {ms : List Modifier}
    (hms : .isSealed ∉ ms) (more : List Piece) : EndsDecorations ms (ps ++ more) := by
  refine ⟨⟨fun hnote => absurd hnote (h.kind_ne (by decide) (by decide) more),
    h.kind_ne (by decide) (by decide) more, h.kind_ne (by decide) (by decide) more⟩,
    fun ls hls => ?_, fun hm => absurd hm hms⟩
  obtain ⟨p, qs, rfl, hp⟩ := h
  rcases hp with hp | ⟨hp, htext⟩
  · simp [modifierAt?, hls.kindAt, hls.isWordAt, hp]
  · have hsealed : p.text ≠ "sealed" := fun h => htext (by simp [h, contextualWords])
    have hnon : p.text ≠ "non" := fun h => htext (by simp [h, contextualWords])
    simp [modifierAt?, hls.kindAt, hls.isWordAt, hp, hsealed, hnon]

theorem isThisAt_eq_false {ps : List Piece} {ls : List Lexeme} (h : Spelled ps ls)
    (hkind : kindOf ps 0 ≠ some .reserved) : isThisAt ls 0 = false := by
  rw [← h.kindAt] at hkind
  cases ls with
  | nil => rfl
  | cons l ls =>
    have hl : l.kind ≠ .reserved := fun hl => hkind (by simp [Lexeme.kindAt, hl])
    simp [isThisAt, hl]

theorem addDims_zero (t : TypeExpr) : t.addDims 0 = t := by
  cases t
  rfl

theorem reads_parameter {p : Written.Parameter} (h : IsParameter p) :
    Reads parameter (spell (parameterWords p))
      (fun more => kindOf more 0 = some .comma ∨ kindOf more 0 = some .rightParen) [] (some p) := by
  obtain ⟨name?, type, ms, notes, isVarargs⟩ := p
  obtain ⟨name, hname, hisName⟩ := h.name
  simp only at hname
  subst hname
  have hlast : Reads (parameterName ⟨ms, notes⟩ type isVarargs) [⟨.identifier, name, none, []⟩]
      (fun more => kindOf more 0 = some .comma ∨ kindOf more 0 = some .rightParen) []
      (some ⟨some name, type, ms, notes, isVarargs⟩) := by
    refine .lookAhead (q := do
      let name ← identifier .parameterName
      let extra ← dims
      pure (some (⟨some name, type.addDims extra, ms, notes, isVarargs⟩ : Written.Parameter)))
      (fun more ls hmore hls => ?_) ?_
    · have hthis := isThisAt_eq_false hls (by simp)
      have hdot : Lexeme.kindAt ls 1 ≠ some .dot := by
        rw [hls.kindAt]
        rcases hmore with h | h <;> simp [h]
      simp [receiverLength?, hthis, hdot]
    · refine .step (.identifier rfl _) ((reads_dims 0).look (fun more hmore => ?_)
        (.done (by rw [addDims_zero])))
      rcases hmore with h | h <;> simp [h]
  simp only [parameterWords, spell_append, spell_cons, spell_nil, List.append_nil,
    Option.getD_some, hisName.pieces]
  rw [parameter_eq]
  refine .quiet (reads_decorations h.annotations)
    (fun more _ => by
      rw [List.append_assoc]
      exact h.type.begins.endsDecorations h.modifiers.1 _) ?_
  refine .quiet (reads_type h.type) (fun more _ => ?_)
    (.look (reads_noAnnotations fun _ h => h) (fun more _ => ?_) ?_)
  · cases isVarargs with
    | false => exact ⟨by simp, by simp, by simp⟩
    | true =>
      simp (disch := decide) only [if_true, spell_cons, pieces_sign]
      exact ⟨by simp, by simp, by simp⟩
  · cases isVarargs with
    | false => simp
    | true =>
      simp (disch := decide) only [if_true, spell_cons, pieces_sign]
      simp
  · cases isVarargs with
    | false => exact .look (.accept_false .ellipsis) (fun more _ => by simp) hlast
    | true =>
      simp (disch := decide) only [if_true, spell_cons, pieces_sign]
      exact .step (.accept_true rfl) hlast

theorem reads_parameters {ps : List Written.Parameter} (h : ∀ p ∈ ps, IsParameter p) :
    Reads parameters (spell (parametersWords ps)) (fun _ => True) [] ps := by
  match ps with
  | [] =>
    simp (disch := decide) only [parametersWords, spell_cons, pieces_sign, spell_append]
    exact .step (.expect rfl _) (.step (.accept_true rfl) (.pure _))
  | p :: ps =>
    have hitems := reads_listed .comma rfl (List.cons_ne_nil p ps)
      (fun p hp => reads_parameter (h p hp)) (fun _ h => .inl h)
      (fun more (hmore : kindOf more 0 = some .rightParen) => ⟨.inr hmore, by simp [hmore]⟩)
    simp (disch := decide) only [parametersWords, spell_cons, pieces_sign, spell_append,
      List.singleton_append]
    refine .step (.expect rfl _) (.look (.accept_false .rightParen) (fun more _ => ?_) ?_)
    · obtain ⟨tail, htail⟩ := spell_listed_cons .comma (parameterWords p) (ps.map parameterWords)
      rw [List.map_cons, htail, List.append_assoc, List.append_assoc]
      rw [parameterWords, spell_append, spell_append, List.append_assoc, List.append_assoc]
      have hp := h p List.mem_cons_self
      exact kindOf_decorated hp.annotations (by decide) (by simp) (by decide)
        (hp.type.begins.kind_ne (by decide) (by decide) _)
    · refine .quiet hitems (fun more _ => rfl) (.step (.expect rfl _) (.done ?_))
      rw [List.filterMap_map]
      exact List.filterMap_some

end JavaModel.Printing
