import JavaModel.Proofs.Grammar.Ending

/-! Where declarations stand. A reading comes to places at which declarations follow one another: to
the outermost level behind the imports, to the constants of an enum and to the members of a class.
From such a place a loop goes round to the next. Documentation comments count where a unit, the word
`package` or a declaration begins. -/

namespace JavaModel

namespace Reader

variable {α β : Type} {n : Nat} {ls rest : List Lexeme} {told : List Event}

theorem bind_run {p : Reader α} {f : α → Reader β} {a : α} (h : p ls = (told, .ok (a, rest))) :
    (p >>= f) ls = (told ++ (f a rest).1, (f a rest).2) := by
  show andThen p f ls = _
  simp only [andThen, h]

/-- A round of a loop takes lexemes and the loop goes on with the others, whatever it does there. -/
def Rounds (body : (Unit → Reader Unit) → Unit → Reader Unit) (ls rest : List Lexeme) : Prop :=
  ∃ told, ∀ self, body self () ls = (told ++ (self () rest).1, (self () rest).2)

/-- A round that reads an item and goes on. -/
theorem rounds_of_item {body : (Unit → Reader Unit) → Unit → Reader Unit} {item : Reader α} {a : α}
    (hbody : ∀ self, body self () ls = (item >>= fun _ => self ()) ls)
    (hitem : item ls = (told, .ok (a, rest))) : Rounds body ls rest :=
  ⟨told, fun self => (hbody self).trans (bind_run hitem)⟩

/-- A reader that stops at once, but tells something before where `k` lexemes are left or more. -/
def stopAloud (k : Nat) : Reader Unit := fun ls =>
  if ls.length < k then fail .name ls else (tell .endSource >>= fun _ => fail .name) ls

theorem agrees_stopAloud {k : Nat} (h : ls.length < k) :
    Agrees n ls (fail .name) (stopAloud k) := by
  have hfail : Proceeds n ls (fail .name : Reader Unit) := proceeds_fail (by decide)
  exact ⟨(if_pos h).symm, hfail.taken, hfail.stopped⟩

/-- A loop that advances goes on with fewer lexemes. -/
theorem Advances.length_lt {body : (Unit → Reader Unit) → Unit → Reader Unit}
    (h : Advances n body) (hround : Rounds body ls rest) : rest.length < ls.length := by
  obtain ⟨told, hbody⟩ := hround
  by_contra hlong
  -- The round would tell apart two readers that do the same on fewer lexemes.
  have hsame := (h (fun _ => fail .name) (fun _ => stopAloud ls.length) () ls
    fun _ left hleft => agrees_stopAloud hleft).same
  rw [hbody, hbody] at hsame
  have htold := List.append_cancel_left (congrArg Prod.fst hsame)
  have haloud : stopAloud ls.length rest = ([.endSource], .error ⟨.name, rest.head?⟩) :=
    if_neg hlong
  rw [haloud] at htold
  cases htold

end Reader

namespace Grammar

open Reader Lexeme

/-- The places that a reading comes to. -/
inductive Place where
  | outermost
  /-- The words that say the kind of a class stand next. -/
  | head (kind : ClassKind)
  | constants (enum : String)
  | members (owner : ClassKind) (className : String)

namespace Place

/-- A declaration begins at a place unless it ends there, or a semicolon, a block or a module stands
next. -/
def Begins : Place → List Lexeme → Prop
  | outermost, ls => ls ≠ [] ∧ kindAt ls 0 ≠ some .semicolon ∧ startsModule ls = false
  | head _, _ => False
  | constants _, ls => kindAt ls 0 ∉ [none, some .semicolon, some .rightBrace]
  | members _ _, ls =>
    kindAt ls 0 ∉ [none, some .semicolon, some .leftBrace, some .rightBrace] ∧
      ¬(kindAt ls 0 = some (.modifier .isStatic) ∧ kindAt ls 1 = some .leftBrace)

/-- Types are declared at the outermost level and among members. -/
def HoldsTypes : Place → Prop
  | outermost | members _ _ => True
  | head _ | constants _ => False

end Place

/-- The places of a unit at which lexemes stand. -/
inductive Comes (unit : List Lexeme) : Place → List Lexeme → Prop where
  | outermost {told told' : List Event} {imports : List Unit} {middle ls : List Lexeme}
      (hpackage : packageDeclaration unit = (told, .ok ((), middle)))
      (himports : many (fun ls => kindAt ls 0 = some .importWord) importDeclaration middle =
        (told', .ok (imports, ls))) : Comes unit .outermost ls
  | declaration {ls rest : List Lexeme} (h : Comes unit .outermost ls)
      (hround : Rounds declarationsBody ls rest) : Comes unit .outermost rest
  | type {place : Place} {told : List Event} {o : Opening} {kind : ClassKind}
      {ls rest : List Lexeme} (h : Comes unit place ls) (hplace : place.HoldsTypes)
      (hbegins : place.Begins ls) (hopening : opening ls = (told, .ok (o, rest)))
      (hkind : declarationKind? rest = some kind) : Comes unit (.head kind) rest
  | constants {told : List Event} {o : Opening} {name : String} {ls rest : List Lexeme}
      (h : Comes unit (.head .enumType) ls)
      (hopening : classOpening .enumType o ls = (told, .ok (name, rest))) :
      Comes unit (.constants name) rest
  | constant {enum : String} {ls rest : List Lexeme} (h : Comes unit (.constants enum) ls)
      (hround : Rounds (constantsBody enum) ls rest) : Comes unit (.constants enum) rest
  | members {told told' : List Event} {kind : ClassKind} {o : Opening} {name : String}
      {ls middle rest : List Lexeme} (h : Comes unit (.head kind) ls)
      (hopening : classOpening kind o ls = (told, .ok (name, middle)))
      (hconstants : constantsOf kind name middle = (told', .ok ((), rest))) :
      Comes unit (.members kind name) rest
  | member {owner : ClassKind} {className : String} {ls rest : List Lexeme}
      (h : Comes unit (.members owner className) ls)
      (hround : Rounds (membersBody classDeclaration owner className) ls rest) :
      Comes unit (.members owner className) rest

/-- Where a documentation comment counts: at the first lexeme of a unit, at the word `package`
behind annotations, and at the first lexeme of every declaration. -/
inductive Documented (unit : List Lexeme) : List Lexeme → Prop where
  | first : Documented unit unit
  | package {told : List Event} {notes : List (AnnotationUse String)} {rest : List Lexeme}
      (hnotes : Grammar.annotations unit = (told, .ok (notes, rest)))
      (hword : kindAt rest 0 = some .packageWord) : Documented unit rest
  | declaration {place : Place} {ls : List Lexeme} (h : Comes unit place ls)
      (hbegins : place.Begins ls) : Documented unit ls

end Grammar

end JavaModel
