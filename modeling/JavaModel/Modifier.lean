/-!
Modifiers of declarations, and sets of them. A set shows its words in the conventional order.
-/

namespace JavaModel

/-- A word that may stand before a declaration. -/
inductive Modifier where
  | isPublic | isProtected | isPrivate | isStatic | isAbstract | isFinal | isNative
  | isSynchronized | isTransient | isVolatile | isStrictfp | isDefault | isSealed | isNonSealed
deriving DecidableEq, Repr, Inhabited

namespace Modifier

/-- The modifiers in the order in which declarations conventionally write them. -/
def conventional : List Modifier :=
  [isPublic, isProtected, isPrivate, isAbstract, isDefault, isStatic, isSealed, isNonSealed,
   isFinal, isTransient, isVolatile, isSynchronized, isNative, isStrictfp]

/-- The word that writes a modifier. -/
def keyword : Modifier → String
  | isPublic => "public"
  | isProtected => "protected"
  | isPrivate => "private"
  | isStatic => "static"
  | isAbstract => "abstract"
  | isFinal => "final"
  | isNative => "native"
  | isSynchronized => "synchronized"
  | isTransient => "transient"
  | isVolatile => "volatile"
  | isStrictfp => "strictfp"
  | isDefault => "default"
  | isSealed => "sealed"
  | isNonSealed => "non-sealed"

/-- The modifier that a word writes. -/
def ofKeyword? (word : String) : Option Modifier := conventional.find? fun m => m.keyword == word

/-- The place of a modifier's bit in a set. -/
def bit : Modifier → Nat
  | isPublic => 0
  | isProtected => 1
  | isPrivate => 2
  | isStatic => 3
  | isAbstract => 4
  | isFinal => 5
  | isNative => 6
  | isSynchronized => 7
  | isTransient => 8
  | isVolatile => 9
  | isStrictfp => 10
  | isDefault => 11
  | isSealed => 12
  | isNonSealed => 13

end Modifier

/-- A set of modifiers, one bit for each. -/
structure ModifierSet where
  bits : Nat
deriving DecidableEq, Repr, Inhabited

namespace ModifierSet

def empty : ModifierSet := ⟨0⟩

def insert (s : ModifierSet) (m : Modifier) : ModifierSet := ⟨s.bits ||| 1 <<< m.bit⟩

def contains (s : ModifierSet) (m : Modifier) : Bool := s.bits.testBit m.bit

def ofList (ms : List Modifier) : ModifierSet := ms.foldl insert empty

/-- The members in the conventional order. -/
def toList (s : ModifierSet) : List Modifier := Modifier.conventional.filter s.contains

/-- The words of the members in the conventional order. -/
def keywords (s : ModifierSet) : List String := s.toList.map Modifier.keyword

/-- The words of the members with a space between each two. -/
def render (s : ModifierSet) : String := " ".intercalate s.keywords

@[simp] theorem contains_empty (m : Modifier) : empty.contains m = false := by
  simp [contains, empty]

theorem bit_inj {m n : Modifier} (h : m.bit = n.bit) : m = n := by
  cases m <;> cases n <;> simp_all [Modifier.bit]

@[simp] theorem contains_insert (s : ModifierSet) (m n : Modifier) :
    (s.insert m).contains n = (s.contains n || decide (m = n)) := by
  simp only [contains, insert, Nat.testBit_or, Nat.one_shiftLeft, Nat.testBit_two_pow]
  by_cases h : m = n
  · simp [h]
  · have : m.bit ≠ n.bit := fun e => h (bit_inj e)
    simp [h, this]

theorem contains_ofList (ms : List Modifier) (m : Modifier) :
    (ofList ms).contains m = ms.contains m := by
  suffices h : ∀ s : ModifierSet,
      (ms.foldl insert s).contains m = (s.contains m || ms.contains m) by
    simp [ofList, h]
  induction ms with
  | nil => simp
  | cons a as ih => intro s; simp [ih, Bool.or_assoc, eq_comm]

end ModifierSet

end JavaModel
