import Overloading.SqlType.Basic

/-! # Facets of types

A facet is what a rule about types asks for: to be numeric, to be comparable, to have a text form.
A set of facets is written as a word with one bit per facet. `ofWord` reads the facets of a word and
`toWord` writes one (`mem_ofWord_toWord`). -/

namespace Overloading

/-- What the rules about types ask of a type: its family, and what its values allow. -/
inductive Facet
  | undefined | numeric | integral | textual | temporal | collection | structured
  | comparable | toText
  deriving DecidableEq

namespace Facet

/-- Every facet, by ascending bit. -/
def all : List Facet :=
  [undefined, numeric, integral, textual, temporal, collection, structured, comparable, toText]

theorem mem_all (t : Facet) : t ∈ all := by cases t <;> decide

/-- The bit of the facet: families from bit 0, abilities from bit 8. -/
def bit : Facet → Nat
  | undefined => 0
  | numeric => 1
  | integral => 2
  | textual => 3
  | temporal => 4
  | collection => 5
  | structured => 6
  | comparable => 8
  | toText => 9

/-- The name of the facet's bit. -/
def label : Facet → String
  | undefined => "IS_UNDEFINED"
  | numeric => "IS_NUMERIC"
  | integral => "IS_INTEGRAL"
  | textual => "IS_TEXTUAL"
  | temporal => "IS_TEMPORAL"
  | collection => "IS_COLLECTION"
  | structured => "IS_STRUCTURED"
  | comparable => "IS_COMPARABLE"
  | toText => "TO_TEXT"

theorem bit_injective {s t : Facet} (h : s.bit = t.bit) : s = t := by
  revert h; cases s <;> cases t <;> decide

/-- The facets whose bits are set in the word, by ascending bit; other bits mean nothing. -/
def ofWord (word : Nat) : List Facet := all.filter fun t => word.testBit t.bit

/-- The word in which the bits of these facets are set. -/
def toWord : List Facet → Nat
  | [] => 0
  | t :: ts => 1 <<< t.bit ||| toWord ts

/-- **The word of some facets has their bits set and no other.** -/
theorem testBit_toWord (ts : List Facet) (i : Nat) :
    (toWord ts).testBit i = ts.any (·.bit == i) := by
  induction ts with
  | nil => simp [toWord]
  | cons t ts ih =>
    rw [toWord, Nat.testBit_or, ih, Nat.one_shiftLeft, Nat.testBit_two_pow, List.any_cons]
    rfl

theorem mem_ofWord {t : Facet} {word : Nat} : t ∈ ofWord word ↔ word.testBit t.bit = true := by
  simp [ofWord, mem_all]

/-- **A word holds the facets it was written for.** -/
theorem mem_ofWord_toWord {t : Facet} {ts : List Facet} : t ∈ ofWord (toWord ts) ↔ t ∈ ts := by
  rw [mem_ofWord, testBit_toWord, List.any_eq_true]
  constructor
  · rintro ⟨s, hs, h⟩
    exact bit_injective (beq_iff_eq.1 h) ▸ hs
  · exact fun h => ⟨t, h, beq_self_eq_true _⟩

end Facet

namespace Scalar

/-- The facets of a scalar type. -/
def facets : Scalar → List Facet
  | undefined => [.undefined]
  | boolean | ip => [.comparable, .toText]
  | byte | smallint | integer | bigint => [.numeric, .integral, .comparable, .toText]
  | real | double | numeric => [.numeric, .comparable, .toText]
  | text => [.textual, .comparable, .toText]
  | date | timestamp | timestamptz | interval => [.temporal, .comparable, .toText]
  | geoPoint | object => [.structured]

/-- A numeric type: its values are numbers. -/
def isNumeric (s : Scalar) : Bool := s.facets.contains .numeric

/-- A printable type: its values have a text form. -/
def isPrintable (s : Scalar) : Bool := s.facets.contains .toText

end Scalar

namespace SqlType

/-- The facets of a type; an array type is a collection and nothing else. -/
def facets : SqlType → List Facet
  | scalar s => s.facets
  | array _ => [.collection]

/-- A numeric type: its values are numbers. -/
def isNumeric (t : SqlType) : Bool := t.facets.contains .numeric

/-- The type of literals without a type of their own. -/
def isUndefined (t : SqlType) : Bool := t = undefined

theorem isUndefined_iff {t : SqlType} : t.isUndefined = true ↔ t = undefined := by
  simp [isUndefined]

end SqlType

end Overloading
