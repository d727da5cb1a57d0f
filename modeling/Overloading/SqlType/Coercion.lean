import Overloading.SqlType.Facet

/-! # Coercions

`a.promotesTo b` says that a value of type `a` widens to type `b` within its family, and `a.castsTo
b` that it converts to type `b` without an explicit cast. A `Coercion` is how much of this a place
admits: equal types only, promotions, or casts (`coercesTo`). Every promotion is a cast
(`castsTo_of_promotesTo`), so a looser coercion admits more (`coercesTo_mono`).

`Coercion.join` is the rule for one place that has to hold two types: the place goes to the type of
higher rank if it may, stays where it is if that works, and otherwise moves if it can. -/

namespace Overloading

namespace Scalar

/-- Promotion of scalar types: numbers to numbers of higher rank, dates to timestamps, timestamps to
timestamps with a zone, and `undefined` to everything. -/
def promotesTo (a b : Scalar) : Bool :=
  a = b || a = undefined || (a.isNumeric && b.isNumeric && a.rank < b.rank) ||
    (match a, b with
      | date, timestamp | date, timestamptz | timestamp, timestamptz => true
      | _, _ => false)

/-- Implicit casts of scalar types: promotions, numbers to numbers, text to everything but
`undefined`, printable types to text, whole numbers and timestamps as epoch milliseconds into each
other, and timestamps to dates. -/
def castsTo (a b : Scalar) : Bool :=
  a.promotesTo b || (a.isNumeric && b.isNumeric) || (a = text && b != undefined) ||
    (a.isPrintable && b = text) ||
    (match a, b with
      | integer, timestamp | integer, timestamptz | bigint, timestamp | bigint, timestamptz => true
      | timestamp, bigint | timestamp, date | timestamptz, bigint | timestamptz, date => true
      | timestamptz, timestamp => true
      | _, _ => false)

@[simp] theorem promotesTo_self (s : Scalar) : s.promotesTo s = true := by simp [promotesTo]

theorem castsTo_of_promotesTo {a b : Scalar} (h : a.promotesTo b = true) : a.castsTo b = true := by
  simp [castsTo, h]

end Scalar

namespace SqlType

/-- Promotion: widening within a family. Arrays widen with their elements. -/
def promotesTo : SqlType → SqlType → Bool
  | scalar a, scalar b => a.promotesTo b
  | scalar a, array _ => a = .undefined
  | array _, scalar _ => false
  | array a, array b => a.promotesTo b

/-- Implicit cast: every conversion that needs no explicit cast. Arrays convert with their elements,
and an array of numbers is a point. -/
def castsTo : SqlType → SqlType → Bool
  | scalar a, scalar b => a.castsTo b
  | scalar a, array _ => a = .undefined
  | array a, scalar b => a.isNumeric && b = .geoPoint
  | array a, array b => a.castsTo b

theorem castsTo_of_promotesTo : ∀ {a b : SqlType}, a.promotesTo b = true → a.castsTo b = true
  | scalar _, scalar _, h => Scalar.castsTo_of_promotesTo h
  | scalar _, array _, h => h
  | array a, array b, h => castsTo_of_promotesTo (a := a) (b := b) h

end SqlType

/-- How much conversion a place admits, from the strictest to the loosest. -/
inductive Coercion
  | exact | promotion | cast
  deriving DecidableEq

namespace Coercion

/-- The place of the coercion among the three. -/
def level : Coercion → Nat
  | exact => 0
  | promotion => 1
  | cast => 2

instance : Ord Coercion := ⟨compareOn level⟩

/-- Whether a value may change its type at all. -/
def converts (m : Coercion) : Bool := m != exact

end Coercion

/-- Whether a value of type `a` is accepted where type `b` is expected. -/
def SqlType.coercesTo (m : Coercion) (a b : SqlType) : Bool :=
  match m with
  | .exact => a = b
  | .promotion => a.promotesTo b
  | .cast => a.castsTo b

/-- The type of a place that holds `held` and meets `met`, if one place can serve both. -/
def Coercion.join (m : Coercion) (held met : SqlType) : Option SqlType :=
  if held = met then some held
  else if held.coercesTo m met && met.outranks held then some met
  else if met.coercesTo m held then some held
  else if held.coercesTo m met then some met
  else none

namespace SqlType

@[simp] theorem promotesTo_self : ∀ a : SqlType, a.promotesTo a = true
  | scalar s => Scalar.promotesTo_self s
  | array a => promotesTo_self a

@[simp] theorem coercesTo_self (m : Coercion) (a : SqlType) : a.coercesTo m a = true := by
  cases m <;> simp [coercesTo, castsTo_of_promotesTo]

/-- **A looser coercion admits more.** -/
theorem coercesTo_mono {m m' : Coercion} (hm : m.level ≤ m'.level) {a b : SqlType}
    (h : a.coercesTo m b = true) : a.coercesTo m' b = true := by
  cases m <;> cases m' <;> simp_all [coercesTo, Coercion.level, castsTo_of_promotesTo]

end SqlType

end Overloading
