import Overloading.Resolution.Specificity

/-! # Tiers

Overloads compete in four tiers: first those without type variables and then those with some, both
for the types of the arguments as they are; then all that admit coercion, after promotions and at
last after casts. The first tier that leaves exactly one overload decides (`select?`). -/

namespace Overloading

/-- The rounds in which the overloads of a name compete. -/
inductive Tier
  | exact | generic | promotion | cast
  deriving DecidableEq

namespace Tier

/-- The tiers in the order in which they are tried. -/
def all : List Tier := [exact, generic, promotion, cast]

/-- How much the arguments may change their types. -/
def coercion : Tier → Coercion
  | exact | generic => .exact
  | promotion => .promotion
  | cast => .cast

/-- Whether signatures with these rules take part. -/
def admits : Tier → BindingRules → Bool
  | exact, r => r.isExact
  | generic, r => !r.isExact
  | promotion, r | cast, r => r.coercible

/-- The overloads that take part and fit arguments of these types. -/
def applicable (t : Tier) (types : List SqlType) (os : List Overload) : List Instantiation :=
  (os.filter fun o => t.admits o.signature.rules).filterMap fun o =>
    (o.signature.bind? t.coercion (types.map SqlType.toTerm)).map (Instantiation.mk o)

/-- The overloads among which the tier does not choose any further. -/
def finalists (t : Tier) (types : List SqlType) (os : List Overload) : List Instantiation :=
  if t.coercion.converts then Instantiation.mostSpecific types (t.applicable types os)
  else t.applicable types os

/-- The only finalist of the tier. -/
def winner? (t : Tier) (types : List SqlType) (os : List Overload) : Option Instantiation :=
  match t.finalists types os with
  | [i] => some i
  | _ => none

end Tier

/-- The overload that a call with arguments of these types means. -/
def Overload.select? (types : List SqlType) (os : List Overload) : Option Instantiation :=
  Tier.all.findSome? fun t => t.winner? types os

end Overloading
