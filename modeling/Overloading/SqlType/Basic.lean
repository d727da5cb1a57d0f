/-! # SQL types

The types of SQL values: the `Scalar` types and, over each type, the type of its arrays. A type has
a stable number (`id`), a `name`, a rank that orders the types when two of them meet in one place
(`rank`), and a written form (`render`). A scalar type is known by its name
(`Scalar.ofName?_eq_some_iff`), and no scalar type bears the name of the array constructor
(`Scalar.name_ne_arrayName`). -/

namespace Overloading

/-- The types of values that are no arrays. `undefined` is the type of a literal without a type of
its own, such as `NULL`. -/
inductive Scalar
  | undefined | boolean
  | byte | smallint | integer | bigint | real | double | numeric
  | text
  | date | timestamp | timestamptz | interval
  | ip | geoPoint | object
  deriving DecidableEq

namespace Scalar

/-- Every scalar type, in the order of the numbers. -/
def all : List Scalar :=
  [undefined, boolean, byte, smallint, integer, bigint, real, double, numeric, text, date,
    timestamp, timestamptz, interval, ip, geoPoint, object]

/-- The name of the type in SQL. -/
def name : Scalar → String
  | undefined => "undefined"
  | boolean => "boolean"
  | byte => "byte"
  | smallint => "smallint"
  | integer => "integer"
  | bigint => "bigint"
  | real => "real"
  | double => "double precision"
  | numeric => "numeric"
  | text => "text"
  | date => "date"
  | timestamp => "timestamp without time zone"
  | timestamptz => "timestamp with time zone"
  | interval => "interval"
  | ip => "ip"
  | geoPoint => "geo_point"
  | object => "object"

/-- The stable number of the type. -/
def id : Scalar → Nat
  | undefined => 0
  | boolean => 1
  | byte => 2
  | smallint => 3
  | integer => 4
  | bigint => 5
  | real => 6
  | double => 7
  | numeric => 8
  | text => 9
  | date => 10
  | timestamp => 11
  | timestamptz => 12
  | interval => 13
  | ip => 14
  | geoPoint => 15
  | object => 16

/-- The rank of the type; where two types meet, the one of higher rank is preferred. -/
def rank : Scalar → Nat
  | undefined => 0
  | text => 10
  | ip => 11
  | boolean => 12
  | byte => 20
  | smallint => 21
  | integer => 22
  | bigint => 23
  | numeric => 24
  | real => 25
  | double => 26
  | date => 30
  | timestamp => 31
  | timestamptz => 32
  | interval => 33
  | geoPoint => 40
  | object => 50

theorem rank_injective {s t : Scalar} (h : s.rank = t.rank) : s = t := by
  revert h; cases s <;> cases t <;> decide

/-- The scalar type of this name. -/
def ofName? (name : String) : Option Scalar := all.find? (·.name = name)

/-- **A scalar type is known by its name.** -/
theorem ofName?_eq_some_iff {n : String} {s : Scalar} : ofName? n = some s ↔ s.name = n := by
  constructor
  · intro h
    simpa using List.find?_some h
  · rintro rfl
    cases s <;> rfl

@[simp] theorem ofName?_name (s : Scalar) : ofName? s.name = some s := ofName?_eq_some_iff.2 rfl

end Scalar

/-- A type of SQL values: a scalar type, or the arrays whose elements are of one type. -/
inductive SqlType
  | scalar (s : Scalar)
  | array (element : SqlType)
  deriving DecidableEq

/-- The name of the array constructor. -/
def arrayName : String := "array"

theorem Scalar.name_ne_arrayName (s : Scalar) : s.name ≠ arrayName := by cases s <;> decide

namespace SqlType

/-- The type of a literal without a type of its own. -/
abbrev undefined : SqlType := scalar .undefined

/-- The stable number of the type; all array types share one. -/
def id : SqlType → Nat
  | scalar s => s.id
  | array _ => 100

/-- The name of the type, the element type of an array left out. -/
def name : SqlType → String
  | scalar s => s.name
  | array _ => arrayName

/-- The rank of the type; all array types share one. -/
def rank : SqlType → Nat
  | scalar s => s.rank
  | array _ => 60

/-- `a` outranks `b` if it is preferred where the two meet. -/
def outranks (a b : SqlType) : Bool := b.rank < a.rank

/-- The element type of an array type. -/
def element? : SqlType → Option SqlType
  | scalar _ => none
  | array t => some t

/-- The written form of the type: an array type names its element type in parentheses. -/
def render : SqlType → String
  | scalar s => s.name
  | array t => arrayName ++ "(" ++ t.render ++ ")"

instance : ToString SqlType := ⟨render⟩

end SqlType

end Overloading
