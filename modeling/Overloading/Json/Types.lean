import Overloading.Json.Value
import Overloading.TypeTerm.Basic

/-! # Types and type terms as JSON

A scalar type is its tag, an array type an object with the key `Array`. A type term is an object
with the key `Variable` or `Type`. A value that was written is read back (`SqlType.ofJson?_toJson`,
`TypeTerm.ofJson?_toJson`). -/

namespace Overloading

namespace Scalar

/-- The name of the type in the format. -/
def tag : Scalar → String
  | undefined => "Undefined"
  | boolean => "Boolean"
  | byte => "Byte"
  | smallint => "Short"
  | integer => "Integer"
  | bigint => "Long"
  | real => "Float"
  | double => "Double"
  | numeric => "Numeric"
  | text => "Text"
  | date => "Date"
  | timestamp => "Timestamp"
  | timestamptz => "TimestampTz"
  | interval => "Interval"
  | ip => "Ip"
  | geoPoint => "GeoPoint"
  | object => "Object"

/-- The scalar type with this tag. -/
def ofTag? (tag : String) : Option Scalar := all.find? (·.tag = tag)

@[simp] theorem ofTag?_tag (s : Scalar) : ofTag? s.tag = some s := by cases s <;> rfl

end Scalar

namespace SqlType

/-- The type as JSON. -/
def toJson : SqlType → Json
  | scalar s => .str s.tag
  | array t => .obj [("Array", t.toJson)]

/-- The type that this JSON value stands for. Only the written form is read: a tag stands alone and
not as the key of an object that holds `null`, and no array takes the place of an object. -/
def ofJson? : Json → Option SqlType
  | .str s => (Scalar.ofTag? s).map scalar
  | .obj [(key, j)] => if key = "Array" then (ofJson? j).map array else none
  | _ => none

@[simp] theorem ofJson?_toJson : ∀ t : SqlType, ofJson? t.toJson = some t
  | scalar s => by simp [toJson, ofJson?]
  | array t => by simp [toJson, ofJson?, ofJson?_toJson t]

end SqlType

namespace TypeTerm

mutual

/-- The term as JSON. -/
def toJson : TypeTerm → Json
  | var v => .obj [("Variable", .str v)]
  | app n ps => .obj [("Type", .obj [("base", .str n), ("parameters", .arr (toJsonAll ps))])]

/-- The terms of a list as JSON. -/
def toJsonAll : List TypeTerm → List Json
  | [] => []
  | p :: ps => p.toJson :: toJsonAll ps

end

mutual

/-- The term that this JSON value stands for. -/
def ofJson? : Json → Option TypeTerm
  | .obj [(key, .str v)] => if key = "Variable" then some (var v) else none
  | .obj [(key, .obj ms)] =>
    if key = "Type" then
      match (Json.member? "base" ms).bind Json.str?, params? ms with
      | some n, some ps => some (app n ps)
      | _, _ => none
    else none
  | _ => none

/-- The parameters among these members. -/
def params? : List (String × Json) → Option (List TypeTerm)
  | [] => none
  | (key, .arr js) :: ms => if key = "parameters" then ofJsonAll? js else params? ms
  | (key, _) :: ms => if key = "parameters" then none else params? ms

/-- The terms that the JSON values of a list stand for. -/
def ofJsonAll? : List Json → Option (List TypeTerm)
  | [] => some []
  | j :: js =>
    match ofJson? j, ofJsonAll? js with
    | some p, some ps => some (p :: ps)
    | _, _ => none

end

mutual

/-- **A term that was written is read back.** -/
theorem ofJson?_toJson : ∀ t : TypeTerm, ofJson? t.toJson = some t
  | var v => by simp [toJson, ofJson?]
  | app n ps => by
    simp [toJson, ofJson?, params?, ofJsonAll?_toJsonAll ps, Json.member?, Json.str?]

theorem ofJsonAll?_toJsonAll : ∀ ps : List TypeTerm, ofJsonAll? (toJsonAll ps) = some ps
  | [] => rfl
  | p :: ps => by simp [toJsonAll, ofJsonAll?, ofJson?_toJson p, ofJsonAll?_toJsonAll ps]

end

end TypeTerm

end Overloading
