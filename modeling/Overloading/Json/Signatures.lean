import Overloading.Json.Types
import Overloading.Signature.Bound

/-! # Signatures as JSON

Names, binding rules and signatures are objects with one member per field. Members with other keys
mean nothing, and a name without the member `schema` has no schema; every other member has to be
there. Reading gives back what was written (`Signature.ofJson?_toJson`,
`BoundSignature.ofJson?_toJson`). -/

namespace Overloading

namespace FunctionName

/-- The name as JSON. -/
def toJson (n : FunctionName) : Json :=
  .obj [("schema", .ofNullableStr n.schema), ("name", .str n.name)]

/-- The name that this JSON value stands for. -/
def ofJson? (j : Json) : Option FunctionName := do
  let ms ← j.members?
  let schema ← ((Json.member? "schema" ms).getD .null).nullableStr?
  let name ← (← Json.member? "name" ms).str?
  return ⟨schema, name⟩

@[simp] theorem ofJson?_toJson (n : FunctionName) : ofJson? n.toJson = some n := by
  simp [toJson, ofJson?, Json.members?, Json.member?, Json.str?]

end FunctionName

namespace FunctionKind

/-- Every kind of function. -/
def all : List FunctionKind := [scalar, aggregate, table, window]

/-- The name of the kind in the format. -/
def tag : FunctionKind → String
  | scalar => "Scalar"
  | aggregate => "Aggregate"
  | table => "Table"
  | window => "Window"

/-- The kind as JSON. -/
def toJson (k : FunctionKind) : Json := .str k.tag

/-- The kind that this JSON value stands for. -/
def ofJson? (j : Json) : Option FunctionKind := do
  let s ← j.str?
  all.find? (·.tag = s)

@[simp] theorem ofJson?_toJson (k : FunctionKind) : ofJson? k.toJson = some k := by
  cases k <;> rfl

end FunctionKind

namespace VariableKind

/-- Every kind of type variable. -/
def all : List VariableKind := [any, numeric]

/-- The name of the kind in the format. -/
def tag : VariableKind → String
  | any => "Any"
  | numeric => "Numeric"

/-- The kind as JSON. -/
def toJson (k : VariableKind) : Json := .str k.tag

/-- The kind that this JSON value stands for. -/
def ofJson? (j : Json) : Option VariableKind := do
  let s ← j.str?
  all.find? (·.tag = s)

@[simp] theorem ofJson?_toJson (k : VariableKind) : ofJson? k.toJson = some k := by
  cases k <;> rfl

end VariableKind

namespace TypeVariable

/-- The type variable as JSON. -/
def toJson (v : TypeVariable) : Json := .obj [("name", .str v.name), ("kind", v.kind.toJson)]

/-- The type variable that this JSON value stands for. -/
def ofJson? (j : Json) : Option TypeVariable := do
  let ms ← j.members?
  let name ← (← Json.member? "name" ms).str?
  let kind ← VariableKind.ofJson? (← Json.member? "kind" ms)
  return ⟨name, kind⟩

@[simp] theorem ofJson?_toJson (v : TypeVariable) : ofJson? v.toJson = some v := by
  simp [toJson, ofJson?, Json.members?, Json.member?, Json.str?]

end TypeVariable

namespace BindingRules

/-- The rules as JSON. -/
def toJson (r : BindingRules) : Json :=
  .obj [("type_variable_constraints", .arr (r.vars.map TypeVariable.toJson)),
    ("coercion_allowed", .bool r.coercible)]

/-- The rules that this JSON value stands for. -/
def ofJson? (j : Json) : Option BindingRules := do
  let ms ← j.members?
  let vars ← (← Json.member? "type_variable_constraints" ms).list? TypeVariable.ofJson?
  let coercible ← (← Json.member? "coercion_allowed" ms).bool?
  return ⟨vars, coercible⟩

@[simp] theorem ofJson?_toJson (r : BindingRules) : ofJson? r.toJson = some r := by
  show (Json.list? TypeVariable.ofJson? (.arr (r.vars.map TypeVariable.toJson))).bind
    (fun vs => some ⟨vs, r.coercible⟩) = some r
  rw [Json.list?_arr_map TypeVariable.ofJson?_toJson, Option.bind_some]

end BindingRules

namespace Signature

/-- The signature as JSON. -/
def toJson (s : Signature) : Json :=
  .obj [("name", s.name.toJson), ("kind", s.kind.toJson),
    ("argument_types", .arr (s.args.map TypeTerm.toJson)), ("variable_arity", .bool s.variadic),
    ("return_type", s.ret.toJson), ("binding_info", s.rules.toJson)]

/-- The signature that this JSON value stands for. -/
def ofJson? (j : Json) : Option Signature := do
  let ms ← j.members?
  let name ← FunctionName.ofJson? (← Json.member? "name" ms)
  let kind ← FunctionKind.ofJson? (← Json.member? "kind" ms)
  let args ← (← Json.member? "argument_types" ms).list? TypeTerm.ofJson?
  let variadic ← (← Json.member? "variable_arity" ms).bool?
  let ret ← TypeTerm.ofJson? (← Json.member? "return_type" ms)
  let rules ← BindingRules.ofJson? (← Json.member? "binding_info" ms)
  return ⟨name, kind, args, variadic, ret, rules⟩

/-- **A signature that was written is read back.** -/
@[simp] theorem ofJson?_toJson (s : Signature) : ofJson? s.toJson = some s := by
  show (FunctionName.ofJson? s.name.toJson).bind (fun n =>
    (FunctionKind.ofJson? s.kind.toJson).bind fun k =>
    (Json.list? TypeTerm.ofJson? (.arr (s.args.map TypeTerm.toJson))).bind fun as =>
    (TypeTerm.ofJson? s.ret.toJson).bind fun t =>
    (BindingRules.ofJson? s.rules.toJson).bind fun r =>
      some ⟨n, k, as, s.variadic, t, r⟩) = some s
  simp only [FunctionName.ofJson?_toJson, FunctionKind.ofJson?_toJson, TypeTerm.ofJson?_toJson,
    BindingRules.ofJson?_toJson, Json.list?_arr_map TypeTerm.ofJson?_toJson, Option.bind_some]

end Signature

namespace BoundSignature

/-- The bound signature as JSON. -/
def toJson (b : BoundSignature) : Json :=
  .obj [("name", b.name.toJson), ("kind", b.kind.toJson),
    ("argument_types", .arr (b.args.map TypeTerm.toJson)), ("return_type", b.ret.toJson)]

/-- The bound signature that this JSON value stands for. -/
def ofJson? (j : Json) : Option BoundSignature := do
  let ms ← j.members?
  let name ← FunctionName.ofJson? (← Json.member? "name" ms)
  let kind ← FunctionKind.ofJson? (← Json.member? "kind" ms)
  let args ← (← Json.member? "argument_types" ms).list? TypeTerm.ofJson?
  let ret ← TypeTerm.ofJson? (← Json.member? "return_type" ms)
  return ⟨name, kind, args, ret⟩

/-- **A bound signature that was written is read back.** -/
@[simp] theorem ofJson?_toJson (b : BoundSignature) : ofJson? b.toJson = some b := by
  show (FunctionName.ofJson? b.name.toJson).bind (fun n =>
    (FunctionKind.ofJson? b.kind.toJson).bind fun k =>
    (Json.list? TypeTerm.ofJson? (.arr (b.args.map TypeTerm.toJson))).bind fun as =>
    (TypeTerm.ofJson? b.ret.toJson).bind fun t => some ⟨n, k, as, t⟩) = some b
  simp only [FunctionName.ofJson?_toJson, FunctionKind.ofJson?_toJson, TypeTerm.ofJson?_toJson,
    Json.list?_arr_map TypeTerm.ofJson?_toJson, Option.bind_some]

end BoundSignature

end Overloading
