import Overloading.Registry.Basic
import Overloading.Signature.Declaration

/-! # The catalog

The functions that are always there. They have no schema, but for the compatibility functions, which
are found through the search path. -/

namespace Overloading

namespace Catalog

/-- The term of a scalar type. -/
def type (s : Scalar) : TypeTerm := (SqlType.scalar s).toTerm

/-- The term of the arrays with these elements. -/
def arrayOf (t : TypeTerm) : TypeTerm := .app arrayName [t]

/-- A function without a schema. -/
def function (kind : FunctionKind) (name : String) (clauses : List Clause) : Signature :=
  .declare { name } kind clauses

/-- The functions on single values. -/
def scalars : List Signature :=
  [function .scalar "concat" [.arguments [type .text, type .text], .returns (type .text)],
    function .scalar "concat" [.arguments [type .text], .variadic, .returns (type .text)],
    function .scalar "concat"
      [.arguments [arrayOf (.var "E"), arrayOf (.var "E")], .returns (arrayOf (.var "E"))],
    function .scalar "abs"
      [.arguments [.var "N"], .returns (.var "N"), .typeVariable ⟨"N", .numeric⟩],
    function .scalar "coalesce" [.arguments [.var "E"], .variadic, .returns (.var "E")],
    function .scalar "substr" [.arguments [type .text, type .integer], .returns (type .text)],
    function .scalar "substr"
      [.arguments [type .text, type .integer, type .integer], .returns (type .text)],
    function .scalar "array_cat"
      [.arguments [arrayOf (.var "E"), arrayOf (.var "E")], .returns (arrayOf (.var "E"))],
    function .scalar "now" [.returns (type .timestamptz)],
    function .scalar "date_trunc"
      [.arguments [type .text, type .timestamptz], .returns (type .timestamptz)],
    function .scalar "date_trunc"
      [.arguments [type .text, type .timestamp], .returns (type .timestamp)],
    function .scalar "to_char"
      [.arguments [type .timestamp, type .text], .returns (type .text), .exact]]

/-- The functions on groups of values. Sums of whole numbers are `bigint`; the other sums keep the
type of what they add. -/
def aggregates : List Signature :=
  [function .aggregate "count" [.returns (type .bigint)],
    function .aggregate "count" [.arguments [.var "V"], .returns (type .bigint)],
    function .aggregate "sum" [.arguments [type .integer], .returns (type .bigint)],
    function .aggregate "sum" [.arguments [type .bigint], .returns (type .bigint)],
    function .aggregate "sum" [.arguments [type .real], .returns (type .real)],
    function .aggregate "sum" [.arguments [type .double], .returns (type .double)],
    function .aggregate "sum" [.arguments [type .numeric], .returns (type .numeric)],
    function .aggregate "avg" [.arguments [type .double], .returns (type .double)],
    function .aggregate "avg" [.arguments [type .numeric], .returns (type .numeric)]]

/-- The functions that yield rows. -/
def tables : List Signature :=
  [function .table "generate_series"
    [.arguments [type .bigint, type .bigint], .returns (type .bigint)]]

/-- The functions that look at neighbouring rows. -/
def windows : List Signature := [function .window "row_number" [.returns (type .integer)]]

/-- The compatibility functions. -/
def compatibility : List Signature :=
  [.declare ⟨some catalogSchema, "format_type"⟩ .scalar
    [.arguments [type .integer, type .integer], .returns (type .text)]]

/-- The signatures of the catalog. -/
def signatures : List Signature := scalars ++ aggregates ++ tables ++ windows ++ compatibility

/-- The overloads of the catalog. -/
def overloads : List Overload := signatures.map fun s => ⟨s, .builtin⟩

/-- The registry that holds the catalog and nothing else. -/
def registry : Registry := { builtins := .ofList overloads }

end Catalog

end Overloading
