import Overloading.Signature.Name

/-! # Search paths

A search path lists the schemas in which unqualified names are looked up. It is never empty, and
`pg_catalog` is searched first unless the path lists it at a place of its own (`effective`). New
objects belong to the first listed schema (`current`). -/

namespace Overloading

/-- The schema of the compatibility functions. -/
def catalogSchema : String := "pg_catalog"

/-- The schema of a session that sets none. -/
def defaultSchema : String := "doc"

/-- The schemas that a session lists. -/
structure SearchPath where
  first : String := defaultSchema
  others : List String := []
  deriving DecidableEq

namespace SearchPath

/-- The search path that lists these schemas, or the default schema if there are none. -/
def ofList : List String → SearchPath
  | [] => {}
  | s :: ss => ⟨s, ss⟩

/-- The schemas as they are listed. -/
def listed (p : SearchPath) : List String := p.first :: p.others

/-- The schemas in the order in which they are searched. -/
def effective (p : SearchPath) : List String :=
  if p.listed.contains catalogSchema then p.listed else catalogSchema :: p.listed

/-- The schema of new objects. -/
def current (p : SearchPath) : String := p.first

/-- The written form of the path: the schemas as they are listed. -/
def render (p : SearchPath) : String := ", ".intercalate p.listed

instance : ToString SearchPath := ⟨render⟩

@[simp] theorem listed_ofList {ss : List String} (h : ss ≠ []) : (ofList ss).listed = ss := by
  cases ss with
  | nil => exact absurd rfl h
  | cons s ss => rfl

@[simp] theorem ofList_listed (p : SearchPath) : ofList p.listed = p := rfl

theorem listed_injective {p q : SearchPath} (h : p.listed = q.listed) : p = q := by
  rw [← ofList_listed p, h, ofList_listed]

theorem catalogSchema_mem_effective (p : SearchPath) : catalogSchema ∈ p.effective := by
  unfold effective
  split
  · rename_i h
    simpa using h
  · exact List.mem_cons_self

end SearchPath

/-- The names under which a call of `n` may be found, in the order in which they are tried: the name
as it is given and, if it names no schema, the name in each schema of the search path. -/
def FunctionName.lookups (n : FunctionName) (p : SearchPath) : List FunctionName :=
  if n.isQualified then [n] else n :: p.effective.map n.inSchema

end Overloading
