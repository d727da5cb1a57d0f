import Overloading.SqlType.Facet

/-! # Type variables and binding rules

A signature comes with rules for its type variables: which types each of them may stand for, and
whether arguments may change their type at all. Of several rules for one variable the first counts
(`lookup`), and `declare` adds no second one. -/

namespace Overloading

/-- Which types a variable may stand for. -/
inductive VariableKind
  | any | numeric
  deriving DecidableEq

/-- A type variable with the types it may stand for. -/
structure TypeVariable where
  name : String
  kind : VariableKind := .any
  deriving DecidableEq

/-- Whether the variable may stand for the type. A numeric variable may stand for `undefined` too,
which a later argument can still make a number. -/
def TypeVariable.admits (v : TypeVariable) (t : SqlType) : Bool :=
  match v.kind with
  | .any => true
  | .numeric => t.isNumeric || t.isUndefined

/-- The rules that a signature sets for binding it to arguments. -/
structure BindingRules where
  vars : List TypeVariable := []
  coercible : Bool := true
  deriving DecidableEq

namespace BindingRules

/-- Rules without variables: the signature fits as it is written or not at all. -/
def isExact (r : BindingRules) : Bool := r.vars.isEmpty

/-- The rule for the variable named `v`. -/
def lookup (r : BindingRules) (v : String) : Option TypeVariable :=
  r.vars.find? (·.name = v)

/-- Whether the variable named `v` may stand for the type; without a rule it may. -/
def admits (r : BindingRules) (v : String) (t : SqlType) : Bool :=
  (r.lookup v).all (·.admits t)

/-- The rules with one more variable, unless there is a rule of that name. -/
def declare (r : BindingRules) (v : TypeVariable) : BindingRules :=
  match r.lookup v.name with
  | some _ => r
  | none => { r with vars := r.vars ++ [v] }

theorem lookup_eq_none_iff {r : BindingRules} {v : String} :
    r.lookup v = none ↔ v ∉ r.vars.map (·.name) := by
  simp [lookup]

/-- Declaring keeps the names distinct. -/
theorem nodup_declare {r : BindingRules} (h : (r.vars.map (·.name)).Nodup) (v : TypeVariable) :
    ((r.declare v).vars.map (·.name)).Nodup := by
  unfold declare
  split
  · exact h
  · rename_i hv
    rw [lookup_eq_none_iff] at hv
    simpa [List.nodup_append, h] using hv

@[simp] theorem coercible_declare (r : BindingRules) (v : TypeVariable) :
    (r.declare v).coercible = r.coercible := by
  unfold declare
  split <;> rfl

end BindingRules

end Overloading
