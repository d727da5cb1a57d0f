import Overloading.Registry.Table
import Overloading.Signature.Oid

/-! # The registry

The registry holds two tables: the overloads that are built in and never change, and those that
users define, which are replaced one schema at a time (`registerSchema`). A call looks for its name
in the first table, and in the second only if no name that it may mean is in the first
(`candidates`). -/

namespace Overloading

/-- The functions that may be called. -/
structure Registry where
  builtins : Table := ∅
  userDefined : Table := ∅
  deriving DecidableEq

namespace Registry

/-- The registry in which these overloads take the place of the user-defined ones of the schema.
Overloads with names in other schemas are added to what is there. -/
def registerSchema (r : Registry) (s : String) (os : List Overload) : Registry :=
  { r with userDefined := (r.userDefined.dropSchema s).insertAll os }

/-- The registry without the user-defined overloads of the schema. -/
def deregisterSchema (r : Registry) (s : String) : Registry := r.registerSchema s []

/-- The overloads of exactly this name, the ones that are built in first. -/
def group (r : Registry) (n : FunctionName) : List Overload :=
  r.builtins.group n ++ r.userDefined.group n

/-- The overloads that a call of `n` chooses from. -/
def candidates (r : Registry) (n : FunctionName) (p : SearchPath) : List Overload :=
  match r.builtins.candidates n p with
  | [] => r.userDefined.candidates n p
  | os => os

/-- The overload with this signature; the ones that are built in come first. -/
def find? (r : Registry) (s : Signature) : Option Overload :=
  (r.builtins.find? s).or (r.userDefined.find? s)

/-- The signature with this number; user-defined functions come first. -/
def findByOid? (r : Registry) (oid : Int32) : Option Signature :=
  ((r.userDefined.overloads ++ r.builtins.overloads).map (·.signature)).find? (·.oid = oid)

/-- A line that counts the names in both tables. -/
def summary (r : Registry) : String :=
  "Functions \x7b builtins: " ++ toString r.builtins.names.length ++ ", udfs: " ++
    toString r.userDefined.names.length ++ " \x7d"

end Registry

end Overloading
