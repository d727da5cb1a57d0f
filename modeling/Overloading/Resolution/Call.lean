import Overloading.Resolution.Basic

/-! # Calls in a plan

A plan holds calls that are still to be resolved by their names, and calls that are pinned to the
signature they were resolved to, so that they mean the same under another search path. -/

namespace Overloading

/-- A call with the types of its arguments: one that is still to be resolved by its name, or one
that is pinned to a signature, with the type of its result. -/
inductive Call
  | named (name : FunctionName) (args : List SqlType)
  | pinned (signature : Signature) (args : List SqlType) (ret : SqlType)
  deriving DecidableEq

namespace Call

/-- The name of the function that is called. -/
def name : Call → FunctionName
  | named n _ => n
  | pinned s _ _ => s.name

/-- The types of the arguments. -/
def args : Call → List SqlType
  | named _ args => args
  | pinned _ args _ => args

/-- The type of the result, `undefined` until the call is pinned. -/
def ret : Call → SqlType
  | named _ _ => .undefined
  | pinned _ _ ret => ret

/-- The call pinned to what it was resolved to, if all types are known. -/
def pin? (i : Instantiation) : Option Call :=
  match TypeTerm.types? i.bound.args, i.bound.ret.denote with
  | some args, .ok ret => some (pinned i.declared args ret)
  | _, _ => none

end Call

/-- The function that the call means. -/
def Registry.resolveCall (r : Registry) (p : SearchPath) :
    Call → Except ResolutionError Instantiation
  | .named n args => r.resolve n args p
  | .pinned s args ret => r.resolveSignature s args ret

end Overloading
