import Overloading.Signature.Basic

/-! # Overloads

An overload is a signature together with the origin of the function behind it: built in, or defined
by a user in some language. -/

namespace Overloading

/-- Where a function comes from. These are the two standard ways to make a function from its
signatures; makers of other kinds are left out. A call is resolved by the signatures alone, and the
origin is handed on with the overload. -/
inductive Origin
  | builtin
  | userDefined (language definition : String)
  deriving DecidableEq

/-- A function that may be called under its name. -/
structure Overload where
  signature : Signature
  origin : Origin := .builtin
  deriving DecidableEq

/-- The name under which the overload may be called. -/
abbrev Overload.name (o : Overload) : FunctionName := o.signature.name

end Overloading
