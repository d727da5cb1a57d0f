import Overloading.Signature.Basic

/-! # Bound signatures

A bound signature is what a signature becomes at one call: one term per argument of the call, and
types in the place of its type variables. -/

namespace Overloading

/-- A signature at one call. That no variable is left in its terms is for those who make it to see
to and is not asserted here: binding leaves none, and a call may be pinned to types only. -/
structure BoundSignature where
  name : FunctionName
  kind : FunctionKind
  args : List TypeTerm
  ret : TypeTerm
  deriving DecidableEq

namespace BoundSignature

/-- The signature `s` at a call where all types are known. -/
def ofTypes (s : Signature) (args : List SqlType) (ret : SqlType) : BoundSignature :=
  ⟨s.name, s.kind, args.map SqlType.toTerm, ret.toTerm⟩

/-- The written form of the bound signature. -/
def render (b : BoundSignature) : String :=
  b.name.renderCall (b.args.map TypeTerm.render) ++ ":" ++ b.ret.render

instance : ToString BoundSignature := ⟨render⟩

end BoundSignature

end Overloading
