import Overloading.Signature.Basic

/-! # Resolution errors

A call that cannot be resolved is reported with the signatures it could have chosen from. -/

namespace Overloading

/-- Why a call was not resolved: no signature of the name fits the types of the arguments better
than all others, or the signature that the call asks for is not known. -/
inductive ResolutionError
  | unknownFunction (name : FunctionName) (args : List SqlType) (candidates : List Signature)
  | signatureNotFound (signature : Signature)
  deriving DecidableEq

namespace ResolutionError

/-- The signatures that the call could have chosen from, in order. -/
def candidates : ResolutionError → List Signature
  | unknownFunction _ _ ss => ss
  | signatureNotFound _ => []

/-- What is said of the candidates, if there are any. -/
def candidatesMessage (args : List String) : List Signature → String
  | [] => ""
  | ss =>
    (if args.isEmpty then "."
      else ", no overload found for matching argument types: (" ++ ", ".intercalate args ++ ").") ++
    " Possible candidates: " ++ ", ".intercalate (ss.map Signature.render)

/-- What the error says to a reader. -/
def message : ResolutionError → String
  | unknownFunction name args ss =>
    let texts := args.map SqlType.render
    "Unknown function: " ++ name.renderCall texts ++ candidatesMessage texts ss
  | signatureNotFound s => "Unknown function signature: " ++ s.render

end ResolutionError

end Overloading
