import Overloading.Registry.Basic
import Overloading.Resolution.Error
import Overloading.Resolution.Tier

/-! # Resolution of calls

A call that gives a name is resolved among the candidates of that name (`Registry.resolve`). A call
that gives the very signature it means is only looked up (`Registry.resolveSignature`). -/

namespace Overloading

namespace Registry

/-- The function that a call of `n` with arguments of these types means. -/
def resolve (r : Registry) (n : FunctionName) (types : List SqlType) (p : SearchPath) :
    Except ResolutionError Instantiation :=
  let os := r.candidates n p
  match Overload.select? types os with
  | some i => .ok i
  | none => .error (.unknownFunction n types (os.map (·.signature)))

/-- The function with the signature `s`, at a call where all types are known. -/
def resolveSignature (r : Registry) (s : Signature) (types : List SqlType) (ret : SqlType) :
    Except ResolutionError Instantiation :=
  match r.find? s with
  | some o => .ok (o.instantiate types ret)
  | none => .error (.signatureNotFound s)

theorem resolve_eq_ok_iff {r : Registry} {n : FunctionName} {types : List SqlType} {p : SearchPath}
    {i : Instantiation} :
    r.resolve n types p = .ok i ↔ Overload.select? types (r.candidates n p) = some i := by
  unfold resolve
  cases h : Overload.select? types (r.candidates n p) with
  | none => simp [h]
  | some j => simp [h]

theorem resolve_eq_error_iff {r : Registry} {n : FunctionName} {types : List SqlType}
    {p : SearchPath} {e : ResolutionError} :
    r.resolve n types p = .error e ↔ Overload.select? types (r.candidates n p) = none ∧
      e = .unknownFunction n types ((r.candidates n p).map (·.signature)) := by
  unfold resolve
  cases h : Overload.select? types (r.candidates n p) with
  | none => simp [h, eq_comm]
  | some j => simp [h]

end Registry

end Overloading
