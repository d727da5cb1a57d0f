import Overloading.Signature.Name
import Overloading.Signature.Variable
import Overloading.TypeTerm.Printer

/-! # Signatures

A signature is what a function declares: its name and kind, a type term for each argument and for
the result, and the binding rules. The last argument of a variadic signature stands for any number
of arguments (`tail?`), and `formals? n` lists one term per argument of a call with `n` arguments.
-/

namespace Overloading

/-- What a function yields, and where it may be called. -/
inductive FunctionKind
  | scalar | aggregate | table | window
  deriving DecidableEq

/-- The name of the kind. -/
def FunctionKind.label : FunctionKind → String
  | scalar => "scalar"
  | aggregate => "aggregate"
  | table => "table"
  | window => "window"

/-- The declaration of a function. -/
structure Signature where
  name : FunctionName
  kind : FunctionKind := .scalar
  args : List TypeTerm := []
  variadic : Bool := false
  ret : TypeTerm := SqlType.undefined.toTerm
  rules : BindingRules := {}
  deriving DecidableEq

namespace Signature

/-- The argument that stands for any number of arguments, if there is one. -/
def tail? (s : Signature) : Option TypeTerm := if s.variadic then s.args.getLast? else none

/-- The terms for the arguments of a call with `n` arguments, if the signature admits that many. -/
def formals? (s : Signature) (n : Nat) : Option (List TypeTerm) :=
  match s.tail? with
  | some t =>
    if s.args.length ≤ n + 1 then
      some (s.args.dropLast ++ List.replicate (n + 1 - s.args.length) t)
    else none
  | none => if s.args.length = n then some s.args else none

theorem length_formals? {s : Signature} {n : Nat} {fs : List TypeTerm}
    (h : s.formals? n = some fs) : fs.length = n := by
  unfold formals? at h
  split at h
  · rename_i t ht
    have hne : s.args ≠ [] := by
      rintro hnil
      simp [tail?, hnil] at ht
    have := List.length_pos_iff.2 hne
    split at h
    · cases h
      rw [List.length_append, List.length_dropLast, List.length_replicate]
      omega
    · cases h
  · split at h <;> simp_all

/-- The written form of the arguments; three dots follow an argument that stands for any number. -/
def renderArgs (s : Signature) : List String :=
  match s.tail? with
  | some t => s.args.dropLast.map TypeTerm.render ++ [t.render ++ "..."]
  | none => s.args.map TypeTerm.render

/-- The written form of the signature: the call that it describes, a colon and the result. -/
def render (s : Signature) : String := s.name.renderCall s.renderArgs ++ ":" ++ s.ret.render

instance : ToString Signature := ⟨render⟩

end Signature

end Overloading
