import Overloading.Signature.Basic

/-! # Declarations

A function is declared by a list of clauses, read from left to right: a later clause for the
arguments or the result replaces an earlier one, the other clauses add up. `declare` completes what
the clauses say: every type variable that the terms mention gets a rule, and without arguments there
is none that could stand for many. -/

namespace Overloading

/-- One clause of the declaration of a function: the terms of its arguments or of its result, that
the last argument stands for any number, what a type variable may stand for, or that no argument may
change its type. -/
inductive Clause
  | arguments (args : List TypeTerm)
  | returns (ret : TypeTerm)
  | variadic
  | typeVariable (v : TypeVariable)
  | exact
  deriving DecidableEq

namespace Signature

/-- One step through the clauses. -/
def add (s : Signature) : Clause → Signature
  | .arguments args => { s with args }
  | .returns ret => { s with ret }
  | .variadic => { s with variadic := true }
  | .typeVariable v => { s with rules := s.rules.declare v }
  | .exact => { s with rules := { s.rules with coercible := false } }

/-- The variables of the argument terms and then of the result, repeats included. -/
def vars (s : Signature) : List String := s.args.flatMap TypeTerm.vars ++ s.ret.vars

/-- The signature with a rule for each of its variables, and variadic only if it has arguments. -/
def complete (s : Signature) : Signature :=
  { s with
    variadic := s.variadic && !s.args.isEmpty
    rules := s.vars.foldl (fun r v => r.declare ⟨v, .any⟩) s.rules }

/-- The signature of the function that these clauses declare. Clauses that make a function without
arguments variadic are not refused, as where assertions are switched off: they make it one that is
not variadic. -/
def declare (name : FunctionName) (kind : FunctionKind) (clauses : List Clause) : Signature :=
  (clauses.foldl add { name, kind }).complete

end Signature

end Overloading
