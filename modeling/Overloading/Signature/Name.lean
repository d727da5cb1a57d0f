/-! # Function names

A function name is qualified by a schema or not. Names are ordered by their schema, the unqualified
ones first, and then by the name in the schema; texts are ordered by their code points. The order is
total and two names that are equal in it are the same (the instances `TransOrd` and `LawfulEqOrd`).
-/

namespace Overloading

/-- A function name, in a schema or without one. -/
structure FunctionName where
  schema : Option String := none
  name : String
  deriving DecidableEq

namespace FunctionName

/-- Whether the name says in which schema to look. -/
def isQualified (n : FunctionName) : Bool := n.schema.isSome

/-- The same name in the schema `s`. -/
def inSchema (n : FunctionName) (s : String) : FunctionName := ⟨some s, n.name⟩

/-- The written form of the name: the schema, if there is one, comes first and ends with a dot. -/
def render (n : FunctionName) : String :=
  match n.schema with
  | some s => s ++ "." ++ n.name
  | none => n.name

instance : ToString FunctionName := ⟨render⟩

/-- The written form of the name applied to arguments. -/
def renderCall (n : FunctionName) (args : List String) : String :=
  n.render ++ "(" ++ ", ".intercalate args ++ ")"

instance : Ord FunctionName := ⟨compareLex (compareOn schema) (compareOn name)⟩

instance : Std.TransOrd FunctionName :=
  inferInstanceAs (Std.TransCmp (compareLex (compareOn schema) (compareOn name)))

instance : Std.LawfulEqOrd FunctionName where
  eq_of_compare {a b} h := by
    have h' : compare a.schema b.schema = .eq ∧ compare a.name b.name = .eq := by
      simpa only [compare, compareLex, compareOn, Ordering.then_eq_eq] using h
    cases a
    cases b
    cases Std.LawfulEqOrd.eq_of_compare h'.1
    cases Std.LawfulEqOrd.eq_of_compare h'.2
    rfl

/-- Whether `a` may stand before `b` in a sorted list. -/
def le (a b : FunctionName) : Bool := (compare a b).isLE

theorem le_trans (a b c : FunctionName) (hab : a.le b = true) (hbc : b.le c = true) :
    a.le c = true :=
  Std.TransCmp.isLE_trans hab hbc

theorem le_total (a b : FunctionName) : (a.le b || b.le a) = true := by
  rw [le, le, Std.OrientedOrd.eq_swap (a := b)]
  cases compare a b <;> rfl

/-- The names in their order, repeats included. -/
def sort (ns : List FunctionName) : List FunctionName := ns.mergeSort le

theorem sort_perm (ns : List FunctionName) : (sort ns).Perm ns := List.mergeSort_perm ns le

theorem pairwise_sort (ns : List FunctionName) : (sort ns).Pairwise fun a b => a.le b = true :=
  List.pairwise_mergeSort le_trans le_total ns

end FunctionName

end Overloading
