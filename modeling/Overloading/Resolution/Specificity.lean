import Overloading.Binding.Basic
import Overloading.Resolution.Instantiation

/-! # Specificity

Several overloads may fit one call when arguments may change their types. `mostSpecific` narrows
them down in three steps. The first keeps those that leave most arguments as they are, the second
those that no other overload is strictly narrower than; both keep whatever is `undominated`. If
several are left that agree on the result, or if no argument has a type of its own, the third takes
the one whose written form comes first. -/

namespace Overloading

/-- The elements that no element is ahead of without being behind it as well. -/
def undominated {α : Type} (ahead : α → α → Bool) (xs : List α) : List α :=
  xs.filter fun x => !xs.any fun y => ahead y x && !ahead x y

theorem mem_undominated {α : Type} {ahead : α → α → Bool} {xs : List α} {x : α} :
    x ∈ undominated ahead xs ↔ x ∈ xs ∧ ∀ y ∈ xs, ahead y x = true → ahead x y = true := by
  simp [undominated]

theorem undominated_sublist {α : Type} (ahead : α → α → Bool) (xs : List α) :
    (undominated ahead xs).Sublist xs :=
  List.filter_sublist

namespace Instantiation

/-- The number of arguments that keep their types. -/
def kept (actual : List TypeTerm) (i : Instantiation) : Nat :=
  (i.bound.args.zip actual).countP fun p => p.1 = p.2

/-- `i` is narrower than `j`, not necessarily strictly: `j` admits the arguments of `i` after
promotion, and `i` declares at least as many. -/
def narrower (i j : Instantiation) : Bool :=
  (j.declared.solve? .promotion i.bound.args).isSome &&
    j.declared.args.length ≤ i.declared.args.length

/-- Whether the results are all of one type. -/
def sameResult : List Instantiation → Bool
  | [] => false
  | i :: is =>
    match i.bound.ret.denote with
    | .ok t => is.all fun j => j.bound.ret.denote.toOption = some t
    | .error _ => false

/-- The instantiations that keep most arguments and, of these, those that are narrowest. -/
def reduce (actual : List TypeTerm) (is : List Instantiation) : List Instantiation :=
  undominated narrower (undominated (fun i j => j.kept actual < i.kept actual) is)

/-- If it does not matter which instantiation is taken, the foremost one; otherwise all of them. It
does not matter if the results are of one type, or if no argument has a type of its own. -/
def breakTie (types : List SqlType) (is : List Instantiation) : List Instantiation :=
  if sameResult is || types.all SqlType.isUndefined then (foremost? is).toList else is

/-- The instantiations that fit a call with arguments of these types best: one if there is a best
one, several if there is no reason to choose. -/
def mostSpecific (types : List SqlType) (is : List Instantiation) : List Instantiation :=
  breakTie types (reduce (types.map SqlType.toTerm) is)

theorem reduce_sublist (actual : List TypeTerm) (is : List Instantiation) :
    (reduce actual is).Sublist is :=
  (undominated_sublist _ _).trans (undominated_sublist _ _)

theorem mem_of_mem_breakTie {types : List SqlType} {is : List Instantiation} {i : Instantiation}
    (h : i ∈ breakTie types is) : i ∈ is := by
  unfold breakTie at h
  split at h
  · exact mem_of_foremost? (Option.mem_toList.1 h)
  · exact h

theorem mem_of_mem_mostSpecific {types : List SqlType} {is : List Instantiation} {i : Instantiation}
    (h : i ∈ mostSpecific types is) : i ∈ is :=
  (reduce_sublist _ is).subset (mem_of_mem_breakTie h)

end Instantiation

end Overloading
