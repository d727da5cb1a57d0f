/-! # JSON values

The data format in which types and signatures are shipped. Numbers are whole, as nothing that is
shipped holds other ones. The functions here take a value apart and fail on a value of another form.
-/

namespace Overloading

/-- A JSON value. The members of an object keep their order. -/
inductive Json
  | null
  | bool (b : Bool)
  | num (n : Int)
  | str (s : String)
  | arr (elements : List Json)
  | obj (members : List (String × Json))
  deriving Inhabited

namespace Json

/-- The truth value that this is. -/
def bool? : Json → Option Bool
  | bool b => some b
  | _ => none

/-- The text that this is. -/
def str? : Json → Option String
  | str s => some s
  | _ => none

/-- The text that this is, or no text if this is `null`. -/
def nullableStr? : Json → Option (Option String)
  | null => some none
  | str s => some (some s)
  | _ => none

/-- The elements of this array, each of them read by `f`. -/
def list? {α : Type} (f : Json → Option α) : Json → Option (List α)
  | arr js => js.mapM f
  | _ => none

/-- The members of this object. -/
def members? : Json → Option (List (String × Json))
  | obj ms => some ms
  | _ => none

/-- The member of this key, of several the first. What is written has one member of each key, and
only the written form is meant to be read. -/
def member? (key : String) : List (String × Json) → Option Json
  | [] => none
  | (k, j) :: ms => if k = key then some j else member? key ms

/-- The text, or `null` without one. -/
def ofNullableStr : Option String → Json
  | none => null
  | some s => str s

@[simp] theorem nullableStr?_ofNullableStr : ∀ s : Option String,
    nullableStr? (ofNullableStr s) = some s
  | none => rfl
  | some _ => rfl

/-- **An array of values is read back if each value is.** -/
theorem list?_arr_map {α : Type} {f : Json → Option α} {g : α → Json}
    (h : ∀ x, f (g x) = some x) (xs : List α) : list? f (arr (xs.map g)) = some xs := by
  rw [list?]
  induction xs with
  | nil => rfl
  | cons x xs ih => rw [List.map_cons, List.mapM_cons, h, ih]; rfl

end Json

end Overloading
