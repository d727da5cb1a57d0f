import Overloading.TypeTerm.Denotation

/-! # Assignments

An assignment gives types to some type variables, one type to each. `get?` reads it, `set` changes
it at one variable (`get?_set`) and `fill` gives `undefined` to the variables of a list that have no
type yet (`get?_fill`). `apply` replaces the variables of a term by the terms of their types. -/

namespace Overloading

/-- Types for some type variables. -/
structure Assignment where
  entries : List (String × SqlType) := []
  nodup : (entries.map Prod.fst).Nodup := by simp
  deriving DecidableEq

namespace Assignment

instance : EmptyCollection Assignment := ⟨{}⟩

/-- The type of the variable. -/
def get? (a : Assignment) (v : String) : Option SqlType := a.entries.lookup v

/-- The number of variables with a type. -/
def size (a : Assignment) : Nat := a.entries.length

/-- The variables with a type. -/
def vars (a : Assignment) : List String := a.entries.map Prod.fst

/-- The assignment with the type of `v` set to `t`. -/
def set (a : Assignment) (v : String) (t : SqlType) : Assignment where
  entries := (v, t) :: a.entries.filter (·.1 != v)
  nodup := by
    rw [List.map_cons, List.nodup_cons]
    exact ⟨by simp, a.nodup.sublist (List.filter_sublist.map _)⟩

/-- One step of `fill`. -/
def fillStep (a : Assignment) (v : String) : Assignment :=
  if (a.get? v).isNone then a.set v .undefined else a

/-- The assignment with `undefined` for those variables of the list that have no type. -/
def fill (a : Assignment) (vs : List String) : Assignment := vs.foldl fillStep a

/-- The term with the variables replaced that have a type. -/
def apply (a : Assignment) (t : TypeTerm) : TypeTerm :=
  t.subst fun v => (a.get? v).map SqlType.toTerm

@[simp] theorem get?_empty (v : String) : (∅ : Assignment).get? v = none := rfl

theorem lookup_filter_ne {v w : String} (h : w ≠ v) :
    ∀ es : List (String × SqlType), (es.filter (·.1 != v)).lookup w = es.lookup w
  | [] => rfl
  | (u, t) :: es => by
    rw [List.filter_cons]
    split
    · rw [List.lookup_cons, List.lookup_cons, lookup_filter_ne h es]
    · rename_i hu
      have hu : u = v := by simpa using hu
      rw [List.lookup_cons, beq_eq_false_iff_ne.2 (hu ▸ h), lookup_filter_ne h es]

theorem get?_set (a : Assignment) (v w : String) (t : SqlType) :
    (a.set v t).get? w = if w = v then some t else a.get? w := by
  rw [get?, set, List.lookup_cons]
  by_cases h : w = v
  · rw [if_pos h, beq_iff_eq.2 h]
  · rw [if_neg h, beq_eq_false_iff_ne.2 h, get?]
    exact lookup_filter_ne h a.entries

@[simp] theorem get?_set_self (a : Assignment) (v : String) (t : SqlType) :
    (a.set v t).get? v = some t := by
  rw [get?_set, if_pos rfl]

theorem get?_fillStep (a : Assignment) (v w : String) :
    (a.fillStep v).get? w = (a.get? w).or (if w = v then some .undefined else none) := by
  unfold fillStep
  by_cases h : w = v
  · subst h
    cases hw : a.get? w <;> simp [hw]
  · split <;> simp [get?_set, h]

/-- **Filling changes nothing that is there.** -/
theorem get?_fill (w : String) : ∀ (vs : List String) (a : Assignment),
    (a.fill vs).get? w = (a.get? w).or (if w ∈ vs then some .undefined else none)
  | [], a => by simp [fill]
  | v :: vs, a => by
    rw [fill, List.foldl_cons, ← fill, get?_fill w vs, get?_fillStep, Option.or_assoc]
    congr 1
    by_cases h : w = v <;> simp [h]

theorem mem_vars_iff {a : Assignment} {v : String} : v ∈ a.vars ↔ (a.get? v).isSome := by
  rw [vars, get?]
  induction a.entries with
  | nil => simp
  | cons e es ih =>
    rw [List.map_cons, List.mem_cons, List.lookup_cons, ih]
    by_cases h : v = e.1
    · rw [beq_iff_eq.2 h]
      simp [h]
    · rw [beq_eq_false_iff_ne.2 h]
      simp [h]

end Assignment

end Overloading
