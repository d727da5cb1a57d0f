import Overloading.TypeTerm.Basic

/-! # The written form of type terms

A variable and a name without parameters stand for themselves; parameters follow their name in
parentheses, with a comma and a space between two of them (`render_app`). -/

namespace Overloading

namespace TypeTerm

mutual

/-- The written form of the term. -/
def render : TypeTerm → String
  | var v => v
  | app n ps => if ps.isEmpty then n else n ++ "(" ++ ", ".intercalate (renderAll ps) ++ ")"

/-- The written forms of all terms of a list. -/
def renderAll : List TypeTerm → List String
  | [] => []
  | p :: ps => p.render :: renderAll ps

end

instance : ToString TypeTerm := ⟨render⟩

theorem renderAll_eq_map (ps : List TypeTerm) : renderAll ps = ps.map render := by
  induction ps with
  | nil => rfl
  | cons p ps ih => rw [renderAll, ih, List.map_cons]

@[simp] theorem render_var (v : String) : (var v).render = v := rfl

@[simp] theorem render_base (n : String) : (base n).render = n := rfl

theorem render_app (n : String) {ps : List TypeTerm} (h : ps ≠ []) :
    (app n ps).render = n ++ "(" ++ ", ".intercalate (ps.map render) ++ ")" := by
  rw [render, renderAll_eq_map, if_neg (by simpa using h)]

end TypeTerm

/-- A type is written as its term is. -/
theorem SqlType.render_toTerm : ∀ t : SqlType, t.toTerm.render = t.render
  | scalar _ => rfl
  | array t => by
    rw [toTerm, TypeTerm.render_app _ (by simp), List.map_singleton, render_toTerm t, render]
    rfl

end Overloading
