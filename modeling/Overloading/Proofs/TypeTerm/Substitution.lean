import Mathlib.Data.List.Basic
import Overloading.TypeTerm.Basic

/-! # Substitution

A substitution meets a term at its variables and nowhere else: two of them make the same of a term
exactly if they make the same of each of its variables (`TypeTerm.subst_eq_subst_iff`). A term stays
as it is if none of its variables has a replacement, above all if it has no variables.

What is put in the place of a variable is not looked at again. So the variables of the outcome are
those of the replacements, in order (`TypeTerm.vars_subst`), and two substitutions in turn are one:
the first, with the second carried out in its replacements and on the variables that it keeps
(`TypeTerm.subst_subst`). -/

namespace Overloading

namespace TypeTerm

variable {f g : String → Option TypeTerm} {t : TypeTerm}

theorem isOpen_eq_false_iff : t.isOpen = false ↔ t.vars = [] := by
  induction t with
  | var v => simp
  | app n ps ih =>
    rw [isOpen_app, vars_app, List.any_eq_false, List.flatMap_eq_nil_iff]
    refine forall₂_congr fun p hp => ?_
    rw [← ih p hp, Bool.not_eq_true]

/-! ### Where a substitution acts -/

/-- **The variables of a term count, and each of them does.** -/
theorem subst_eq_subst_iff :
    t.subst f = t.subst g ↔ ∀ v ∈ t.vars, (f v).getD (var v) = (g v).getD (var v) := by
  induction t with
  | var v => simp
  | app n ps ih =>
    rw [subst_app, subst_app, app.injEq, vars_app, List.map_inj_left, List.forall_mem_flatMap]
    simp only [true_and]
    exact forall₂_congr ih

theorem subst_congr (h : ∀ v ∈ t.vars, f v = g v) : t.subst f = t.subst g :=
  subst_eq_subst_iff.2 fun v hv => by rw [h v hv]

theorem subst_none (t : TypeTerm) : t.subst (fun _ => none) = t := by
  induction t with
  | var v => rfl
  | app n ps ih => rw [subst_app, List.map_congr_left ih, List.map_id']

theorem subst_eq_self (h : ∀ v ∈ t.vars, f v = none) : t.subst f = t :=
  (subst_congr h).trans (subst_none t)

theorem subst_of_isOpen_eq_false (h : t.isOpen = false) : t.subst f = t := by
  refine subst_eq_self fun v hv => ?_
  simp [isOpen_eq_false_iff.1 h] at hv

/-! ### What a substitution leaves behind -/

/-- The variables of a term after a substitution are those of the replacements, in order. -/
theorem vars_subst (f : String → Option TypeTerm) (t : TypeTerm) :
    (t.subst f).vars = t.vars.flatMap fun v => ((f v).getD (var v)).vars := by
  induction t with
  | var v => simp
  | app n ps ih =>
    rw [subst_app, vars_app, vars_app, List.flatMap_map, List.flatMap_assoc]
    exact List.flatMap_congr ih

/-- The replacements of `f` after `g` was carried out in them, and those of `g` for the variables
that `f` keeps. -/
def andThen (f g : String → Option TypeTerm) (v : String) : Option TypeTerm :=
  match f v with
  | some u => some (u.subst g)
  | none => g v

theorem getD_andThen (f g : String → Option TypeTerm) (v : String) :
    (andThen f g v).getD (var v) = ((f v).getD (var v)).subst g := by
  unfold andThen
  cases f v with
  | some u => rfl
  | none => rfl

/-- **Two substitutions in turn are one.** -/
theorem subst_subst (f g : String → Option TypeTerm) (t : TypeTerm) :
    (t.subst f).subst g = t.subst (andThen f g) := by
  induction t with
  | var v => rw [subst_var, subst_var, getD_andThen]
  | app n ps ih =>
    rw [subst_app, subst_app, subst_app, List.map_map]
    exact congrArg (app n) (List.map_congr_left ih)

/-- **Substitution and the variables of a term fit together.** A term is open unless it has no
variables. What a substitution makes of it depends on the replacements of its variables only, and
without any of these the term stays as it is. Afterwards each variable has given way to those of its
replacement, in its place, or is still there. Two substitutions in turn are one. -/
theorem subst_coherent (t : TypeTerm) (f g : String → Option TypeTerm) :
    (t.isOpen = false ↔ t.vars = []) ∧
      (∀ f', (∀ v ∈ t.vars, f' v = f v) → t.subst f' = t.subst f) ∧
      ((∀ v ∈ t.vars, f v = none) → t.subst f = t) ∧
      (t.subst f).vars = t.vars.flatMap (fun v => (f v).elim [v] vars) ∧
      (t.subst f).subst g = t.subst (andThen f g) := by
  have hplace : ∀ v, ((f v).getD (var v)).vars = (f v).elim [v] vars := by
    intro v
    cases f v with
    | some u => rfl
    | none => rfl
  refine ⟨isOpen_eq_false_iff, fun f' h => subst_congr h, subst_eq_self, ?_, subst_subst f g t⟩
  rw [vars_subst]
  exact List.flatMap_congr fun v _ => hplace v

/-- The term `map(K, array(V))`. -/
def keyed : TypeTerm := .app "map" [.var "K", .app arrayName [.var "V"]]

/-- The term `map(K, V)` in the place of `K`. -/
def mapForK (v : String) : Option TypeTerm :=
  if v = "K" then some (.app "map" [.var "K", .var "V"]) else none

/-- The term `text` in the place of the variable `w`. -/
def textFor (w v : String) : Option TypeTerm := if v = w then some (base "text") else none

theorem subst_coherent_keyed :
    (∀ v ∈ keyed.vars, andThen mapForK (textFor "E") v = mapForK v) ∧
      keyed.subst (andThen mapForK (textFor "E")) = keyed.subst mapForK ∧
      (∀ v ∈ keyed.vars, textFor "E" v = none) ∧
      keyed.subst (textFor "E") = keyed ∧
      (keyed.subst mapForK).vars = ["K", "V", "V"] ∧
      (keyed.subst mapForK).subst (textFor "K") =
        .app "map" [.app "map" [base "text", .var "V"], .app arrayName [.var "V"]] := by
  have hsame : ∀ v ∈ keyed.vars, andThen mapForK (textFor "E") v = mapForK v := by decide
  have hkept : ∀ v ∈ keyed.vars, textFor "E" v = none := by decide
  obtain ⟨-, hcongr, -, hvars, htwice⟩ := subst_coherent keyed mapForK (textFor "K")
  obtain ⟨-, -, hself, -⟩ := subst_coherent keyed (textFor "E") (textFor "K")
  refine ⟨hsame, hcongr _ hsame, hkept, hself hkept, ?_, ?_⟩
  · rw [hvars]
    decide
  · rw [htwice]
    decide

end TypeTerm

end Overloading
