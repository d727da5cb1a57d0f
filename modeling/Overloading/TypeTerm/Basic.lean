import Overloading.SqlType.Basic

/-! # Type terms

A type term names a type and may hold type variables: `integer`, `array(E)`, `E`. A term is a
variable or a name applied to parameter terms; two terms are equal only if they are the same tree.

`vars` lists the variables from left to right, `isOpen` says whether there is one, and `subst`
replaces them, each replacement left as it is. The functions on a list of parameters are the ones on
a term, applied to each (`vars_app`, `isOpen_app`, `subst_app`), so proofs go by
`TypeTerm.induction` and never see the auxiliary functions. -/

namespace Overloading

/-- A variable, or a type name applied to parameters. -/
inductive TypeTerm
  | var (name : String)
  | app (name : String) (params : List TypeTerm)

namespace TypeTerm

/-- A type name without parameters. -/
abbrev base (name : String) : TypeTerm := app name []

/-- Induction over terms: what holds of every parameter may be used of the application. -/
@[elab_as_elim, induction_eliminator]
theorem induction {motive : TypeTerm → Prop} (var : ∀ v, motive (var v))
    (app : ∀ n ps, (∀ p ∈ ps, motive p) → motive (app n ps)) (t : TypeTerm) : motive t :=
  TypeTerm.rec (motive_1 := motive) (motive_2 := fun ps => ∀ p ∈ ps, motive p) var app
    (by simp) (fun _ _ hp hps => List.forall_mem_cons.2 ⟨hp, hps⟩) t

mutual

/-- Equality of terms is decided node by node. -/
def decEq : (s t : TypeTerm) → Decidable (s = t)
  | var v, var w => decidable_of_iff (v = w) (by simp)
  | app m ps, app n qs =>
    match decEqAll ps qs with
    | isTrue h => decidable_of_iff (m = n) (by simp [h])
    | isFalse h => isFalse (by simp [h])
  | var _, app _ _ => isFalse (by simp)
  | app _ _, var _ => isFalse (by simp)

/-- Equality of lists of terms is decided one by one. -/
def decEqAll : (ps qs : List TypeTerm) → Decidable (ps = qs)
  | [], [] => isTrue rfl
  | p :: ps, q :: qs =>
    match decEq p q with
    | isTrue h =>
      match decEqAll ps qs with
      | isTrue h' => isTrue (by rw [h, h'])
      | isFalse h' => isFalse (by simp [h'])
    | isFalse h => isFalse (by simp [h])
  | [], _ :: _ => isFalse (by simp)
  | _ :: _, [] => isFalse (by simp)

end

instance : DecidableEq TypeTerm := decEq

mutual

/-- The variables of the term from left to right, repeats included. -/
def vars : TypeTerm → List String
  | var v => [v]
  | app _ ps => varsAll ps

/-- The variables of all terms of a list. -/
def varsAll : List TypeTerm → List String
  | [] => []
  | p :: ps => p.vars ++ varsAll ps

end

mutual

/-- A term is open if a variable occurs in it. -/
def isOpen : TypeTerm → Bool
  | var _ => true
  | app _ ps => anyOpen ps

/-- Whether a term of a list is open. -/
def anyOpen : List TypeTerm → Bool
  | [] => false
  | p :: ps => p.isOpen || anyOpen ps

end

mutual

/-- The term with its variables replaced; a variable without a replacement stays. -/
def subst (f : String → Option TypeTerm) : TypeTerm → TypeTerm
  | var v => (f v).getD (var v)
  | app n ps => app n (substAll f ps)

/-- Replaces the variables in all terms of a list. -/
def substAll (f : String → Option TypeTerm) : List TypeTerm → List TypeTerm
  | [] => []
  | p :: ps => p.subst f :: substAll f ps

end

theorem varsAll_eq_flatMap : ∀ ps : List TypeTerm, varsAll ps = ps.flatMap vars
  | [] => rfl
  | _ :: ps => by rw [varsAll, varsAll_eq_flatMap ps, List.flatMap_cons]

theorem anyOpen_eq_any : ∀ ps : List TypeTerm, anyOpen ps = ps.any isOpen
  | [] => rfl
  | _ :: ps => by rw [anyOpen, anyOpen_eq_any ps, List.any_cons]

theorem substAll_eq_map (f : String → Option TypeTerm) :
    ∀ ps : List TypeTerm, substAll f ps = ps.map (subst f)
  | [] => rfl
  | _ :: ps => by rw [substAll, substAll_eq_map f ps, List.map_cons]

@[simp] theorem vars_var (v : String) : (var v).vars = [v] := rfl

@[simp] theorem vars_app (n : String) (ps : List TypeTerm) : (app n ps).vars = ps.flatMap vars :=
  varsAll_eq_flatMap ps

@[simp] theorem isOpen_var (v : String) : (var v).isOpen = true := rfl

@[simp] theorem isOpen_app (n : String) (ps : List TypeTerm) : (app n ps).isOpen = ps.any isOpen :=
  anyOpen_eq_any ps

@[simp] theorem subst_var (f : String → Option TypeTerm) (v : String) :
    (var v).subst f = (f v).getD (var v) := rfl

@[simp] theorem subst_app (f : String → Option TypeTerm) (n : String) (ps : List TypeTerm) :
    (app n ps).subst f = app n (ps.map (subst f)) :=
  congrArg (app n) (substAll_eq_map f ps)

end TypeTerm

/-- The term that names this type. -/
def SqlType.toTerm : SqlType → TypeTerm
  | scalar s => .base s.name
  | array t => .app arrayName [t.toTerm]

@[simp] theorem SqlType.isOpen_toTerm : ∀ t : SqlType, t.toTerm.isOpen = false
  | scalar _ => rfl
  | array t => by simp [toTerm, isOpen_toTerm t]

end Overloading
