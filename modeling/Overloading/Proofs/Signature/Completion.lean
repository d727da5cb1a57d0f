import Mathlib.Data.List.Nodup
import Overloading.Signature.Declaration

/-! # What a declaration says

A signature is declared clause by clause. Of several clauses for the arguments or for the result
the last one counts (`foldl_eq_getLast?`); rules for type variables add up, and of several for one
name the first one counts (`TypeVariable.foldl_enter`). Completing the declaration adds the rules
that are missing: the variables of the terms are entered like explicit rules that come after all
others, so each of them has a rule in the end, and only one (`Signature.isDeclaredBy_declare`). -/

namespace Overloading

/-- What every step sets or keeps is in the end what was set last. -/
theorem foldl_eq_getLast? {σ α β : Type} {step : σ → α → σ} {get : σ → β} {set? : α → Option β}
    (hstep : ∀ s x, get (step s x) = (set? x).getD (get s)) (xs : List α) (s : σ) :
    get (xs.foldl step s) = ((xs.filterMap set?).getLast?).getD (get s) := by
  induction xs generalizing s with
  | nil => rfl
  | cons x xs ih =>
    rw [List.foldl_cons, ih, hstep, List.filterMap_cons]
    cases set? x with
    | none => rfl
    | some y => rw [List.getLast?_cons]; rfl

namespace TypeVariable

variable {xs ys : List TypeVariable} {x : TypeVariable} {v : String}

/-- The variables of the list, of several with one name only the first. -/
def firsts (xs : List TypeVariable) : List TypeVariable :=
  xs.eraseDupsBy fun x y => x.name == y.name

theorem firsts_cons (x : TypeVariable) (xs : List TypeVariable) :
    firsts (x :: xs) = x :: firsts (xs.filter (·.name ≠ x.name)) := by
  rw [firsts, List.eraseDupsBy_cons, firsts]
  simp only [beq_eq_false_iff_ne]

/-- Variables that stand for any type are told apart by their names. -/
theorem firsts_map_any : ∀ vs : List String,
    firsts (vs.map fun v => ⟨v, .any⟩) = vs.eraseDups.map fun v => ⟨v, .any⟩
  | [] => rfl
  | v :: vs => by
    have hrest := firsts_map_any (vs.filter fun w => !w == v)
    have hne : (fun w => !w == v) = fun w => decide (w ≠ v) := by
      funext w
      rw [beq_eq_decide, ← decide_not]
    rw [List.map_cons, firsts_cons, List.filter_map, List.eraseDups_cons, List.map_cons, ← hrest,
      hne]
    rfl
  termination_by vs => vs.length
  decreasing_by exact Nat.lt_succ_of_le (List.length_filter_le _ vs)

/-- The list with one more variable, unless there is one of that name. -/
def enter (xs : List TypeVariable) (x : TypeVariable) : List TypeVariable :=
  if x.name ∈ xs.map (·.name) then xs else xs ++ [x]

theorem mem_names_enter :
    v ∈ (enter xs x).map (·.name) ↔ v ∈ xs.map (·.name) ∨ v = x.name := by
  unfold enter
  split
  · rename_i hx
    constructor
    · exact Or.inl
    · rintro (hv | rfl)
      · exact hv
      · exact hx
  · rw [List.map_append, List.mem_append, List.map_singleton, List.mem_singleton]

theorem mem_names_foldl_enter :
    v ∈ (ys.foldl enter xs).map (·.name) ↔ v ∈ xs.map (·.name) ∨ v ∈ ys.map (·.name) := by
  induction ys generalizing xs with
  | nil => simp
  | cons y ys ih => rw [List.foldl_cons, ih, mem_names_enter, List.map_cons, List.mem_cons, or_assoc]

/-- **New names go to the end, in the order in which they come first.** -/
theorem foldl_enter (xs ys : List TypeVariable) :
    ys.foldl enter xs = xs ++ firsts (ys.filter fun y => y.name ∉ xs.map (·.name)) := by
  induction ys generalizing xs with
  | nil => exact (List.append_nil xs).symm
  | cons y ys ih =>
    rw [List.foldl_cons, ih]
    by_cases hy : y.name ∈ xs.map (·.name)
    · rw [enter, if_pos hy, List.filter_cons_of_neg (by simpa using hy)]
    · have hrest : (ys.filter fun z => z.name ∉ (xs ++ [y]).map (·.name)) =
          (ys.filter fun z => z.name ∉ xs.map (·.name)).filter (·.name ≠ y.name) := by
        rw [List.filter_filter]
        refine List.filter_congr fun z _ => ?_
        rw [List.map_append, List.map_singleton, ← Bool.decide_and, decide_eq_decide,
          List.mem_append, List.mem_singleton, not_or, and_comm]
      rw [enter, if_neg hy, List.filter_cons_of_pos (by simpa using hy), firsts_cons, hrest,
        List.append_assoc, List.singleton_append]

end TypeVariable

namespace BindingRules

open TypeVariable (enter)

theorem vars_declare (r : BindingRules) (v : TypeVariable) :
    (r.declare v).vars = enter r.vars v := by
  unfold declare enter
  cases h : r.lookup v.name with
  | none => rw [if_neg (lookup_eq_none_iff.1 h)]
  | some x =>
    have hmem : v.name ∈ r.vars.map (·.name) := by
      by_contra hnot
      rw [lookup_eq_none_iff.2 hnot] at h
      cases h
    rw [if_pos hmem]

theorem vars_foldl_declare (vs : List String) (r : BindingRules) :
    (vs.foldl (fun r v => r.declare ⟨v, .any⟩) r).vars =
      (vs.map fun v => (⟨v, .any⟩ : TypeVariable)).foldl enter r.vars := by
  induction vs generalizing r with
  | nil => rfl
  | cons v vs ih => rw [List.foldl_cons, ih, vars_declare, List.map_cons, List.foldl_cons]

theorem coercible_foldl_declare (vs : List String) (r : BindingRules) :
    (vs.foldl (fun r v => r.declare ⟨v, .any⟩) r).coercible = r.coercible := by
  induction vs generalizing r with
  | nil => rfl
  | cons v vs ih => rw [List.foldl_cons, ih, coercible_declare]

end BindingRules

theorem TypeVariable.nodup_foldl_enter {xs : List TypeVariable} (h : (xs.map (·.name)).Nodup)
    (ys : List TypeVariable) : ((ys.foldl enter xs).map (·.name)).Nodup := by
  induction ys generalizing xs with
  | nil => exact h
  | cons y ys ih =>
    have hstep := BindingRules.nodup_declare (r := ⟨xs, true⟩) h y
    rw [BindingRules.vars_declare] at hstep
    exact ih hstep

namespace Clause

/-- The terms that the clause gives to the arguments. -/
def args? : Clause → Option (List TypeTerm)
  | arguments args => some args
  | _ => none

/-- The term that the clause gives to the result. -/
def ret? : Clause → Option TypeTerm
  | returns ret => some ret
  | _ => none

/-- The rule that the clause sets. -/
def rule? : Clause → Option TypeVariable
  | typeVariable v => some v
  | _ => none

end Clause

namespace Signature

open TypeVariable (enter firsts)

/-! ### The clauses -/

theorem args_foldl_add (clauses : List Clause) (s : Signature) :
    (clauses.foldl add s).args = ((clauses.filterMap Clause.args?).getLast?).getD s.args :=
  foldl_eq_getLast? (fun _ c => by cases c <;> rfl) clauses s

theorem ret_foldl_add (clauses : List Clause) (s : Signature) :
    (clauses.foldl add s).ret = ((clauses.filterMap Clause.ret?).getLast?).getD s.ret :=
  foldl_eq_getLast? (fun _ c => by cases c <;> rfl) clauses s

theorem variadic_foldl_add (clauses : List Clause) (s : Signature) :
    (clauses.foldl add s).variadic = true ↔ s.variadic = true ∨ Clause.variadic ∈ clauses := by
  induction clauses generalizing s with
  | nil => simp
  | cons c cs ih =>
    rw [List.foldl_cons, ih, List.mem_cons]
    cases c <;> simp [add]

theorem coercible_foldl_add (clauses : List Clause) (s : Signature) :
    (clauses.foldl add s).rules.coercible = true ↔
      s.rules.coercible = true ∧ Clause.exact ∉ clauses := by
  induction clauses generalizing s with
  | nil => simp
  | cons c cs ih =>
    rw [List.foldl_cons, ih, List.mem_cons]
    cases c <;> simp [add]

theorem vars_foldl_add (clauses : List Clause) (s : Signature) :
    (clauses.foldl add s).rules.vars = (clauses.filterMap Clause.rule?).foldl enter s.rules.vars := by
  induction clauses generalizing s with
  | nil => rfl
  | cons c cs ih =>
    rw [List.foldl_cons, ih]
    cases c with
    | typeVariable v =>
      rw [List.filterMap_cons_some (f := Clause.rule?) (b := v) rfl, List.foldl_cons, add,
        BindingRules.vars_declare]
    | arguments _ | returns _ | «variadic» | exact => rfl

/-! ### The declared signature -/

/-- The rules that the clauses set, repeats included. -/
def explicit (clauses : List Clause) : List TypeVariable := clauses.filterMap Clause.rule?

section Declare

variable (name : FunctionName) (kind : FunctionKind) (clauses : List Clause)

/-- The variables of the terms are entered after those of the explicit rules. -/
theorem vars_rules_declare : (declare name kind clauses).rules.vars =
    ((declare name kind clauses).vars.map fun v => (⟨v, .any⟩ : TypeVariable)).foldl enter
      ((explicit clauses).foldl enter []) := by
  have hclauses := vars_foldl_add clauses { name, kind }
  rw [declare, complete, BindingRules.vars_foldl_declare, hclauses]
  rfl

/-- **Every rule is explicit or for a variable of the terms, and these have a rule.** -/
theorem mem_names_declare {v : String} :
    v ∈ (declare name kind clauses).rules.vars.map (·.name) ↔
      v ∈ (explicit clauses).map (·.name) ∨ v ∈ (declare name kind clauses).vars := by
  rw [vars_rules_declare, TypeVariable.mem_names_foldl_enter, TypeVariable.mem_names_foldl_enter,
    List.map_map]
  simp

theorem nodup_names_declare : ((declare name kind clauses).rules.vars.map (·.name)).Nodup := by
  have hempty : (([] : List TypeVariable).map (·.name)).Nodup := List.nodup_nil
  rw [vars_rules_declare]
  exact TypeVariable.nodup_foldl_enter (TypeVariable.nodup_foldl_enter hempty _) _

/-- **First the explicit rules, then the rules that were missing.** -/
theorem vars_rules_declare_eq : (declare name kind clauses).rules.vars = firsts (explicit clauses) ++
    ((declare name kind clauses).vars.filter
      fun v => v ∉ (explicit clauses).map (·.name)).eraseDups.map fun v => ⟨v, .any⟩ := by
  have hexplicit : (explicit clauses).foldl enter [] = firsts (explicit clauses) := by
    rw [TypeVariable.foldl_enter]
    simp
  have hnames : ∀ v, v ∈ (firsts (explicit clauses)).map (·.name) ↔
      v ∈ (explicit clauses).map (·.name) := fun v => by
    rw [← hexplicit, TypeVariable.mem_names_foldl_enter]
    simp
  rw [vars_rules_declare, TypeVariable.foldl_enter, hexplicit, List.filter_map,
    ← TypeVariable.firsts_map_any]
  congr 3
  exact List.filter_congr fun v _ => by simp only [Function.comp_apply, hnames]

theorem existsUnique_declare {v : String} (hv : v ∈ (declare name kind clauses).vars) :
    ∃! x, x ∈ (declare name kind clauses).rules.vars ∧ x.name = v := by
  obtain ⟨x, hx, rfl⟩ := List.mem_map.1 ((mem_names_declare name kind clauses).2 (Or.inr hv))
  refine ⟨x, ⟨hx, rfl⟩, ?_⟩
  rintro y ⟨hy, hname⟩
  exact List.inj_on_of_nodup_map (nodup_names_declare name kind clauses) hy hx hname

theorem isExact_declare_iff : (declare name kind clauses).rules.isExact = true ↔
    explicit clauses = [] ∧ (declare name kind clauses).vars = [] := by
  have hnone : (declare name kind clauses).rules.vars = [] ↔
      ∀ v, v ∉ (declare name kind clauses).rules.vars.map (·.name) := by
    rw [← List.eq_nil_iff_forall_not_mem, List.map_eq_nil_iff]
  rw [BindingRules.isExact, List.isEmpty_iff, hnone]
  simp only [mem_names_declare, not_or, forall_and, ← List.eq_nil_iff_forall_not_mem,
    List.map_eq_nil_iff]

end Declare

/-- The signature is what the clauses say, with a rule for each of its variables. -/
structure IsDeclaredBy (s : Signature) (clauses : List Clause) : Prop where
  /-- The last clause for the arguments counts. -/
  args : s.args = ((clauses.filterMap Clause.args?).getLast?).getD []
  /-- The last clause for the result counts. -/
  ret : s.ret = ((clauses.filterMap Clause.ret?).getLast?).getD SqlType.undefined.toTerm
  /-- Only an argument can stand for any number. -/
  variadic : s.variadic = true ↔ Clause.variadic ∈ clauses ∧ s.args ≠ []
  /-- One clause is enough to forbid conversions. -/
  coercible : s.rules.coercible = true ↔ Clause.exact ∉ clauses
  /-- The explicit rules come first, of several for one name only the first. The other variables of
  the terms follow, in the order in which they occur first, and may stand for any type. -/
  vars : s.rules.vars = firsts (explicit clauses) ++
    (s.vars.filter fun v => v ∉ (explicit clauses).map (·.name)).eraseDups.map fun v => ⟨v, .any⟩
  /-- No two rules are for one name. -/
  nodup : (s.rules.vars.map (·.name)).Nodup
  /-- Every variable of the terms has one rule. -/
  existsUnique : ∀ v ∈ s.vars, ∃! x, x ∈ s.rules.vars ∧ x.name = v
  /-- Without rules the terms have no variables. -/
  isExact_iff : s.rules.isExact = true ↔ explicit clauses = [] ∧ s.vars = []

/-- **A declared signature is complete.** -/
theorem isDeclaredBy_declare (name : FunctionName) (kind : FunctionKind) (clauses : List Clause) :
    (declare name kind clauses).IsDeclaredBy clauses where
  args := args_foldl_add clauses { name, kind }
  ret := ret_foldl_add clauses { name, kind }
  variadic := by
    have hvariadic := variadic_foldl_add clauses { name, kind }
    simp [declare, complete, hvariadic]
  coercible := by
    have hcoercible := coercible_foldl_add clauses { name, kind }
    simp [declare, complete, BindingRules.coercible_foldl_declare, hcoercible]
  vars := vars_rules_declare_eq name kind clauses
  nodup := nodup_names_declare name kind clauses
  existsUnique _ hv := existsUnique_declare name kind clauses hv
  isExact_iff := isExact_declare_iff name kind clauses

/-- The first rule for `N` is kept, `Z` has one although no term mentions it, and `K` and `V` are
added. -/
example : (declare { name := "f" } .scalar
    [.typeVariable ⟨"N", .numeric⟩, .arguments [.app "map" [.var "K", .var "N"], .var "K"],
      .typeVariable ⟨"N", .any⟩, .returns (.var "V"), .typeVariable ⟨"Z", .any⟩]).rules.vars =
    [⟨"N", .numeric⟩, ⟨"Z", .any⟩, ⟨"K", .any⟩, ⟨"V", .any⟩] := by
  decide

end Signature

end Overloading
