import Mathlib.Data.List.Infix
import Overloading.Proofs.Binding.Soundness

/-! # The variables in scope at a call

A variable is in scope at a call if it occurs in a term that an argument of the call meets
(`Signature.InScope`). An argument term that stands for any number of arguments is met by none of
them if the others use them up, and then its variables are not in scope; all other argument terms
are reached by every call (`Signature.reached`, `Signature.inScope_iff`).

Solving gives types to the variables in scope and to no others (`Signature.mem_vars_of_solve?`).
Binding asks for one thing more, that no variable of the result is out of scope, and otherwise it
puts the solution into the signature (`Signature.bind?_iff_solve?`). -/

namespace Overloading

namespace Signature

variable {s : Signature} {m : Coercion} {actual : List TypeTerm} {n : Nat} {v : String}

/-- The variable occurs in a term for the arguments of a call with `n` arguments. -/
def InScope (s : Signature) (n : Nat) (v : String) : Prop :=
  ∃ fs ∈ s.formals? n, ∃ f ∈ fs, v ∈ f.vars

instance (s : Signature) (n : Nat) (v : String) : Decidable (s.InScope n v) :=
  inferInstanceAs (Decidable (∃ fs ∈ s.formals? n, ∃ f ∈ fs, v ∈ f.vars))

/-- The argument terms that are met at a call with `n` arguments. -/
def reached (s : Signature) (n : Nat) : List TypeTerm :=
  if s.tail?.isSome ∧ n + 1 = s.args.length then s.args.dropLast else s.args

theorem args_eq_of_tail? {t : TypeTerm} (h : s.tail? = some t) :
    s.args = s.args.dropLast ++ [t] := by
  unfold tail? at h
  split at h
  · exact (List.dropLast_append_getLast? t h).symm
  · cases h

/-- **The arguments of a call meet the reached terms and no others.** -/
theorem mem_formals?_iff {fs : List TypeTerm} (hfs : s.formals? n = some fs) {f : TypeTerm} :
    f ∈ fs ↔ f ∈ s.reached n := by
  unfold formals? at hfs
  unfold reached
  cases ht : s.tail? with
  | none =>
    simp only [ht, Option.ite_none_right_eq_some, Option.some.injEq] at hfs
    simp [hfs.2]
  | some t =>
    simp only [ht, Option.ite_none_right_eq_some, Option.some.injEq] at hfs
    obtain ⟨hle, rfl⟩ := hfs
    by_cases hn : n + 1 = s.args.length
    · simp [hn]
    · have hmet : n + 1 - s.args.length ≠ 0 := by omega
      rw [if_neg (by simp [hn])]
      conv_rhs => rw [args_eq_of_tail? ht]
      simp [List.mem_replicate, hmet]

theorem mem_args_of_mem_formals? {fs : List TypeTerm} (hfs : s.formals? n = some fs) {f : TypeTerm}
    (hf : f ∈ fs) : f ∈ s.args := by
  have hreached := (mem_formals?_iff hfs).1 hf
  unfold reached at hreached
  split at hreached
  · exact List.mem_of_mem_dropLast hreached
  · exact hreached

theorem inScope_iff_of_formals? {fs : List TypeTerm} (hfs : s.formals? n = some fs) :
    s.InScope n v ↔ ∃ f ∈ fs, v ∈ f.vars := by
  simp [InScope, hfs]

/-- **What is in scope is what the reached terms mention.** -/
theorem inScope_iff {fs : List TypeTerm} (hfs : s.formals? n = some fs) :
    s.InScope n v ↔ ∃ f ∈ s.reached n, v ∈ f.vars := by
  rw [inScope_iff_of_formals? hfs]
  simp only [mem_formals?_iff hfs]

/-- A variable that only the last term mentions is not in scope if no argument is left for it. -/
theorem not_inScope_of_tail? (ht : s.tail?.isSome = true) (hn : n + 1 = s.args.length)
    (hv : ∀ f ∈ s.args.dropLast, v ∉ f.vars) : ¬ s.InScope n v := by
  rintro ⟨fs, hfs, hscope⟩
  obtain ⟨f, hf, hvf⟩ := (inScope_iff hfs).1 ⟨fs, hfs, hscope⟩
  rw [reached, if_pos ⟨ht, hn⟩] at hf
  exact hv f hf hvf

/-! ### Solving and binding -/

/-- **Solving gives types to the variables in scope and to no others.** -/
theorem mem_vars_of_solve? {a : Assignment} (h : s.solve? m actual = some a) :
    v ∈ a.vars ↔ s.InScope actual.length v := by
  obtain ⟨fs, -, hfs, -⟩ := solve?_eq_some_iff.1 h
  rw [Assignment.mem_vars_iff, isSome_get?_of_solve? hfs h, inScope_iff_of_formals? hfs]

/-- A solution closes the result if its variables are in scope. -/
theorem isOpen_apply_ret_eq_false_iff {a : Assignment} (h : s.solve? m actual = some a) :
    (a.apply s.ret).isOpen = false ↔ ∀ v ∈ s.ret.vars, s.InScope actual.length v := by
  rw [Assignment.isOpen_apply_eq_false_iff]
  simp only [← Assignment.mem_vars_iff, mem_vars_of_solve? h]

/-- **Binding is solving with the result in scope.** A solution has types for the variables in scope
at the call and for no others; the variables of a last term that no argument is left for are not in
scope. The signature is bound if its arguments can be solved and all variables of its result are in
scope, and then it is the signature under the solution. -/
theorem bind?_iff_solve? (s : Signature) (m : Coercion) (actual : List TypeTerm) :
    (∀ a, s.solve? m actual = some a → ∀ v, v ∈ a.vars ↔ s.InScope actual.length v) ∧
    (s.tail?.isSome = true → actual.length + 1 = s.args.length → ∀ v,
      (∀ f ∈ s.args.dropLast, v ∉ f.vars) → ¬ s.InScope actual.length v) ∧
    ((s.bind? m actual).isSome = true ↔
      (s.solve? m actual).isSome = true ∧ ∀ v ∈ s.ret.vars, s.InScope actual.length v) ∧
    ∀ a b, s.solve? m actual = some a → s.bind? m actual = some b →
      ∃ fs, s.formals? actual.length = some fs ∧
        b = ⟨s.name, s.kind, fs.map a.apply, a.apply s.ret⟩ := by
  refine ⟨fun a ha v => mem_vars_of_solve? ha, fun ht hn v => not_inScope_of_tail? ht hn, ?_,
    fun a b ha hb => ?_⟩
  · simp only [Option.isSome_iff_exists]
    constructor
    · rintro ⟨b, hb⟩
      obtain ⟨fs, a, -, ha, hret, -⟩ := bind?_eq_some_iff.1 hb
      exact ⟨⟨a, ha⟩, (isOpen_apply_ret_eq_false_iff ha).1 hret⟩
    · rintro ⟨⟨a, ha⟩, hret⟩
      obtain ⟨fs, -, hfs, -⟩ := solve?_eq_some_iff.1 ha
      have hclosed := (isOpen_apply_ret_eq_false_iff ha).2 hret
      exact ⟨_, bind?_eq_some_iff.2 ⟨fs, a, hfs, ha, hclosed, rfl⟩⟩
  · obtain ⟨fs, a', hfs, ha', -, rfl⟩ := bind?_eq_some_iff.1 hb
    obtain rfl := Option.some.inj (ha.symm.trans ha')
    exact ⟨fs, hfs, rfl⟩

/-- The signature `choose(array(K), V...):V`. -/
def choose : Signature where
  name := { name := "choose" }
  args := [.app arrayName [.var "K"], .var "V"]
  variadic := true
  ret := .var "V"
  rules := { vars := [⟨"K", .any⟩, ⟨"V", .any⟩] }

/-- With one argument only `K` is given a type, so the call is solved but not bound. -/
theorem bind?_iff_solve?_choose :
    ¬ choose.InScope 1 "V" ∧
      (choose.solve? .promotion ([.undefined].map SqlType.toTerm)).isSome = true ∧
      (choose.bind? .promotion ([.undefined].map SqlType.toTerm)).isSome = false ∧
      (choose.bind? .promotion
        ([.undefined, .scalar .integer, .scalar .bigint].map SqlType.toTerm)).isSome = true := by
  have hscope : ¬ choose.InScope 1 "V" :=
    (bind?_iff_solve? choose .promotion ([.undefined].map SqlType.toTerm)).2.1 rfl rfl "V"
      (by decide)
  have hsolve : (choose.solve? .promotion ([.undefined].map SqlType.toTerm)).isSome = true := by
    decide
  refine ⟨hscope, hsolve, ?_, ?_⟩
  · rw [← Bool.not_eq_true, (bind?_iff_solve? choose .promotion _).2.2.1]
    exact fun h => hscope (h.2 "V" (by decide))
  · exact (bind?_iff_solve? choose .promotion _).2.2.1.2 (by decide)

end Signature

end Overloading
