import Overloading.Catalog
import Overloading.Proofs.Registry.History
import Overloading.Resolution.Basic

/-! # The candidates of a call

A call chooses from one group: that of the first name that it may mean and that has any overloads,
among the built-in ones if one of the names has any there (`Registry.mem_candidates`). The names are
the one that is given and, if it has no schema, the name in each schema of the search path, with the
schema of the compatibility functions always among them (`FunctionName.mem_lookups`).

So wherever a built-in overload is in reach, user-defined ones have no part in the call: neither can
they take its place nor can they mend a call that it does not fit (`Registry.resolve_run_of_builtin`).
-/

namespace Overloading

theorem SearchPath.mem_effective {p : SearchPath} {s : String} :
    s ∈ p.effective ↔ s = catalogSchema ∨ s ∈ p.listed := by
  unfold effective
  split
  · rename_i h
    have hmem : catalogSchema ∈ p.listed := by simpa using h
    refine ⟨Or.inr, ?_⟩
    rintro (rfl | hs)
    · exact hmem
    · exact hs
  · exact List.mem_cons

/-- **The names that a call may mean.** -/
theorem FunctionName.mem_lookups {n k : FunctionName} {p : SearchPath} : k ∈ n.lookups p ↔
    k = n ∨ n.schema = none ∧ ∃ s, (s = catalogSchema ∨ s ∈ p.listed) ∧ k = n.inSchema s := by
  unfold lookups isQualified
  cases hn : n.schema with
  | some s => simp
  | none => simp [SearchPath.mem_effective, eq_comm]

namespace Table

variable {t : Table} {n : FunctionName} {p : SearchPath} {o : Overload}

theorem candidates_eq_nil_iff : t.candidates n p = [] ↔ ∀ k ∈ n.lookups p, t.group k = [] := by
  unfold candidates
  induction n.lookups p with
  | nil => simp
  | cons k ks ih =>
    cases hk : t.group k with
    | nil => simpa [hk] using ih
    | cons o os => simp [hk]

/-- A name with overloads of its own is looked up no further, whatever the search path. -/
theorem candidates_eq_group_of_ne_nil (p : SearchPath) (h : t.group n ≠ []) :
    t.candidates n p = t.group n := by
  obtain ⟨ks, hks⟩ : ∃ ks, n.lookups p = n :: ks := by
    unfold FunctionName.lookups
    split
    · exact ⟨[], rfl⟩
    · exact ⟨_, rfl⟩
  have hfirst : ((n :: ks).map t.group).find? (!·.isEmpty) = some (t.group n) := by simp [h]
  rw [candidates, hks, hfirst, Option.getD_some]

/-- The candidates are known under a name that the call may mean. -/
theorem mem_of_mem_candidates (h : o ∈ t.candidates n p) :
    o ∈ t.overloads ∧ o.name ∈ n.lookups p := by
  unfold candidates at h
  cases hfind : ((n.lookups p).map t.group).find? (!·.isEmpty) with
  | none =>
    rw [hfind] at h
    cases h
  | some os =>
    rw [hfind] at h
    obtain ⟨k, hk, rfl⟩ := List.mem_map.1 (List.mem_of_find?_eq_some hfind)
    obtain ⟨ho, rfl⟩ := mem_group.1 h
    exact ⟨ho, hk⟩

end Table

namespace Registry

variable {r : Registry} {n : FunctionName} {p : SearchPath} {o : Overload}

theorem candidates_eq (r : Registry) (n : FunctionName) (p : SearchPath) : r.candidates n p =
    if r.builtins.candidates n p = [] then r.userDefined.candidates n p
    else r.builtins.candidates n p := by
  unfold candidates
  cases r.builtins.candidates n p <;> rfl

theorem candidates_eq_group_of_ne_nil (p : SearchPath) (h : r.builtins.group n ≠ []) :
    r.candidates n p = r.builtins.group n := by
  have hb : r.builtins.candidates n p = r.builtins.group n :=
    Table.candidates_eq_group_of_ne_nil p h
  rw [candidates_eq, hb, if_neg h]

/-- **User-defined overloads are candidates only where no built-in one is.** -/
theorem mem_candidates : o ∈ r.candidates n p ↔ o ∈ r.builtins.candidates n p ∨
    r.builtins.candidates n p = [] ∧ o ∈ r.userDefined.candidates n p := by
  rw [candidates_eq]
  split
  · rename_i h
    simp [h]
  · rename_i h
    simp [h]

/-- A candidate is known under a name that the call may mean. -/
theorem name_mem_lookups (h : o ∈ r.candidates n p) : o.name ∈ n.lookups p := by
  rcases mem_candidates.1 h with ho | ⟨-, ho⟩
  · exact (Table.mem_of_mem_candidates ho).2
  · exact (Table.mem_of_mem_candidates ho).2

/-- **User-defined functions neither shadow nor mend what is built in.** If there are built-in
overloads under the name of a call or, where it has no schema, under that name in a schema of the
search path or in the schema of the compatibility functions, then the call has the outcome that it
has without user-defined overloads, whatever the history of these. -/
theorem resolve_run_of_builtin (b : Table) (cs : List Change) (n : FunctionName)
    (types : List SqlType) (p : SearchPath)
    (h : b.group n ≠ [] ∨ n.schema = none ∧
      ∃ s, (s = catalogSchema ∨ s ∈ p.listed) ∧ b.group (n.inSchema s) ≠ []) :
    (run { builtins := b } cs).resolve n types p = resolve { builtins := b } n types p := by
  have hreach : ∃ k ∈ n.lookups p, b.group k ≠ [] := by
    rcases h with h | ⟨hn, s, hs, h⟩
    · exact ⟨n, FunctionName.mem_lookups.2 (Or.inl rfl), h⟩
    · exact ⟨n.inSchema s, FunctionName.mem_lookups.2 (Or.inr ⟨hn, s, hs, rfl⟩), h⟩
  have hb : b.candidates n p ≠ [] := by
    rw [Ne, Table.candidates_eq_nil_iff]
    rintro hnil
    obtain ⟨k, hk, hne⟩ := hreach
    exact hne (hnil k hk)
  have hrun : (run { builtins := b } cs).builtins = b := builtins_run _ cs
  have hcand : (run { builtins := b } cs).candidates n p =
      candidates { builtins := b } n p := by
    rw [candidates_eq, candidates_eq, hrun, if_neg hb, if_neg hb]
  unfold resolve
  rw [hcand]

/-- `format_type(boolean)` is registered wherever a call of `format_type` could look for it. -/
def squatting : List Change :=
  [.register "doc" [script "doc" "format_type" .boolean "1"],
    .register "pg_catalog" [script "pg_catalog" "format_type" .boolean "2",
      { script "pg_catalog" "format_type" .boolean "3" with
        signature.name := { name := "format_type" } }]]

/-- None of them helps a call that the built-in `format_type` does not fit. -/
theorem resolve_run_of_builtin_formatType :
    Catalog.registry.builtins.group ⟨some "pg_catalog", "format_type"⟩ ≠ [] ∧
      (Catalog.registry.run squatting).resolve { name := "format_type" } [.scalar .boolean] {} =
        .error (.unknownFunction { name := "format_type" } [.scalar .boolean]
          Catalog.compatibility) := by
  have hgroup : Catalog.registry.builtins.group ⟨some "pg_catalog", "format_type"⟩ ≠ [] := by
    decide +kernel
  have hbuiltin : Catalog.registry.resolve { name := "format_type" } [.scalar .boolean] {} =
      .error (.unknownFunction { name := "format_type" } [.scalar .boolean]
        Catalog.compatibility) := by
    decide +kernel
  refine ⟨hgroup, ?_⟩
  exact (resolve_run_of_builtin Catalog.registry.builtins squatting { name := "format_type" }
    [.scalar .boolean] {} (Or.inr ⟨rfl, "pg_catalog", Or.inl rfl, hgroup⟩)).trans hbuiltin

end Registry

end Overloading
