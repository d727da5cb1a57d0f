import Overloading.Proofs.Resolution.Candidates

/-! # Schemas do not interfere

A call looks at the groups of the names that it may mean and at nothing else: registries that agree
on these groups agree on the call (`Registry.resolve_congr`). A local change touches the groups of
its schema only, so it makes a difference to a call only if the call may mean a name in that schema
(`FunctionName.Reaches`) and if the overloads of such a name are others than before
(`Registry.resolve_apply_of_isLocal`). Whole histories of changes to schemas that a call does not
reach leave it as it is (`Registry.resolve_run_of_not_reaches`). -/

namespace Overloading

/-- A call of `n` may mean a name in the schema. -/
def FunctionName.Reaches (n : FunctionName) (p : SearchPath) (s : String) : Prop :=
  ∃ k ∈ n.lookups p, k.schema = some s

/-- **The schemas that a call reaches:** its own or, if it names none, those that are searched. -/
theorem FunctionName.reaches_iff {n : FunctionName} {p : SearchPath} {s : String} :
    n.Reaches p s ↔ n.schema = some s ∨ n.schema = none ∧ s ∈ p.effective := by
  unfold Reaches
  constructor
  · rintro ⟨k, hk, hs⟩
    rcases mem_lookups.1 hk with rfl | ⟨hn, u, hu, rfl⟩
    · exact Or.inl hs
    · obtain rfl : u = s := Option.some.inj hs
      exact Or.inr ⟨hn, SearchPath.mem_effective.2 hu⟩
  · rintro (hs | ⟨hn, hs⟩)
    · exact ⟨n, mem_lookups.2 (Or.inl rfl), hs⟩
    · have hmem : n.inSchema s ∈ n.lookups p :=
        mem_lookups.2 (Or.inr ⟨hn, s, SearchPath.mem_effective.1 hs, rfl⟩)
      exact ⟨n.inSchema s, hmem, rfl⟩

theorem Table.candidates_congr {t t' : Table} {n : FunctionName} {p : SearchPath}
    (h : ∀ k ∈ n.lookups p, t.group k = t'.group k) : t.candidates n p = t'.candidates n p := by
  unfold candidates
  rw [List.map_congr_left h]

namespace Registry

variable {r r' : Registry} {n : FunctionName} {p : SearchPath} {c : Change} {cs : List Change}

/-- **Registries that agree on the groups of the names that a call may mean agree on the call.** -/
theorem resolve_congr (hb : ∀ k ∈ n.lookups p, r.builtins.group k = r'.builtins.group k)
    (hu : ∀ k ∈ n.lookups p, r.userDefined.group k = r'.userDefined.group k)
    (types : List SqlType) : r.resolve n types p = r'.resolve n types p := by
  have hcand : r.candidates n p = r'.candidates n p := by
    rw [candidates_eq, candidates_eq, Table.candidates_congr hb, Table.candidates_congr hu]
  unfold resolve
  rw [hcand]

/-- A local change that leaves the overloads of every name of its schema that a call may mean leaves
the call. -/
theorem resolve_apply_of_groups (hc : c.IsLocal)
    (h : ∀ k ∈ n.lookups p, k.schema = some c.schema → (r.apply c).group k = r.group k)
    (types : List SqlType) : (r.apply c).resolve n types p = r.resolve n types p := by
  refine resolve_congr (fun k _ => by rw [builtins_apply]) (fun k hk => ?_) types
  by_cases hs : k.schema = some c.schema
  · have hgroup := h k hk hs
    unfold group at hgroup
    rw [builtins_apply] at hgroup
    exact List.append_cancel_left hgroup
  · rw [group_apply hc, if_neg hs]

theorem resolve_apply_of_not_reaches (hc : c.IsLocal) (h : ¬ n.Reaches p c.schema)
    (types : List SqlType) : (r.apply c).resolve n types p = r.resolve n types p :=
  resolve_apply_of_groups hc (fun k hk hs => absurd ⟨k, hk, hs⟩ h) types

/-- **A history of schemas that a call does not reach leaves the call as it is.** -/
theorem resolve_run_of_not_reaches (hcs : ∀ c ∈ cs, c.IsLocal)
    (h : ∀ c ∈ cs, ¬ n.Reaches p c.schema) (types : List SqlType) :
    (r.run cs).resolve n types p = r.resolve n types p := by
  induction cs generalizing r with
  | nil => rfl
  | cons c cs ih =>
    rw [List.forall_mem_cons] at hcs h
    have hstep : (r.apply c).resolve n types p = r.resolve n types p :=
      resolve_apply_of_not_reaches hcs.1 h.1 types
    have hrest : ((r.apply c).run cs).resolve n types p = (r.apply c).resolve n types p :=
      ih hcs.2 h.2
    exact hrest.trans hstep

/-- **A change to a schema is seen by the calls that may mean a name in it, and by no others.** A
local change keeps the outcome of every call that names another schema, and of every call that
names none where the schema is not searched. It keeps the outcome of any other call as well if each
name in the schema that the call may mean has the overloads that it had before, in the same
order. -/
theorem resolve_apply_of_isLocal (r : Registry) (hc : c.IsLocal) (n : FunctionName)
    (types : List SqlType) (p : SearchPath) :
    ((∃ s, n.schema = some s ∧ s ≠ c.schema) ∨ n.schema = none ∧ c.schema ∉ p.effective →
      (r.apply c).resolve n types p = r.resolve n types p) ∧
    ((∀ k ∈ n.lookups p, k.schema = some c.schema → (r.apply c).group k = r.group k) →
      (r.apply c).resolve n types p = r.resolve n types p) := by
  refine ⟨fun hout => resolve_apply_of_not_reaches hc ?_ types,
    fun hgroups => resolve_apply_of_groups hc hgroups types⟩
  rw [FunctionName.reaches_iff]
  rintro (hs | ⟨hn, hs⟩)
  · rcases hout with ⟨s, hs', hne⟩ | ⟨hnone, -⟩
    · exact hne (Option.some.inj (hs'.symm.trans hs))
    · rw [hs] at hnone
      cases hnone
  · rcases hout with ⟨s, hs', -⟩ | ⟨-, hnot⟩
    · rw [hn] at hs'
      cases hs'
    · exact hnot hs

/-- `a.f(bigint)`, and `b.f(bigint)` with `b.g(text)`. -/
def neighbours : Registry :=
  run {} [.register "a" [script "a" "f" .bigint "1"],
    .register "b" [script "b" "f" .bigint "2", script "b" "g" .text "3"]]

/-- The schema `b` with another `b.g` and the same `b.f`. -/
def renovation : Change := .register "b" [script "b" "g" .boolean "4", script "b" "f" .bigint "2"]

/-- The new `b.g` is no matter to `a.f`, nor to `f` where `a` is searched, nor to `f` where `b` is
searched; it does change `g` there. -/
theorem resolve_apply_of_isLocal_renovation :
    renovation.IsLocal ∧
      (neighbours.apply renovation).resolve ⟨some "a", "f"⟩ [.scalar .integer] {} =
        .ok ((script "a" "f" .bigint "1").instantiate [.scalar .bigint] (.scalar .bigint)) ∧
      (neighbours.apply renovation).resolve { name := "f" } [.scalar .integer] (.ofList ["a"]) =
        .ok ((script "a" "f" .bigint "1").instantiate [.scalar .bigint] (.scalar .bigint)) ∧
      (neighbours.apply renovation).resolve { name := "f" } [.scalar .integer] (.ofList ["b"]) =
        .ok ((script "b" "f" .bigint "2").instantiate [.scalar .bigint] (.scalar .bigint)) ∧
      (neighbours.apply renovation).resolve { name := "g" } [.scalar .boolean] (.ofList ["b"]) ≠
        neighbours.resolve { name := "g" } [.scalar .boolean] (.ofList ["b"]) := by
  have hlocal : renovation.IsLocal := by decide
  have hkeep : ∀ k ∈ FunctionName.lookups { name := "f" } (.ofList ["b"]),
      k.schema = some renovation.schema →
        (neighbours.apply renovation).group k = neighbours.group k := by
    decide +kernel
  refine ⟨hlocal, ?_, ?_, ?_, by decide +kernel⟩
  · have hsame := (resolve_apply_of_isLocal neighbours hlocal ⟨some "a", "f"⟩ [.scalar .integer]
      {}).1 (Or.inl ⟨"a", rfl, by decide⟩)
    exact hsame.trans (by decide +kernel)
  · have hsame := (resolve_apply_of_isLocal neighbours hlocal { name := "f" } [.scalar .integer]
      (.ofList ["a"])).1 (Or.inr ⟨rfl, by decide⟩)
    exact hsame.trans (by decide +kernel)
  · have hsame := (resolve_apply_of_isLocal neighbours hlocal { name := "f" } [.scalar .integer]
      (.ofList ["b"])).2 hkeep
    exact hsame.trans (by decide +kernel)

end Registry

end Overloading
