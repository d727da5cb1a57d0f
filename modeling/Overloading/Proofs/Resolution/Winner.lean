import Mathlib.Data.Nat.Count
import Overloading.Proofs.Resolution.Candidates
import Overloading.Proofs.Resolution.Undominated

/-! # What the winner of a call is

A call means the only finalist of a tier, and that of the first tier with a single one
(`Tier.Decides`, `Overload.select?_eq_some_iff`). The finalists of a tier that converts arguments
come from two filters, one after the other. The second one compares only what the first one keeps,
and yet nothing that it never sees could make a difference: what keeps as many arguments as a
finalist is kept by the first filter too (`Instantiation.not_beats_of_mem_reduce`).

So among all overloads that are bound at the coercion of the tier none leaves more arguments
unchanged than the winner, and none that leaves as many unchanged lies strictly within it
(`Overload.IsBest`). Both are said of the places of the arguments and of what signatures take
(`Instantiation.unchanged`, `Instantiation.Within`), apart from the filters. Overloads that admit no
coercion win at the types of the arguments as they are or not at all. -/

namespace Overloading

/-- Two lists agree in as many pairs as there are places at which they hold the same. -/
theorem countP_zip_eq_count {α : Type} [DecidableEq α] (xs ys : List α) :
    (xs.zip ys).countP (fun p => p.1 = p.2) = Nat.count (fun k => xs[k]? = ys[k]?) ys.length := by
  induction ys generalizing xs with
  | nil => simp
  | cons y ys ih =>
    cases xs with
    | nil =>
      refine (Nat.count_of_forall_not fun k hk => ?_).symm
      simp [List.getElem?_eq_getElem hk]
    | cons x xs =>
      rw [List.zip_cons_cons, List.countP_cons, ih, List.length_cons, Nat.count_succ']
      simp

namespace Instantiation

variable {actual : List TypeTerm} {is : List Instantiation} {i j : Instantiation}

/-- The number of places at which the argument is bound to the very type that it has. -/
def unchanged (types : List SqlType) (i : Instantiation) : Nat :=
  Nat.count (fun k => i.bound.args[k]? = types[k]?.map SqlType.toTerm) types.length

/-- **The arguments that are kept are those at the unchanged places.** -/
theorem kept_eq_unchanged (types : List SqlType) (i : Instantiation) :
    i.kept (types.map SqlType.toTerm) = i.unchanged types := by
  unfold kept unchanged
  rw [countP_zip_eq_count, List.length_map]
  simp only [List.getElem?_map]

/-- `j` lies within `i`: after promotions the signature of `i` takes the arguments of `j`, and `j`
declares at least as many. -/
def Within (j i : Instantiation) : Prop :=
  (∃ a, i.declared.solve? .promotion j.bound.args = some a) ∧
    i.declared.args.length ≤ j.declared.args.length

theorem narrower_iff_within : j.narrower i = true ↔ j.Within i := by
  rw [narrower, Bool.and_eq_true, decide_eq_true_eq, Option.isSome_iff_exists, Within]

/-- **One beats another if it lies strictly within it.** -/
theorem beats_narrower_iff : Beats narrower j i ↔ j.Within i ∧ ¬ i.Within j := by
  rw [Beats, ← Bool.not_eq_true, narrower_iff_within, narrower_iff_within]

theorem kept_le_of_mem_undominated
    (hi : i ∈ undominated (fun i j => j.kept actual < i.kept actual) is) (hj : j ∈ is) :
    j.kept actual ≤ i.kept actual := by
  by_contra hlt
  rw [Nat.not_le] at hlt
  have hback := (mem_undominated.1 hi).2 j hj (decide_eq_true hlt)
  exact Nat.lt_asymm hlt (of_decide_eq_true hback)

theorem kept_le_of_mem_reduce (hi : i ∈ reduce actual is) (hj : j ∈ is) :
    j.kept actual ≤ i.kept actual :=
  kept_le_of_mem_undominated (mem_undominated.1 hi).1 hj

/-- **What is left is beaten by nothing that keeps as many arguments,** whether or not the first
filter has kept that. -/
theorem not_beats_of_mem_reduce (hi : i ∈ reduce actual is) (hj : j ∈ is)
    (hkept : j.kept actual = i.kept actual) : ¬ Beats narrower j i := by
  rintro ⟨hji, hij⟩
  have hmem : j ∈ undominated (fun i j => j.kept actual < i.kept actual) is := by
    refine mem_undominated.2 ⟨hj, fun k hk hlt => ?_⟩
    have hle := kept_le_of_mem_reduce hi hk
    rw [decide_eq_true_eq, hkept] at hlt
    exact absurd hlt (Nat.not_lt.2 hle)
  rw [(mem_undominated.1 hi).2 j hmem hji] at hij
  cases hij

end Instantiation

namespace Tier

variable {t : Tier} {types : List SqlType} {os : List Overload} {i : Instantiation}

/-- The tiers that are tried before. -/
def earlier : Tier → List Tier
  | exact => []
  | generic => [exact]
  | promotion => [exact, generic]
  | cast => [exact, generic, promotion]

theorem exists_all_eq (t : Tier) : ∃ later, all = t.earlier ++ t :: later ∧ t ∉ t.earlier ∧
    t ∉ later := by
  cases t with
  | exact => exact ⟨_, rfl, by decide, by decide⟩
  | generic => exact ⟨_, rfl, by decide, by decide⟩
  | promotion => exact ⟨_, rfl, by decide, by decide⟩
  | cast => exact ⟨_, rfl, by decide, by decide⟩

/-- `i` is the only finalist of the tier, and no earlier tier has a single one. -/
structure Decides (t : Tier) (types : List SqlType) (os : List Overload) (i : Instantiation) :
    Prop where
  finalists_eq : t.finalists types os = [i]
  undecided : ∀ u ∈ t.earlier, ∀ j, u.finalists types os ≠ [j]

theorem winner?_eq_none_iff : t.winner? types os = none ↔ ∀ j, t.finalists types os ≠ [j] := by
  rw [Option.eq_none_iff_forall_ne_some]
  exact forall_congr' fun j => not_congr (t.winner?_eq_some_iff types)

theorem admits_of_converts (ht : t.coercion.converts = true) (r : BindingRules) :
    t.admits r = r.coercible := by
  cases t with
  | exact | generic => cases ht
  | promotion | cast => rfl

theorem mem_reduce_of_mem_finalists (ht : t.coercion.converts = true)
    (hi : i ∈ t.finalists types os) :
    i ∈ Instantiation.reduce (types.map SqlType.toTerm) (t.applicable types os) := by
  unfold finalists at hi
  rw [if_pos ht] at hi
  exact Instantiation.mem_of_mem_breakTie hi

end Tier

namespace Overload

variable {types : List SqlType} {os : List Overload} {m : Coercion} {i : Instantiation}

/-- **What is selected is what some tier decides for.** -/
theorem select?_eq_some_iff : select? types os = some i ↔ ∃ t : Tier, t.Decides types os i := by
  unfold select?
  rw [List.findSome?_eq_some_iff]
  constructor
  · rintro ⟨us, t, vs, hall, hwins, hus⟩
    obtain ⟨later, hsplit, hearlier, hlater⟩ := t.exists_all_eq
    obtain ⟨rfl, -, -⟩ := (List.append_cons_inj_of_notMem hearlier hlater).1 (hsplit.symm.trans hall)
    exact ⟨t, (t.winner?_eq_some_iff types).1 hwins, fun u hu =>
      Tier.winner?_eq_none_iff.1 (hus u hu)⟩
  · rintro ⟨t, hfinal, hundecided⟩
    obtain ⟨later, hsplit, -, -⟩ := t.exists_all_eq
    exact ⟨t.earlier, t, later, hsplit, (t.winner?_eq_some_iff types).2 hfinal, fun u hu =>
      Tier.winner?_eq_none_iff.2 (hundecided u hu)⟩

/-- `j` is an overload of the list that admits coercion, as it is bound to arguments of these types
with this coercion. -/
structure Rivals (os : List Overload) (types : List SqlType) (m : Coercion) (j : Instantiation) :
    Prop where
  mem : j.overload ∈ os
  coercible : j.declared.rules.coercible = true
  bound : j.declared.bind? m (types.map SqlType.toTerm) = some j.bound

/-- What rivals the winner takes part in its tier. -/
theorem Rivals.mem_applicable {t : Tier} {j : Instantiation}
    (hj : Rivals os types t.coercion j) (ht : t.coercion.converts = true) :
    j ∈ t.applicable types os := by
  refine (t.mem_applicable types).2 ⟨hj.mem, ?_, hj.bound⟩
  rw [Tier.admits_of_converts ht, hj.coercible]

/-- `i` is an overload of the list, bound to arguments of these types with this coercion, and where
arguments may change their types it is one of the best. -/
structure IsBest (os : List Overload) (types : List SqlType) (m : Coercion) (i : Instantiation) :
    Prop where
  mem : i.overload ∈ os
  bound : i.declared.bind? m (types.map SqlType.toTerm) = some i.bound
  /-- An overload that admits no coercion takes the arguments as they are. -/
  rigid : i.declared.rules.coercible = false →
    m = .exact ∧ i.bound.args = types.map SqlType.toTerm
  /-- No rival leaves more arguments unchanged. -/
  unchanged_le : m ≠ .exact → ∀ j, Rivals os types m j → j.unchanged types ≤ i.unchanged types
  /-- No rival that leaves as many unchanged lies strictly within. -/
  not_within : m ≠ .exact → ∀ j, Rivals os types m j → j.unchanged types = i.unchanged types →
    ¬ (j.Within i ∧ ¬ i.Within j)

/-- **The only finalist of a tier is the best at its coercion.** -/
theorem isBest_of_finalists {t : Tier} (h : t.finalists types os = [i]) :
    IsBest os types t.coercion i := by
  have hfinal : i ∈ t.finalists types os := h ▸ List.mem_singleton_self i
  obtain ⟨hmem, hadm, hbound⟩ :=
    (t.mem_applicable types).1 (t.mem_of_mem_finalists types hfinal)
  have hconv : t.coercion ≠ .exact → t.coercion.converts = true := bne_iff_ne.2
  have hleft : t.coercion ≠ .exact →
      i ∈ Instantiation.reduce (types.map SqlType.toTerm) (t.applicable types os) :=
    fun hm => Tier.mem_reduce_of_mem_finalists (hconv hm) hfinal
  refine ⟨hmem, hbound, fun hrigid => ?_, fun hm j hj => ?_, fun hm j hj hsame => ?_⟩
  · have hm : t.coercion = .exact := by
      by_contra hm
      rw [Tier.admits_of_converts (hconv hm), hrigid] at hadm
      cases hadm
    rw [hm] at hbound
    exact ⟨hm, Signature.args_of_bind?_exact hbound⟩
  · rw [← Instantiation.kept_eq_unchanged, ← Instantiation.kept_eq_unchanged]
    exact Instantiation.kept_le_of_mem_reduce (hleft hm) (hj.mem_applicable (hconv hm))
  · rw [← Instantiation.kept_eq_unchanged, ← Instantiation.kept_eq_unchanged] at hsame
    rw [← Instantiation.beats_narrower_iff]
    exact Instantiation.not_beats_of_mem_reduce (hleft hm) (hj.mem_applicable (hconv hm)) hsame

/-- **What is selected is the best at the coercion of the tier that decides.** -/
theorem exists_isBest_of_select? (h : select? types os = some i) :
    ∃ t : Tier, t.Decides types os i ∧ IsBest os types t.coercion i := by
  obtain ⟨t, ht⟩ := select?_eq_some_iff.1 h
  exact ⟨t, ht, isBest_of_finalists ht.finalists_eq⟩

end Overload

namespace Registry

variable {r : Registry} {n : FunctionName} {types : List SqlType} {p : SearchPath}
  {i : Instantiation}

/-- **A call means the best of its candidates.** The function that it is resolved to is known under
a name that the call may mean. It is the one candidate that the first tier with a single finalist
leaves, and at the coercion of this tier it is the best of the candidates. -/
theorem exists_isBest_of_resolve (h : r.resolve n types p = .ok i) :
    i.declared.name ∈ n.lookups p ∧ ∃ t : Tier, t.Decides types (r.candidates n p) i ∧
      Overload.IsBest (r.candidates n p) types t.coercion i := by
  obtain ⟨t, ht, hbest⟩ := Overload.exists_isBest_of_select? (resolve_eq_ok_iff.1 h)
  exact ⟨name_mem_lookups hbest.mem, t, ht, hbest⟩

/-- `f(E, E)`, `f(bigint...)`, `f(smallint, bigint)` and `f(smallint, text)`, which admits no
coercion. -/
def mixture : List Overload :=
  [Catalog.function .scalar "f" [.arguments [.var "E", .var "E"]],
    Catalog.function .scalar "f" [.arguments [Catalog.type .bigint], .variadic],
    Catalog.function .scalar "f" [.arguments [Catalog.type .smallint, Catalog.type .bigint]],
    Catalog.function .scalar "f" [.arguments [Catalog.type .smallint, Catalog.type .text], .exact]].map
    fun s => { signature := s }

/-- The registry of these overloads. -/
def mixed : Registry := { builtins := .ofList mixture }

/-- `f(smallint, bigint)` at arguments of its own types. -/
def third : Instantiation :=
  mixture[2].instantiate [.scalar .smallint, .scalar .bigint] .undefined

/-- Promotions decide, and of the two overloads that leave one argument of `f(smallint, integer)`
unchanged the narrower one wins. -/
theorem exists_isBest_of_resolve_mixture :
    mixed.resolve { name := "f" } [.scalar .smallint, .scalar .integer] {} = .ok third ∧
      Tier.promotion.Decides [.scalar .smallint, .scalar .integer]
        (mixed.candidates { name := "f" } {}) third ∧
      Overload.IsBest (mixed.candidates { name := "f" } {})
        [.scalar .smallint, .scalar .integer] .promotion third := by
  have h : mixed.resolve { name := "f" } [.scalar .smallint, .scalar .integer] {} = .ok third := by
    decide +kernel
  have hpromotion : Tier.promotion.finalists [.scalar .smallint, .scalar .integer]
      (mixed.candidates { name := "f" } {}) = [third] := by
    decide +kernel
  obtain ⟨-, t, ht, hbest⟩ := exists_isBest_of_resolve h
  obtain rfl : t = .promotion := by
    have hfinal := ht.finalists_eq
    cases t with
    | promotion => rfl
    | exact | generic => exact absurd hfinal (by decide +kernel)
    | cast => exact absurd hpromotion (ht.undecided .promotion (by decide) third)
  exact ⟨h, ht, hbest⟩

end Registry

end Overloading
