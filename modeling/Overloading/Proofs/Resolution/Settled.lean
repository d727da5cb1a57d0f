import Overloading.Proofs.Binding.Idempotence
import Overloading.Proofs.Resolution.Relevance
import Overloading.Proofs.Resolution.Winner

/-! # Settled calls

An overload fits a call if it takes the arguments as they are, or if it admits coercion and casts
take them there (`Overload.Fits`). What is selected always fits, but overloads that fit may tie in
every tier, and what is selected may change with the types of the arguments. A call is settled by
its overloads if neither happens (`Overload.Settled`): if any of them fits, one is selected, and a
call with the types that the arguments were given selects the same again.

A single overload settles every call (`Overload.settled_singleton`), and overloads that cannot apply
make no difference (`Overload.Settled.of_filter`). In particular only those that admit the number of
the arguments count (`Overload.Settled.of_admitting`). -/

namespace Overloading

theorem undominated_singleton {α : Type} (ahead : α → α → Bool) (x : α) :
    undominated ahead [x] = [x] := by
  simp [undominated]

namespace Instantiation

theorem breakTie_singleton (types : List SqlType) (i : Instantiation) :
    breakTie types [i] = [i] := by
  unfold breakTie
  split <;> rfl

/-- The arguments are given one type each. -/
theorem length_of_args {i : Instantiation} {m : Coercion} {types ds : List SqlType}
    (hb : i.declared.bind? m (types.map SqlType.toTerm) = some i.bound)
    (hds : i.bound.args = ds.map SqlType.toTerm) : ds.length = types.length := by
  obtain ⟨es, hes, hlen⟩ := Signature.exists_types_of_bind? hb
  rw [SqlType.map_toTerm_injective (hds.symm.trans hes), hlen, List.length_map]

end Instantiation

namespace Tier

variable {t : Tier} {types : List SqlType} {os : List Overload} {i : Instantiation}

/-- Who is alone in a tier wins it. -/
theorem winner?_of_applicable_singleton (h : t.applicable types os = [i]) :
    t.winner? types os = some i := by
  rw [winner?_eq_some_iff]
  unfold finalists Instantiation.mostSpecific Instantiation.reduce
  rw [h, undominated_singleton, undominated_singleton, Instantiation.breakTie_singleton, ite_self]

theorem winner?_of_applicable_nil (h : t.applicable types os = []) :
    t.winner? types os = none := by
  refine winner?_eq_none_iff.2 fun i hi => ?_
  have hmem : i ∈ t.applicable types os :=
    t.mem_of_mem_finalists types (hi ▸ List.mem_singleton_self i)
  rw [h] at hmem
  cases hmem

theorem applicable_singleton (hadm : t.admits i.declared.rules = true)
    (hb : i.declared.bind? t.coercion (types.map SqlType.toTerm) = some i.bound) :
    t.applicable types [i.overload] = [i] := by
  simp [applicable, hadm, hb]

theorem applicable_eq_nil_of_admits (h : ∀ o ∈ os, t.admits o.signature.rules = false) :
    t.applicable types os = [] := by
  refine List.eq_nil_iff_forall_not_mem.2 fun i hi => ?_
  obtain ⟨hmem, hadm, -⟩ := (t.mem_applicable types).1 hi
  rw [h i.overload hmem] at hadm
  cases hadm

end Tier

namespace Overload

variable {types : List SqlType} {os : List Overload} {o : Overload} {t : Tier} {i : Instantiation}

/-- The overload takes the arguments as they are, or it admits coercion and takes them with
casts. -/
def Fits (o : Overload) (types : List SqlType) : Prop :=
  (o.signature.bind? .exact (types.map SqlType.toTerm)).isSome = true ∨
    o.signature.rules.coercible = true ∧
      (o.signature.bind? .cast (types.map SqlType.toTerm)).isSome = true

theorem Fits.isSome_bind?_cast (h : o.Fits types) :
    (o.signature.bind? .cast (types.map SqlType.toTerm)).isSome = true := by
  rcases h with h | ⟨-, h⟩
  · obtain ⟨b, hb⟩ := Option.isSome_iff_exists.1 h
    rw [Signature.bind?_of_exact hb .cast]
    rfl
  · exact h

/-- **What is selected fits.** -/
theorem fits_of_select? (h : select? types os = some i) :
    i.overload ∈ os ∧ i.overload.Fits types := by
  obtain ⟨t, -, hbest⟩ := exists_isBest_of_select? h
  refine ⟨hbest.mem, ?_⟩
  cases hrigid : i.declared.rules.coercible with
  | true =>
    obtain ⟨b, hb⟩ := Signature.exists_bind?_cast hbest.bound
    exact Or.inr ⟨hrigid, Option.isSome_iff_exists.2 ⟨b, hb⟩⟩
  | false =>
    have hbound := hbest.bound
    rw [(hbest.rigid hrigid).1] at hbound
    exact Or.inl (Option.isSome_iff_exists.2 ⟨i.bound, hbound⟩)

theorem exists_select?_of_winner? (h : t.winner? types os = some i) :
    ∃ j, select? types os = some j := by
  rw [← Option.isSome_iff_exists]
  refine List.findSome?_isSome_iff.2 ⟨t, ?_, Option.isSome_iff_exists.2 ⟨i, h⟩⟩
  cases t <;> decide

/-- If any of the overloads fits, one is selected, and a call with the types that the arguments are
given selects the same again. -/
structure Settled (os : List Overload) (types : List SqlType) : Prop where
  decided : (∃ o ∈ os, o.Fits types) → ∃ i, select? types os = some i
  stable : ∀ i, select? types os = some i → ∀ ds : List SqlType,
    i.bound.args = ds.map SqlType.toTerm → select? ds os = some i

theorem settled_nil (types : List SqlType) : Settled [] types := by
  refine ⟨?_, fun i hi => ?_⟩
  · rintro ⟨o, ho, -⟩
    cases ho
  · cases (fits_of_select? hi).1

/-- A single overload that takes the arguments as they are is selected. -/
theorem select?_singleton_of_exact
    (hb : i.declared.bind? .exact (types.map SqlType.toTerm) = some i.bound) :
    select? types [i.overload] = some i := by
  unfold select? Tier.all
  rw [List.findSome?_cons, List.findSome?_cons]
  cases hx : i.declared.rules.isExact with
  | true =>
    have happ : Tier.exact.applicable types [i.overload] = [i] := Tier.applicable_singleton hx hb
    rw [Tier.winner?_of_applicable_singleton happ]
  | false =>
    have hnone : Tier.exact.applicable types [i.overload] = [] :=
      Tier.applicable_eq_nil_of_admits fun o ho => List.mem_singleton.1 ho ▸ hx
    have happ : Tier.generic.applicable types [i.overload] = [i] :=
      Tier.applicable_singleton (by simpa [Tier.admits] using hx) hb
    rw [Tier.winner?_of_applicable_nil hnone, Tier.winner?_of_applicable_singleton happ]

/-- A single overload that admits coercion and takes the arguments by promotions is selected, and
with that binding: if it takes them as they are, it is bound in the same way. -/
theorem select?_singleton_of_promotion (hadm : i.declared.rules.coercible = true)
    (hb : i.declared.bind? .promotion (types.map SqlType.toTerm) = some i.bound) :
    select? types [i.overload] = some i := by
  cases hexact : i.declared.bind? .exact (types.map SqlType.toTerm) with
  | some b =>
    have hsame : some b = some i.bound := by rw [← Signature.bind?_of_exact hexact .promotion, hb]
    rw [Option.some.inj hsame] at hexact
    exact select?_singleton_of_exact hexact
  | none =>
    have hnil : ∀ t : Tier, t.coercion = .exact → t.winner? types [i.overload] = none := by
      intro t ht
      refine Tier.winner?_of_applicable_nil (List.eq_nil_iff_forall_not_mem.2 fun j hj => ?_)
      obtain ⟨hmem, -, hbj⟩ := (t.mem_applicable types).1 hj
      have hij : j.overload = i.overload := List.mem_singleton.1 hmem
      rw [Instantiation.declared, hij, ht, hexact] at hbj
      cases hbj
    have happ : Tier.promotion.applicable types [i.overload] = [i] :=
      Tier.applicable_singleton hadm hb
    unfold select? Tier.all
    rw [List.findSome?_cons, hnil .exact rfl, List.findSome?_cons, hnil .generic rfl,
      List.findSome?_cons, Tier.winner?_of_applicable_singleton happ]

/-- **A single overload settles every call.** -/
theorem settled_singleton (o : Overload) (types : List SqlType) : Settled [o] types := by
  constructor
  · rintro ⟨o', ho', hfits⟩
    obtain rfl := List.mem_singleton.1 ho'
    rcases hfits with hexact | ⟨hadm, hcast⟩
    · obtain ⟨b, hb⟩ := Option.isSome_iff_exists.1 hexact
      exact ⟨⟨o', b⟩, select?_singleton_of_exact (i := ⟨o', b⟩) hb⟩
    · obtain ⟨b, hb⟩ := Option.isSome_iff_exists.1 hcast
      have happ : Tier.cast.applicable types [o'] = [⟨o', b⟩] :=
        Tier.applicable_singleton (i := ⟨o', b⟩) hadm hb
      exact exists_select?_of_winner? (Tier.winner?_of_applicable_singleton happ)
  · intro i hi ds hds
    obtain ⟨t, -, hbest⟩ := exists_isBest_of_select? hi
    have hsame := Signature.bind?_exact_args hbest.bound
    rw [hds] at hsame
    rw [← List.mem_singleton.1 hbest.mem]
    exact select?_singleton_of_exact hsame

theorem settled_of_length_le_one (h : os.length ≤ 1) (types : List SqlType) : Settled os types := by
  match os, h with
  | [], _ => exact settled_nil types
  | [o], _ => exact settled_singleton o types

/-- **Overloads that cannot apply make no difference,** if they apply neither to the arguments nor
to the types that these are given. -/
theorem Settled.of_filter {q : Overload → Bool} (h : Settled (os.filter q) types)
    (htypes : ∀ o ∈ os, q o = false → o.signature.bind? .cast (types.map SqlType.toTerm) = none)
    (hgiven : ∀ i, select? types (os.filter q) = some i → ∀ ds : List SqlType,
      i.bound.args = ds.map SqlType.toTerm → ∀ o ∈ os, q o = false →
        o.signature.bind? .cast (ds.map SqlType.toTerm) = none) :
    Settled os types := by
  constructor
  · rintro ⟨o, ho, hfits⟩
    have hq : q o = true := by
      by_contra hq
      have hcast := hfits.isSome_bind?_cast
      rw [htypes o ho (Bool.eq_false_of_not_eq_true hq)] at hcast
      cases hcast
    rw [← select?_filter htypes]
    exact h.decided ⟨o, List.mem_filter.2 ⟨ho, hq⟩, hfits⟩
  · intro i hi ds hds
    rw [← select?_filter htypes] at hi
    rw [← select?_filter (hgiven i hi ds hds)]
    exact h.stable i hi ds hds

/-- The overload admits `n` arguments. -/
def admitsArity (n : Nat) (o : Overload) : Bool := (o.signature.formals? n).isSome

/-- More arguments than an overload declares are admitted by a variadic one only. -/
theorem admitsArity_of_lt {n : Nat} (h : o.signature.args.length < n) :
    o.admitsArity n = o.signature.tail?.isSome := by
  unfold admitsArity Signature.formals?
  cases o.signature.tail? with
  | none => simp [Nat.ne_of_lt h]
  | some t => simp [Nat.le_succ_of_le (Nat.le_of_lt h)]

/-- Without an argument that stands for any number, as many are admitted as are declared. -/
theorem admitsArity_of_fixed {n : Nat} (h : o.signature.tail? = none) :
    o.admitsArity n = decide (o.signature.args.length = n) := by
  unfold admitsArity Signature.formals?
  rw [h]
  by_cases hn : o.signature.args.length = n <;> simp [hn]

theorem bind?_eq_none_of_admitsArity {m : Coercion} {actual : List TypeTerm}
    (h : o.admitsArity actual.length = false) : o.signature.bind? m actual = none := by
  have hnone : o.signature.formals? actual.length = none := by simpa [admitsArity] using h
  unfold Signature.bind?
  rw [hnone]
  rfl

/-- Only the overloads that admit the number of the arguments count. -/
theorem Settled.of_admitting (h : Settled (os.filter (admitsArity types.length)) types) :
    Settled os types := by
  refine h.of_filter (fun o _ hq => ?_) fun i hi ds hds o _ hq => ?_
  · exact bind?_eq_none_of_admitsArity (by rwa [List.length_map])
  · obtain ⟨t, -, hbest⟩ := exists_isBest_of_select? hi
    have hlen : ds.length = types.length := Instantiation.length_of_args hbest.bound hds
    exact bind?_eq_none_of_admitsArity (by rwa [List.length_map, hlen])

end Overload

end Overloading
