import Mathlib.Data.String.Basic
import Overloading.Proofs.Resolution.Ladder

/-! # Fixed and variable arity

Overloads without type variables are uniform at a call if they have the same types for its
arguments (`Overload.IsUniform`). In each tier all of them apply or none does, they keep the same
arguments, and one is narrower than another if it declares as many arguments or more. So a call that
they fit chooses among those that declare the most (`Overload.longest`), by the tie-break
(`Overload.IsUniform.select?_eq_some_iff`).

What counts is how many arguments are declared, not how many the call has. A variadic overload that
is uniform with one of fixed arity may declare fewer, because its last argument is repeated; then it
gives way. If it declares as many, the two tie, and the written forms prefer the fixed arity,
because the parenthesis comes before the three dots (`Signature.render_lt_of_covers`); but they are
asked only if it does not matter which overload is taken. If the last argument stands for none, the
variadic overload declares one more, and then the fixed arity gives way. -/

namespace Overloading

namespace Overload

/-- The overload with these terms for the arguments of a call, and the result that it declares. -/
def verbatim (o : Overload) (args : List TypeTerm) : Instantiation :=
  ⟨o, ⟨o.signature.name, o.signature.kind, args, o.signature.ret⟩⟩

/-- The overloads that no other declares more arguments than. -/
def longest (os : List Overload) : List Overload :=
  undominated (fun o o' => o'.signature.args.length ≤ o.signature.args.length) os

/-- The overloads have no type variables and admit coercion, and at `n` arguments they all have
these types. -/
structure IsUniform (n : Nat) (es : List SqlType) (os : List Overload) : Prop where
  plain : ∀ o ∈ os, o.signature.Plain
  types : ∀ o ∈ os, o.signature.types? n = some es

namespace IsUniform

variable {types es : List SqlType} {os : List Overload} {o o' : Overload}
  (hos : IsUniform types.length es os)

include hos

theorem of_subset {os' : List Overload} (h : os' ⊆ os) : IsUniform types.length es os' where
  plain o ho := hos.plain o (h ho)
  types o ho := hos.types o (h ho)

theorem bind?_eq_some_iff (ho : o ∈ os) {m : Coercion} {b : BoundSignature} :
    o.signature.bind? m (types.map SqlType.toTerm) = some b ↔
      List.Forall₂ (fun t e => t.coercesTo m e = true) types es ∧
        b = (o.verbatim (es.map SqlType.toTerm)).bound :=
  Signature.bind?_eq_some_iff_of_types? (hos.types o ho) (hos.plain o ho).ret

/-- **All of them apply in a tier, or none.** -/
theorem applicable_eq {t : Tier} (ht : t ≠ .generic)
    (h : List.Forall₂ (fun a e => a.coercesTo t.coercion e = true) types es) :
    t.applicable types os = os.map (·.verbatim (es.map SqlType.toTerm)) := by
  have hadm : ∀ o ∈ os, t.admits o.signature.rules = true := fun o ho => by
    cases t with
    | exact => exact (hos.plain o ho).isExact
    | generic => exact absurd rfl ht
    | promotion | cast => exact (hos.plain o ho).coercible
  have hbind : ∀ o ∈ os,
      (o.signature.bind? t.coercion (types.map SqlType.toTerm)).map (Instantiation.mk o) =
        some (o.verbatim (es.map SqlType.toTerm)) := fun o ho => by
    rw [(hos.bind?_eq_some_iff ho).2 ⟨h, rfl⟩]
    rfl
  unfold Tier.applicable
  rw [List.filter_eq_self.2 hadm, List.filterMap_congr hbind]
  exact congrFun List.filterMap_eq_map os

theorem applicable_eq_nil {t : Tier} (h : t = .generic ∨
    ¬ List.Forall₂ (fun a e => a.coercesTo t.coercion e = true) types es) :
    t.applicable types os = [] := by
  refine List.eq_nil_iff_forall_not_mem.2 fun i hi => ?_
  obtain ⟨ho, hadm, hb⟩ := (t.mem_applicable types).1 hi
  rcases h with rfl | h
  · have hexact : i.declared.rules.isExact = true := (hos.plain _ ho).isExact
    simp [Tier.admits, hexact] at hadm
  · exact h ((hos.bind?_eq_some_iff ho).1 hb).1

/-- One is narrower than another if it declares as many arguments or more. -/
theorem narrower_verbatim (hlen : types.length = es.length) (ho' : o' ∈ os) :
    (o.verbatim (es.map SqlType.toTerm)).narrower (o'.verbatim (es.map SqlType.toTerm)) =
      decide (o'.signature.args.length ≤ o.signature.args.length) := by
  have hformals : o'.signature.formals? es.length = some (es.map SqlType.toTerm) := by
    rw [← hlen]
    exact Signature.types?_eq_some_iff.1 (hos.types o' ho')
  have hself : List.Forall₂ (fun d e : SqlType => d.promotesTo e = true) es es :=
    List.forall₂_same.2 fun e _ => e.promotesTo_self
  rw [Bool.eq_iff_iff, decide_eq_true_eq, Instantiation.narrower_iff_of_closed rfl hformals]
  exact and_iff_right hself

/-- **What is left declares the most arguments.** -/
theorem reduce_eq (hlen : types.length = es.length) (actual : List TypeTerm) :
    Instantiation.reduce actual (os.map (·.verbatim (es.map SqlType.toTerm))) =
      (longest os).map (·.verbatim (es.map SqlType.toTerm)) := by
  have hkept : undominated (fun i j : Instantiation => j.kept actual < i.kept actual)
      (os.map (·.verbatim (es.map SqlType.toTerm))) =
        os.map (·.verbatim (es.map SqlType.toTerm)) := by
    -- all are given the same types, so they keep the same arguments
    refine undominated_eq_self fun i hi j hj hlt => ?_
    obtain ⟨o, -, rfl⟩ := List.mem_map.1 hi
    obtain ⟨o', -, rfl⟩ := List.mem_map.1 hj
    exact absurd (of_decide_eq_true hlt) (Nat.lt_irrefl _)
  unfold Instantiation.reduce longest
  rw [hkept, undominated_map]
  congr 1
  exact undominated_congr fun o _ o' ho' => hos.narrower_verbatim hlen ho'

/-- The winner of any tier is what the tie-break between the longest leaves. -/
theorem breakTie_of_winner? {t : Tier} {i : Instantiation} (h : t.winner? types os = some i) :
    Instantiation.breakTie types ((longest os).map (·.verbatim (es.map SqlType.toTerm))) = [i] := by
  have hfinal : t.finalists types os = [i] := (t.winner?_eq_some_iff types).1 h
  have happlies : i ∈ t.applicable types os :=
    t.mem_of_mem_finalists types (hfinal ▸ List.mem_singleton_self i)
  have ht : t ≠ .generic ∧
      List.Forall₂ (fun a e => a.coercesTo t.coercion e = true) types es := by
    by_contra hnot
    rw [hos.applicable_eq_nil (by tauto)] at happlies
    cases happlies
  unfold Tier.finalists Instantiation.mostSpecific at hfinal
  rw [hos.applicable_eq ht.1 ht.2, hos.reduce_eq ht.2.length_eq] at hfinal
  split at hfinal
  · exact hfinal
  · -- no argument may change its type, so there is no other overload to choose
    obtain ⟨o, rfl, rfl⟩ := List.map_eq_singleton_iff.1 hfinal
    rw [longest, undominated_singleton, List.map_singleton, Instantiation.breakTie_singleton]

/-- **A call that they fit is left to the tie-break between the longest.** -/
theorem select?_eq_some_iff
    (hfits : List.Forall₂ (fun a e => a.coercesTo .cast e = true) types es) {i : Instantiation} :
    select? types os = some i ↔
      Instantiation.breakTie types ((longest os).map (·.verbatim (es.map SqlType.toTerm))) =
        [i] := by
  have hwins : ∀ j, select? types os = some j →
      Instantiation.breakTie types ((longest os).map (·.verbatim (es.map SqlType.toTerm))) =
        [j] := fun j hj => by
    obtain ⟨t, ht⟩ := Overload.select?_eq_some_iff.1 hj
    exact hos.breakTie_of_winner? ((t.winner?_eq_some_iff types).2 ht.finalists_eq)
  refine ⟨hwins i, fun h => ?_⟩
  have hcast : Tier.cast.winner? types os = some i := by
    rw [Tier.winner?_eq_some_iff]
    have hconv : Tier.cast.coercion.converts = true := rfl
    unfold Tier.finalists Instantiation.mostSpecific
    rw [if_pos hconv, hos.applicable_eq (t := .cast) (by decide) hfits,
      hos.reduce_eq hfits.length_eq, h]
  obtain ⟨j, hj⟩ := exists_select?_of_winner? hcast
  rw [hwins j hj, List.cons.injEq, and_iff_left rfl] at h
  rw [hj, h]

end IsUniform

theorem longest_eq_singleton (hp : os.Perm [o, o'])
    (h : o'.signature.args.length < o.signature.args.length) : longest os = [o] := by
  have hpair : longest [o, o'] = [o] := by
    simp [longest, undominated, h.le, Nat.not_le.2 h]
  have hleft : (longest os).Perm (longest [o, o']) := Instantiation.undominated_perm _ hp
  rw [hpair] at hleft
  exact List.perm_singleton.1 hleft

theorem longest_eq_self (hp : os.Perm [o, o'])
    (h : o.signature.args.length = o'.signature.args.length) : longest os = os := by
  have hlen : ∀ a ∈ os, a.signature.args.length = o.signature.args.length := by
    intro a ha
    rcases List.mem_pair.1 (hp.subset ha) with rfl | rfl
    · rfl
    · exact h.symm
  refine undominated_eq_self fun a ha b hb _ => ?_
  rw [decide_eq_true_eq, hlen a ha, hlen b hb]

end Overload

/-! ### Written forms -/

/-- A text that is added to the last item is added to the whole list. -/
theorem intercalate_concat_append (sep x y : String) (xs : List String) :
    sep.intercalate (xs ++ [x ++ y]) = sep.intercalate (xs ++ [x]) ++ y := by
  cases xs with
  | nil => rw [List.nil_append, List.nil_append, String.intercalate_singleton,
      String.intercalate_singleton]
  | cons z zs =>
    rw [String.intercalate_append_of_ne_nil (List.cons_ne_nil z zs) (List.cons_ne_nil _ _),
      String.intercalate_append_of_ne_nil (List.cons_ne_nil z zs) (List.cons_ne_nil _ _),
      String.intercalate_singleton, String.intercalate_singleton, ← String.append_assoc]

namespace Signature

variable {v f : Signature}

/-- `v` ends in an argument that stands for any number, `f` does not, and for as many arguments as
`f` declares `v` has the same terms. -/
structure Covers (v f : Signature) : Prop where
  variadic : v.tail?.isSome = true
  fixed : f.tail? = none
  formals : v.formals? f.args.length = some f.args

instance (v f : Signature) : Decidable (v.Covers f) :=
  decidable_of_iff (v.tail?.isSome = true ∧ f.tail? = none ∧
      v.formals? f.args.length = some f.args)
    ⟨fun ⟨hv, hf, h⟩ => ⟨hv, hf, h⟩, fun h => ⟨h.variadic, h.fixed, h.formals⟩⟩

/-- Only the last argument may stand for none. -/
theorem Covers.length_le (h : v.Covers f) : v.args.length ≤ f.args.length + 1 := by
  obtain ⟨t, ht⟩ := Option.isSome_iff_exists.1 h.variadic
  have hformals := h.formals
  unfold formals? at hformals
  rw [ht] at hformals
  by_contra hlt
  simp [hlt] at hformals

/-- With as many arguments the two declare the same ones. -/
theorem Covers.exists_args_eq (h : v.Covers f) (hlen : v.args.length = f.args.length) :
    ∃ ts t, v.tail? = some t ∧ v.args = ts ++ [t] ∧ f.args = ts ++ [t] := by
  obtain ⟨t, ht⟩ := Option.isSome_iff_exists.1 h.variadic
  have hlast : v.args.getLast? = some t := by
    unfold tail? at ht
    split at ht
    · exact ht
    · cases ht
  have hformals := h.formals
  unfold formals? at hformals
  rw [ht, ← hlen] at hformals
  simp only [Nat.le_add_right, if_true, Nat.add_sub_cancel_left, List.replicate_one,
    Option.some.injEq] at hformals
  exact ⟨v.args.dropLast, t, ht, (List.dropLast_append_getLast? t hlast).symm, hformals.symm⟩

/-- **The parenthesis comes before the dots.** -/
theorem render_lt_of_covers (h : v.Covers f) (hname : v.name = f.name)
    (hlen : v.args.length = f.args.length) : f.render < v.render := by
  obtain ⟨ts, t, ht, hv, hf⟩ := h.exists_args_eq hlen
  have hfargs : f.renderArgs = ts.map TypeTerm.render ++ [t.render] := by
    unfold renderArgs
    rw [h.fixed, hf, List.map_append, List.map_singleton]
  have hvargs : v.renderArgs = ts.map TypeTerm.render ++ [t.render ++ "..."] := by
    unfold renderArgs
    rw [ht, hv, List.dropLast_concat]
  unfold render FunctionName.renderCall
  rw [hname, hfargs, hvargs, intercalate_concat_append, String.lt_iff_toList_lt]
  simp only [String.toList_append, List.append_assoc]
  refine List.append_left_lt (List.append_left_lt (List.append_left_lt ?_))
  exact List.cons_lt_cons_iff.2 (Or.inl (by decide))

end Signature

namespace Instantiation

variable {is : List Instantiation} {i j : Instantiation}

theorem compareTexts_eq_lt (h : i.declared.render < j.declared.render) :
    compareTexts i j = .lt := by
  have hcompare : compareOn (fun i : Instantiation => i.declared.render) i j = .lt :=
    compareOfLessAndEq_eq_lt.2 h
  rw [compareTexts, compareLex, hcompare]
  rfl

/-- What comes before all others is the foremost. -/
theorem foremost?_eq_some (hi : i ∈ is) (h : ∀ j ∈ is, j ≠ i → compareTexts i j = .lt) :
    foremost? is = some i := by
  obtain ⟨j, hj⟩ := exists_foremost? (List.ne_nil_of_mem hi)
  rw [hj, Option.some.injEq]
  by_contra hne
  have hle := isLE_of_foremost? hj hi
  have hlt : compareTexts i j = .lt := h j (mem_of_foremost? hj) hne
  rw [@Std.OrientedCmp.eq_swap _ compareTexts _ j i, hlt] at hle
  cases hle

end Instantiation

/-! ### Two overloads -/

namespace Overload

variable {types es : List SqlType} {os : List Overload} {o o' f v : Overload}

/-- The results of both are declared as one type. -/
def SharesResult (o o' : Overload) : Prop :=
  ∃ t : SqlType, o.signature.ret = t.toTerm ∧ o'.signature.ret = t.toTerm

/-- When it does not matter which of the two is taken. -/
theorem sameResult_or_iff (hp : os.Perm [o, o']) (args : List TypeTerm) (types : List SqlType) :
    (Instantiation.sameResult (os.map (·.verbatim args)) || types.all SqlType.isUndefined) = true ↔
      o.SharesResult o' ∨ ∀ t ∈ types, t = .undefined := by
  have hresult : Instantiation.sameResult (os.map (·.verbatim args)) = true ↔
      o.SharesResult o' := by
    rw [Instantiation.sameResult_perm (hp.map _), Instantiation.sameResult_iff]
    simp [SharesResult, verbatim, TypeTerm.denote_eq_ok_iff]
  rw [Bool.or_eq_true, hresult, List.all_eq_true]
  simp only [SqlType.isUndefined_iff]

/-- Where a signature of fixed arity fits, one that covers it has the same types. -/
theorem exists_isUniform_of_covers (hf : f.signature.Plain) (hv : v.signature.Plain)
    (h : v.signature.Covers f.signature)
    (hfits : (f.signature.bind? .cast (types.map SqlType.toTerm)).isSome = true) :
    ∃ es : List SqlType, f.signature.args = es.map SqlType.toTerm ∧
      IsUniform types.length es [f, v] ∧
      List.Forall₂ (fun a e => a.coercesTo .cast e = true) types es := by
  obtain ⟨b, hb⟩ := Option.isSome_iff_exists.1 hfits
  obtain ⟨es, -, -, hes⟩ := Instantiation.exists_types_of_closed (i := ⟨f, b⟩) hb hf.args
  rw [List.length_map] at hes
  have hargs : f.signature.args.length = types.length ∧
      f.signature.args = es.map SqlType.toTerm := by
    simpa [Signature.formals?, h.fixed] using hes
  have hformals : v.signature.formals? types.length = some (es.map SqlType.toTerm) := by
    rw [← hargs.1, ← hargs.2]
    exact h.formals
  have hall := (Signature.bind?_eq_some_iff_of_types? (Signature.types?_eq_some_iff.2 hes)
    hf.ret).1 hb
  refine ⟨es, hargs.2, ⟨?_, ?_⟩, hall.1⟩
  · simp [hf, hv]
  · simp [Signature.types?_eq_some_iff, hes, hformals]

namespace IsUniform

theorem select?_singleton (hos : IsUniform types.length es [o])
    (hfits : List.Forall₂ (fun a e => a.coercesTo .cast e = true) types es) :
    select? types [o] = some (o.verbatim (es.map SqlType.toTerm)) := by
  rw [hos.select?_eq_some_iff hfits, longest, undominated_singleton, List.map_singleton,
    Instantiation.breakTie_singleton]

variable (hos : IsUniform types.length es os)
  (hfits : List.Forall₂ (fun a e => a.coercesTo .cast e = true) types es)

include hos hfits

theorem select?_of_longer (hp : os.Perm [o, o'])
    (h : o'.signature.args.length < o.signature.args.length) :
    select? types os = some (o.verbatim (es.map SqlType.toTerm)) := by
  rw [hos.select?_eq_some_iff hfits, longest_eq_singleton hp h, List.map_singleton,
    Instantiation.breakTie_singleton]

section Tie

variable (hp : os.Perm [o, o']) (hlen : o.signature.args.length = o'.signature.args.length)

include hp hlen

/-- If it does not matter which one is taken, it is the one whose written form comes first. -/
theorem select?_of_foremost (hlt : o.signature.render < o'.signature.render)
    (h : o.SharesResult o' ∨ ∀ t ∈ types, t = .undefined) :
    select? types os = some (o.verbatim (es.map SqlType.toTerm)) := by
  rw [hos.select?_eq_some_iff hfits, longest_eq_self hp hlen]
  have hfirst : Instantiation.foremost? (os.map (·.verbatim (es.map SqlType.toTerm))) =
      some (o.verbatim (es.map SqlType.toTerm)) := by
    refine Instantiation.foremost?_eq_some
      (List.mem_map_of_mem (hp.symm.subset List.mem_cons_self)) fun j hj hne => ?_
    obtain ⟨a, ha, rfl⟩ := List.mem_map.1 hj
    rcases List.mem_pair.1 (hp.subset ha) with rfl | rfl
    · exact absurd rfl hne
    · exact Instantiation.compareTexts_eq_lt hlt
  unfold Instantiation.breakTie
  rw [if_pos ((sameResult_or_iff hp _ types).2 h), hfirst]
  rfl

/-- Otherwise the call is ambiguous. -/
theorem select?_eq_none (h : ¬ (o.SharesResult o' ∨ ∀ t ∈ types, t = .undefined)) :
    select? types os = none := by
  refine Option.eq_none_iff_forall_ne_some.2 fun i hi => ?_
  rw [hos.select?_eq_some_iff hfits, longest_eq_self hp hlen] at hi
  unfold Instantiation.breakTie at hi
  rw [if_neg (mt (sameResult_or_iff hp _ types).1 h)] at hi
  have hone : os.length = 1 := by simpa using congrArg List.length hi
  rw [hp.length_eq] at hone
  cases hone

end Tie

end IsUniform

end Overload

namespace Table

variable {t : Table} {n k : FunctionName} {p : SearchPath}

/-- A call that may mean the only name of the table chooses from all overloads. -/
theorem candidates_of_name (h : ∀ o ∈ t.overloads, o.name = k) (hk : k ∈ n.lookups p) :
    t.candidates n p = t.overloads := by
  have hgroup : t.group k = t.overloads :=
    List.filter_eq_self.2 fun o ho => decide_eq_true (h o ho)
  by_cases hnil : t.candidates n p = []
  · rw [hnil, ← hgroup]
    exact (candidates_eq_nil_iff.1 hnil k hk).symm
  · obtain ⟨j, hj⟩ := exists_candidates_eq_group hnil
    obtain ⟨o, ho⟩ := List.exists_mem_of_ne_nil _ hnil
    have hname : o.name = k := h o (mem_of_mem_candidates ho).1
    rw [hj, mem_group, hname] at ho
    rw [hj, ← ho.2, hgroup]

end Table

namespace Registry

variable {r : Registry} {n k : FunctionName} {p : SearchPath} {f v : Overload}
  {types : List SqlType}

/-- A call that may mean the only name of the registry chooses from what is built in or, if nothing
is, from what users define. -/
theorem candidates_of_name (h : ∀ o ∈ r.builtins.overloads ++ r.userDefined.overloads, o.name = k)
    (hk : k ∈ n.lookups p) :
    r.candidates n p = if r.builtins.overloads = [] then r.userDefined.overloads
      else r.builtins.overloads := by
  rw [List.forall_mem_append] at h
  rw [candidates_eq, Table.candidates_of_name h.1 hk, Table.candidates_of_name h.2 hk]

theorem forall_name_of_pair (hr : (r.builtins.overloads ++ r.userDefined.overloads).Perm [f, v])
    (hname : v.name = f.name) :
    ∀ o ∈ r.builtins.overloads ++ r.userDefined.overloads, o.name = f.name := by
  intro o ho
  rcases List.mem_pair.1 (hr.subset ho) with rfl | rfl
  · rfl
  · exact hname

/-- If both overloads of a registry are in one table, a call chooses from both, in their order. -/
theorem candidates_of_pair (hr : (r.builtins.overloads ++ r.userDefined.overloads).Perm [f, v])
    (hname : v.name = f.name) (hn : f.name ∈ n.lookups p) (hone : r.builtins.overloads.length ≠ 1) :
    r.candidates n p = r.builtins.overloads ++ r.userDefined.overloads := by
  rw [candidates_of_name (forall_name_of_pair hr hname) hn]
  split
  · rename_i hnil
    rw [hnil, List.nil_append]
  · rename_i hne
    have hpos := List.length_pos_iff.2 hne
    have hlen : r.builtins.overloads.length + r.userDefined.overloads.length = 2 := by
      simpa using hr.length_eq
    have hrest : r.userDefined.overloads = [] := List.length_eq_zero_iff.1 (by omega)
    rw [hrest, List.append_nil]

/-- **How many arguments are declared decides between fixed and variable arity.** Let a registry
hold two overloads without type variables that admit coercion, one of fixed arity and a variadic one
that has the same types for as many arguments, and let a call fit the one of fixed arity.

If both are in one table, it counts which of them declares more arguments: the call is resolved to
that one, and the variadic one declares one more at most. If they declare equally many, the call is
resolved to the one of fixed arity, provided that the results are of one type or that no argument
has a type of its own; otherwise it is reported as ambiguous. If only one of the two is built in,
the call is resolved to that one. -/
theorem resolve_of_covers (hf : f.signature.Plain) (hv : v.signature.Plain)
    (hname : v.name = f.name) (hcov : v.signature.Covers f.signature)
    (hfits : (f.signature.bind? .cast (types.map SqlType.toTerm)).isSome = true)
    (hr : (r.builtins.overloads ++ r.userDefined.overloads).Perm [f, v])
    (hn : f.name ∈ n.lookups p) :
    (r.builtins.overloads.length ≠ 1 →
      (v.signature.args.length < f.signature.args.length ∨
          v.signature.args.length = f.signature.args.length ∧
            (f.SharesResult v ∨ ∀ t ∈ types, t = .undefined) →
        r.resolve n types p = .ok (f.verbatim f.signature.args)) ∧
      (v.signature.args.length = f.signature.args.length →
          ¬ (f.SharesResult v ∨ ∀ t ∈ types, t = .undefined) →
        r.resolve n types p = .error (.unknownFunction n types
          ((r.builtins.overloads ++ r.userDefined.overloads).map (·.signature)))) ∧
      (f.signature.args.length < v.signature.args.length →
        v.signature.args.length = f.signature.args.length + 1 ∧
          r.resolve n types p = .ok (v.verbatim f.signature.args))) ∧
    ∀ o, r.builtins.overloads = [o] → r.resolve n types p = .ok (o.verbatim f.signature.args) := by
  obtain ⟨es, hes, hpair, hall⟩ := Overload.exists_isUniform_of_covers hf hv hcov hfits
  have hos := hpair.of_subset hr.subset
  constructor
  · intro hone
    have hboth := candidates_of_pair hr hname hn hone
    refine ⟨?_, fun hlen h => ?_, fun hlt => ?_⟩
    · rintro (hlt | ⟨hlen, h⟩)
      · rw [resolve_eq_ok_iff, hboth, hos.select?_of_longer hall hr hlt, hes]
      · have htexts : f.signature.render < v.signature.render :=
          Signature.render_lt_of_covers hcov hname hlen
        rw [resolve_eq_ok_iff, hboth, hos.select?_of_foremost hall hr hlen.symm htexts h, hes]
    · rw [resolve_eq_error_iff, hboth]
      exact ⟨hos.select?_eq_none hall hr hlen.symm h, rfl⟩
    · have hle : v.signature.args.length ≤ f.signature.args.length + 1 := hcov.length_le
      have hswap := hr.trans (List.Perm.swap v f [])
      refine ⟨by omega, ?_⟩
      rw [resolve_eq_ok_iff, hboth, hos.select?_of_longer hall hswap hlt, hes]
  · intro o ho
    have hmem : o ∈ r.builtins.overloads ++ r.userDefined.overloads := by simp [ho]
    have halone := hos.of_subset (List.cons_subset.2 ⟨hmem, List.nil_subset _⟩)
    rw [resolve_eq_ok_iff, candidates_of_name (forall_name_of_pair hr hname) hn, ho,
      if_neg (List.cons_ne_nil o []), halone.select?_singleton hall, hes]

/-- `concat(text, text)`. -/
def fixed : Overload where
  signature := Catalog.function .scalar "concat"
    [.arguments [Catalog.type .text, Catalog.type .text], .returns (Catalog.type .text)]

/-- `concat(text, …, text...)` with this number of declared arguments. -/
def many (k : Nat) (ret : Scalar) : Overload where
  signature := Catalog.function .scalar "concat"
    [.arguments (List.replicate k (Catalog.type .text)), .variadic, .returns (Catalog.type ret)]

/-- Two texts fit all of these. Which overload they go to depends on how many arguments are
declared, on whether the results agree and on which overload is built in. -/
theorem resolve_of_covers_concat :
    resolve { builtins := .ofList [many 1 .bigint, fixed] } { name := "concat" }
        [.scalar .text, .scalar .text] {} = .ok (fixed.verbatim fixed.signature.args) ∧
      resolve { userDefined := .ofList [many 2 .text, fixed] } { name := "concat" }
        [.scalar .text, .scalar .text] {} = .ok (fixed.verbatim fixed.signature.args) ∧
      resolve { userDefined := .ofList [many 2 .bigint, fixed] } { name := "concat" }
          [.scalar .text, .scalar .text] {} =
        .error (.unknownFunction { name := "concat" } [.scalar .text, .scalar .text]
          [(many 2 .bigint).signature, fixed.signature]) ∧
      resolve { builtins := .ofList [fixed, many 3 .text] } { name := "concat" }
        [.scalar .text, .scalar .text] {} = .ok ((many 3 .text).verbatim fixed.signature.args) ∧
      resolve { builtins := .ofList [many 1 .text], userDefined := .ofList [fixed] }
          { name := "concat" } [.scalar .text, .scalar .text] {} =
        .ok ((many 1 .text).verbatim fixed.signature.args) := by
  have hf : fixed.signature.Plain := by decide
  have hfits : (fixed.signature.bind? .cast
      ([.scalar .text, .scalar .text].map SqlType.toTerm)).isSome = true := by decide
  have hn : fixed.name ∈ FunctionName.lookups { name := "concat" } {} := by decide
  have hambiguous : ¬ (fixed.SharesResult (many 2 .bigint) ∨
      ∀ t ∈ [SqlType.scalar .text, .scalar .text], t = .undefined) := by
    rintro (⟨t, htext, hbigint⟩ | hall)
    · exact absurd (htext.trans hbigint.symm) (by decide)
    · exact absurd (hall _ List.mem_cons_self) (by decide)
  refine ⟨?_, ?_, ?_, ?_, ?_⟩
  · exact ((resolve_of_covers (v := many 1 .bigint) (r := { builtins := .ofList _ }) hf (by decide)
      rfl (by decide) hfits (by decide) hn).1 (by decide)).1 (Or.inl (by decide))
  · exact ((resolve_of_covers (v := many 2 .text) (r := { userDefined := .ofList _ }) hf (by decide)
      rfl (by decide) hfits (by decide) hn).1 (by decide)).1
        (Or.inr ⟨rfl, Or.inl ⟨.scalar .text, rfl, rfl⟩⟩)
  · exact ((resolve_of_covers (v := many 2 .bigint) (r := { userDefined := .ofList _ }) hf
      (by decide) rfl (by decide) hfits (by decide) hn).1 (by decide)).2.1 rfl hambiguous
  · exact (((resolve_of_covers (v := many 3 .text) (r := { builtins := .ofList _ }) hf (by decide)
      rfl (by decide) hfits (by decide) hn).1 (by decide)).2.2 (by decide)).2
  · exact (resolve_of_covers (v := many 1 .text)
      (r := { builtins := .ofList _, userDefined := .ofList _ }) hf (by decide) rfl (by decide)
      hfits (by decide) hn).2 (many 1 .text) rfl

/-- **Fixed arity does not always win:** two texts go to a variadic overload that declares three
arguments. -/
theorem not_forall_resolve_of_covers :
    ¬ ∀ (f v : Overload) (types : List SqlType) (os : List Overload),
      f.signature.Plain → v.signature.Plain → v.name = f.name →
      v.signature.Covers f.signature →
      (f.signature.bind? .cast (types.map SqlType.toTerm)).isSome = true → os.Perm [f, v] →
      ∃ i, resolve { builtins := .ofList os } f.name types {} = .ok i ∧ i.overload = f := by
  intro h
  obtain ⟨i, hi, hfixed⟩ := h fixed (many 3 .text) [.scalar .text, .scalar .text]
    [fixed, many 3 .text] (by decide) (by decide) rfl (by decide) (by decide) (.refl _)
  have hmany : resolve { builtins := .ofList [fixed, many 3 .text] } fixed.name
      [.scalar .text, .scalar .text] {} = .ok ((many 3 .text).verbatim fixed.signature.args) := by
    decide +kernel
  rw [hmany] at hi
  cases hi
  exact absurd hfixed (by decide)

end Registry

end Overloading
