import Overloading.Proofs.Resolution.Candidates
import Overloading.Proofs.Resolution.Order
import Overloading.Proofs.Binding.Least

/-! # Overloads that cannot apply

An overload that casts cannot fit to the arguments of a call fits in no tier, because no coercion
admits more than casts (`Signature.exists_bind?_cast`). So it takes no part in any comparison: the
overloads that are left when such ones are dropped select the same (`Overload.select?_filter`).

For a registry this means that an overload may be put at any place into the group that a call
chooses from. If it cannot apply, the call has the outcome that it had, but for the report of an
error, which lists the new signature at its place (`Registry.resolve_insert`). -/

namespace Overloading

/-- **What fits with some coercion fits with casts.** -/
theorem Signature.exists_bind?_cast {s : Signature} {m : Coercion} {actual : List TypeTerm}
    {b : BoundSignature} (h : s.bind? m actual = some b) :
    ∃ b', s.bind? .cast actual = some b' := by
  cases m with
  | exact => exact ⟨b, bind?_of_exact h .cast⟩
  | promotion => exact exists_bind?_of_promotion rfl h
  | cast => exact ⟨b, h⟩

theorem Signature.bind?_eq_none_of_cast {s : Signature} {actual : List TypeTerm}
    (h : s.bind? .cast actual = none) (m : Coercion) : s.bind? m actual = none := by
  cases hm : s.bind? m actual with
  | none => rfl
  | some b =>
    obtain ⟨b', hb'⟩ := exists_bind?_cast hm
    rw [h] at hb'
    cases hb'

namespace Tier

variable {t : Tier} {types : List SqlType} {os os' : List Overload}

theorem applicable_append (t : Tier) (types : List SqlType) (os os' : List Overload) :
    t.applicable types (os ++ os') = t.applicable types os ++ t.applicable types os' := by
  unfold applicable
  rw [List.filter_append, List.filterMap_append]

theorem applicable_cons (t : Tier) (types : List SqlType) (o : Overload) (os : List Overload) :
    t.applicable types (o :: os) = t.applicable types [o] ++ t.applicable types os :=
  t.applicable_append types [o] os

theorem applicable_singleton_eq_nil (t : Tier) {o : Overload}
    (h : o.signature.bind? .cast (types.map SqlType.toTerm) = none) :
    t.applicable types [o] = [] := by
  have hnone := Signature.bind?_eq_none_of_cast h t.coercion
  refine List.eq_nil_iff_forall_not_mem.2 fun i hi => ?_
  obtain ⟨hmem, -, hb⟩ := (t.mem_applicable types).1 hi
  rw [Instantiation.declared, List.mem_singleton.1 hmem, hnone] at hb
  cases hb

theorem applicable_insert (t : Tier) {o : Overload}
    (h : o.signature.bind? .cast (types.map SqlType.toTerm) = none) :
    t.applicable types (os ++ o :: os') = t.applicable types (os ++ os') := by
  rw [applicable_append, t.applicable_cons types o os', t.applicable_singleton_eq_nil h,
    List.nil_append, ← applicable_append]

theorem applicable_filter (t : Tier) {q : Overload → Bool}
    (h : ∀ o ∈ os, q o = false → o.signature.bind? .cast (types.map SqlType.toTerm) = none) :
    t.applicable types (os.filter q) = t.applicable types os := by
  induction os with
  | nil => rfl
  | cons o os ih =>
    rw [List.forall_mem_cons] at h
    cases hq : q o with
    | true =>
      rw [List.filter_cons_of_pos hq, t.applicable_cons types o (os.filter q), ih h.2,
        ← applicable_cons]
    | false =>
      have hnil : t.applicable types [o] = [] := t.applicable_singleton_eq_nil (h.1 hq)
      rw [List.filter_cons_of_neg (by simp [hq]), ih h.2, t.applicable_cons types o os, hnil,
        List.nil_append]

theorem winner?_congr (h : t.applicable types os = t.applicable types os') :
    t.winner? types os = t.winner? types os' := by
  unfold winner? finalists
  rw [h]

end Tier

namespace Overload

variable {types : List SqlType} {os os' : List Overload} {o : Overload}

/-- Only the overloads that apply in some tier count. -/
theorem select?_congr (h : ∀ t : Tier, t.applicable types os = t.applicable types os') :
    select? types os = select? types os' := by
  have hwinner : (fun t : Tier => t.winner? types os) = fun t => t.winner? types os' :=
    funext fun t => Tier.winner?_congr (h t)
  unfold select?
  rw [hwinner]

/-- **Overloads that cannot apply may be dropped.** -/
theorem select?_filter {q : Overload → Bool}
    (h : ∀ o ∈ os, q o = false → o.signature.bind? .cast (types.map SqlType.toTerm) = none) :
    select? types (os.filter q) = select? types os :=
  select?_congr fun t => t.applicable_filter h

theorem select?_insert (h : o.signature.bind? .cast (types.map SqlType.toTerm) = none) :
    select? types (os ++ o :: os') = select? types (os ++ os') :=
  select?_congr fun t => t.applicable_insert h

end Overload

/-! ### A place in a group -/

namespace Table

variable {t t' : Table} {n k : FunctionName} {p : SearchPath} {o : Overload}

theorem exists_candidates_eq_group (h : t.candidates n p ≠ []) :
    ∃ k, t.candidates n p = t.group k := by
  unfold candidates at h ⊢
  cases hfind : ((n.lookups p).map t.group).find? (!·.isEmpty) with
  | none => exact absurd (by rw [hfind]; rfl) h
  | some os =>
    obtain ⟨k, -, rfl⟩ := List.mem_map.1 (List.mem_of_find?_eq_some hfind)
    exact ⟨k, rfl⟩

/-- Where no other group changes, a call still chooses from the group that it chose from. -/
theorem candidates_eq_group_of_others (h : t.candidates n p = t.group k) (hk : t.group k ≠ [])
    (hk' : t'.group k ≠ []) (hothers : ∀ j, j ≠ k → t'.group j = t.group j) :
    t'.candidates n p = t'.group k := by
  unfold candidates at h ⊢
  generalize n.lookups p = ks at h ⊢
  induction ks with
  | nil => exact absurd h.symm hk
  | cons j ks ih =>
    rw [List.map_cons, List.find?_cons] at h ⊢
    cases hj : t.group j with
    | nil =>
      have hne : j ≠ k := fun hjk => hk (hjk ▸ hj)
      rw [hj] at h
      rw [hothers j hne, hj]
      exact ih h
    | cons x xs =>
      -- both groups have an overload in common, so they have one name
      have hgroup : t.group j = t.group k := by
        rw [hj] at h ⊢
        exact h
      have hx : x ∈ t.group j := by simp [hj]
      have hjk : j = k := (mem_group.1 hx).2.symm.trans (mem_group.1 (hgroup ▸ hx)).2
      subst hjk
      have hsome : (t'.group j).isEmpty = false := by simpa using hk'
      rw [hsome]
      rfl

theorem group_append_cons (xs ys : List Overload) (o : Overload) :
    (⟨xs ++ o :: ys⟩ : Table).group o.name =
      (⟨xs⟩ : Table).group o.name ++ o :: (⟨ys⟩ : Table).group o.name := by
  unfold group
  rw [List.filter_append, List.filter_cons_of_pos (by simp)]

theorem group_append_cons_of_ne (xs ys : List Overload) (h : k ≠ o.name) :
    (⟨xs ++ o :: ys⟩ : Table).group k = (⟨xs ++ ys⟩ : Table).group k := by
  unfold group
  rw [List.filter_append, List.filter_cons_of_neg (by simpa using h.symm), List.filter_append]

/-- **An overload may be put at any place into the group that a call chooses from.** -/
theorem exists_candidates_insert {as bs : List Overload} (h : t.candidates n p = as ++ bs)
    (hne : as ++ bs ≠ []) (hname : ∀ x ∈ as ++ bs, x.name = o.name) :
    ∃ xs ys, t.overloads = xs ++ ys ∧
      (⟨xs ++ o :: ys⟩ : Table).candidates n p = as ++ o :: bs := by
  obtain ⟨k, hk⟩ := exists_candidates_eq_group (h ▸ hne)
  have hgroup : t.group k = as ++ bs := hk.symm.trans h
  obtain rfl : k = o.name := by
    obtain ⟨x, hx⟩ := List.exists_mem_of_ne_nil _ hne
    exact (mem_group.1 (hgroup ▸ hx)).2.symm.trans (hname x hx)
  obtain ⟨xs, ys, hsplit, hxs, hys⟩ := List.filter_eq_append_iff.1 hgroup
  have hnew : (⟨xs ++ o :: ys⟩ : Table).group o.name = as ++ o :: bs := by
    rw [group_append_cons, group, group, hxs, hys]
  refine ⟨xs, ys, hsplit, ?_⟩
  rw [← hnew]
  refine candidates_eq_group_of_others hk (hgroup ▸ hne) (by simp [hnew]) fun j hj => ?_
  rw [group_append_cons_of_ne xs ys hj, ← hsplit]

end Table

namespace Registry

variable {r r' : Registry} {n : FunctionName} {p : SearchPath} {types : List SqlType}
  {o : Overload} {as bs : List Overload}

/-- `r'` is `r` with the overload `o` in some place of one of the tables. -/
def Gains (r : Registry) (o : Overload) (r' : Registry) : Prop :=
  ∃ xs ys, r.builtins.overloads = xs ++ ys ∧ r' = { r with builtins := ⟨xs ++ o :: ys⟩ } ∨
    r.userDefined.overloads = xs ++ ys ∧ r' = { r with userDefined := ⟨xs ++ o :: ys⟩ }

/-- A registry can be given an overload at any place among the candidates of a call. -/
theorem exists_gains (h : r.candidates n p = as ++ bs) (hne : as ++ bs ≠ [])
    (hname : ∀ x ∈ as ++ bs, x.name = o.name) :
    ∃ r', r.Gains o r' ∧ r'.candidates n p = as ++ o :: bs := by
  rw [candidates_eq] at h
  split at h
  · rename_i hnil
    obtain ⟨xs, ys, hsplit, hcand⟩ := Table.exists_candidates_insert h hne hname
    refine ⟨{ r with userDefined := ⟨xs ++ o :: ys⟩ }, ⟨xs, ys, Or.inr ⟨hsplit, rfl⟩⟩, ?_⟩
    rw [candidates_eq, if_pos hnil, hcand]
  · obtain ⟨xs, ys, hsplit, hcand⟩ := Table.exists_candidates_insert h hne hname
    refine ⟨{ r with builtins := ⟨xs ++ o :: ys⟩ }, ⟨xs, ys, Or.inl ⟨hsplit, rfl⟩⟩, ?_⟩
    rw [candidates_eq, hcand, if_neg (by simp)]

/-- **An overload that cannot apply is irrelevant.** It may be put at any place among the candidates
of a call, and whatever registry offers the call these candidates then: if casts do not fit the
overload to the arguments, a call that was resolved is resolved to the same function with the same
types, and a call that was not is reported with the same candidates and the new one at its place. -/
theorem resolve_insert (hgroup : r.candidates n p = as ++ bs) (hne : as ++ bs ≠ [])
    (hname : ∀ x ∈ as ++ bs, x.name = o.name) :
    (∃ r', r.Gains o r' ∧ r'.candidates n p = as ++ o :: bs) ∧
    ∀ r' : Registry, r'.candidates n p = as ++ o :: bs → ∀ types : List SqlType,
      o.signature.bind? .cast (types.map SqlType.toTerm) = none →
      (∀ i, r.resolve n types p = .ok i → r'.resolve n types p = .ok i) ∧
      ∀ e, r.resolve n types p = .error e →
        e = .unknownFunction n types ((as ++ bs).map (·.signature)) ∧
        r'.resolve n types p =
          .error (.unknownFunction n types ((as ++ o :: bs).map (·.signature))) := by
  refine ⟨exists_gains hgroup hne hname, fun r' hgroup' types ho => ?_⟩
  have hselect : Overload.select? types (r'.candidates n p) =
      Overload.select? types (r.candidates n p) := by
    rw [hgroup, hgroup', Overload.select?_insert ho]
  refine ⟨fun i hi => ?_, fun e he => ?_⟩
  · rw [resolve_eq_ok_iff] at hi ⊢
    rw [hselect, hi]
  · rw [resolve_eq_error_iff] at he ⊢
    rw [hselect, hgroup']
    exact ⟨hgroup ▸ he.2, he.1, rfl⟩

/-- `concat(ip, geo_point):text`. -/
def located : Overload where
  signature := Catalog.function .scalar "concat"
    [.arguments [Catalog.type .ip, Catalog.type .geoPoint], .returns (Catalog.type .text)]

/-- Behind the first `concat` of the catalog it changes nothing for a text and a number, and for a
truth value and an object it is reported in the second place. -/
theorem resolve_insert_located :
    ∃ r', Catalog.registry.Gains located r' ∧
      r'.resolve { name := "concat" } [.scalar .text, .scalar .integer] {} =
        .ok ((Overload.mk Catalog.scalars[0] .builtin).instantiate
          [.scalar .text, .scalar .text] (.scalar .text)) ∧
      r'.resolve { name := "concat" } [.scalar .boolean, .scalar .object] {} =
        .error (.unknownFunction { name := "concat" } [.scalar .boolean, .scalar .object]
          [Catalog.scalars[0], located.signature, Catalog.scalars[1], Catalog.scalars[2]]) := by
  have hgroup : Catalog.registry.candidates { name := "concat" } {} =
      [⟨Catalog.scalars[0], .builtin⟩] ++
        [⟨Catalog.scalars[1], .builtin⟩, ⟨Catalog.scalars[2], .builtin⟩] := by
    decide +kernel
  have hok : Catalog.registry.resolve { name := "concat" } [.scalar .text, .scalar .integer] {} =
      .ok ((Overload.mk Catalog.scalars[0] .builtin).instantiate
        [.scalar .text, .scalar .text] (.scalar .text)) := by
    decide +kernel
  obtain ⟨⟨r', hgains, hcand⟩, houtcome⟩ :=
    resolve_insert (o := located) hgroup (by simp) (by decide +kernel)
  have herror : Catalog.registry.resolve { name := "concat" } [.scalar .boolean, .scalar .object]
      {} = .error (.unknownFunction { name := "concat" } [.scalar .boolean, .scalar .object]
        [Catalog.scalars[0], Catalog.scalars[1], Catalog.scalars[2]]) := by
    decide +kernel
  exact ⟨r', hgains, (houtcome r' hcand _ (by decide +kernel)).1 _ hok,
    ((houtcome r' hcand _ (by decide +kernel)).2 _ herror).2⟩

end Registry

end Overloading
