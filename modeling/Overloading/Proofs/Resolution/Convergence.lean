import Overloading.Catalog
import Overloading.Proofs.Resolution.Undominated

/-! # Calls whose arguments have no types of their own

A blank promotes to everything, so where all arguments are blanks casts admit no more than
promotions and find the same types (`BindingRules.solve?_blanks`): the last tier decides what the
one before it decides. And if such a call leaves several overloads, one of them is taken without a
further reason. So the call is resolved if one of the first two tiers resolves it or if any overload
is left after promotions (`Overload.isSome_select?_blanks`).

An overload is left if no overload beats itself along a chain, which none does where there are no
type variables (`Tier.acyclic_contenders_of_closed`). With them it is not always so: a variable
stands for `undefined` in the overload that is compared and for anything in the one that it is
compared with, so three overloads may beat one another in turn (`Registry.rota`). -/

namespace Overloading

/-- Arguments without types of their own. -/
def blanks (k : Nat) : List SqlType := List.replicate k .undefined

theorem eq_undefined_of_mem_blanks {k : Nat} {t : SqlType} (h : t ∈ blanks k) : t = .undefined :=
  List.eq_of_mem_replicate h

theorem SqlType.undefined_fits {m : Coercion} (hm : m.converts = true) (f : TypeTerm) :
    SqlType.undefined.fits m f = SqlType.undefined.fits .promotion f := by
  rw [Bool.eq_iff_iff, fits_iff, fits_iff]
  refine exists_congr fun d => and_congr_right fun _ => ?_
  exact iff_of_true (coercesTo_of_promotesTo hm (undefined_promotesTo d)) (undefined_promotesTo d)

/-- All types of the assignment are blanks. -/
def Assignment.IsBlank (a : Assignment) : Prop := ∀ v t, a.get? v = some t → t = .undefined

namespace BindingRules

variable {r : BindingRules} {m : Coercion} {a b : Assignment}

/-- **A blank meets a term in the same way by promotions and by casts.** -/
theorem unify_undefined (hm : m.converts = true) (ha : a.IsBlank) (f : TypeTerm) :
    r.unify m f .undefined a = r.unify .promotion f .undefined a := by
  cases f with
  | var v =>
    rw [unify, unify, meet, meet]
    cases hget : a.get? v with
    | none => rfl
    | some held =>
      rw [ha v held hget]
      rfl
  | app n ps =>
    unfold unify
    rw [SqlType.undefined_fits hm, hm]
    rfl

theorem Unifies.isBlank {f : TypeTerm} (h : r.Unifies m f .undefined a b) (ha : a.IsBlank) :
    b.IsBlank := by
  intro v t ht
  cases h with
  | take hadm hget =>
    rw [Assignment.get?_set] at ht
    split_ifs at ht with hv
    · exact (Option.some.inj ht).symm
    · exact ha v t ht
  | @join w _ _ held u hadm hget hu =>
    rw [Assignment.get?_set] at ht
    split_ifs at ht with hv
    · have hu' : u = .undefined := by
        rcases (Coercion.join_eq_some hu).1 with rfl | rfl
        · exact ha w u hget
        · rfl
      rw [← Option.some.inj ht, hu']
    · exact ha v t ht
  | closed _ _ => exact ha v t ht
  | blank _ _ =>
    rw [Assignment.get?_fill, Option.or_eq_some_iff] at ht
    rcases ht with ht | ⟨-, ht⟩
    · exact ha v t ht
    · split_ifs at ht
      exact (Option.some.inj ht).symm

theorem unifyAll_blanks (hm : m.converts = true) {ps : List (TypeTerm × SqlType)}
    (hps : ∀ p ∈ ps, p.2 = .undefined) (ha : a.IsBlank) :
    r.unifyAll m ps a = r.unifyAll .promotion ps a := by
  induction ps generalizing a with
  | nil => rfl
  | cons p ps ih =>
    obtain ⟨f, t⟩ := p
    rw [List.forall_mem_cons] at hps
    obtain rfl : t = .undefined := hps.1
    rw [unifyAll, unifyAll, List.foldlM_cons, List.foldlM_cons, unify_undefined hm ha]
    cases hb : r.unify .promotion f .undefined a with
    | none => rfl
    | some b => exact ih hps.2 ((unify_eq_some_iff.1 hb).isBlank ha)

theorem solve?_blanks (hm : m.converts = true) {ps : List (TypeTerm × SqlType)}
    (hps : ∀ p ∈ ps, p.2 = .undefined) : r.solve? m ps = r.solve? .promotion ps := by
  have hfit : ∀ c : Assignment, (ps.all fun p => p.2.fits m (c.apply p.1)) =
      ps.all fun p => p.2.fits .promotion (c.apply p.1) := by
    intro c
    rw [Bool.eq_iff_iff, List.all_eq_true, List.all_eq_true]
    refine forall₂_congr fun p hp => ?_
    rw [hps p hp, SqlType.undefined_fits hm]
  have hempty : (∅ : Assignment).IsBlank := by
    intro v t ht
    cases ht
  unfold solve?
  rw [unifyAll_blanks hm hps hempty, funext hfit]

end BindingRules

namespace Signature

theorem solve?_blanks (s : Signature) {m : Coercion} (hm : m.converts = true) (k : Nat) :
    s.solve? m ((blanks k).map SqlType.toTerm) =
      s.solve? .promotion ((blanks k).map SqlType.toTerm) := by
  unfold solve?
  rw [TypeTerm.types?_map_toTerm]
  refine Option.bind_congr fun fs _ => BindingRules.solve?_blanks hm fun p hp => ?_
  exact eq_undefined_of_mem_blanks (List.of_mem_zip hp).2

theorem bind?_blanks (s : Signature) {m : Coercion} (hm : m.converts = true) (k : Nat) :
    s.bind? m ((blanks k).map SqlType.toTerm) =
      s.bind? .promotion ((blanks k).map SqlType.toTerm) := by
  unfold bind?
  rw [s.solve?_blanks hm k]

end Signature

namespace Tier

variable {os : List Overload} {k : Nat}

/-- The last tier has nothing to add to the one before it. -/
theorem winner?_cast_blanks :
    cast.winner? (blanks k) os = promotion.winner? (blanks k) os := by
  have happ : cast.applicable (blanks k) os = promotion.applicable (blanks k) os := by
    unfold applicable
    refine congrArg (fun f => (os.filter _).filterMap f) (funext fun o => ?_)
    rw [show cast.coercion = .cast from rfl, o.signature.bind?_blanks rfl k]
    rfl
  unfold winner? finalists
  rw [happ]
  rfl

/-- The overloads that fit after promotions and leave most arguments as they are. -/
def contenders (types : List SqlType) (os : List Overload) : List Instantiation :=
  undominated (fun i j => j.kept (types.map SqlType.toTerm) < i.kept (types.map SqlType.toTerm))
    (promotion.applicable types os)

theorem finalists_promotion_blanks : promotion.finalists (blanks k) os =
    (Instantiation.foremost?
      (undominated Instantiation.narrower (contenders (blanks k) os))).toList := by
  have hall : (blanks k).all SqlType.isUndefined = true :=
    List.all_eq_true.2 fun t ht => SqlType.isUndefined_iff.2 (eq_undefined_of_mem_blanks ht)
  unfold finalists Instantiation.mostSpecific Instantiation.breakTie
  rw [hall, Bool.or_true, if_pos rfl]
  rfl

/-- **Whatever is left after promotions, one overload is taken.** -/
theorem isSome_winner?_promotion_blanks : (promotion.winner? (blanks k) os).isSome = true ↔
    undominated Instantiation.narrower (contenders (blanks k) os) ≠ [] := by
  unfold winner?
  rw [finalists_promotion_blanks]
  cases undominated Instantiation.narrower (contenders (blanks k) os) with
  | nil => simp [Instantiation.foremost?]
  | cons i is => simp [Instantiation.foremost?]

theorem contenders_ne_nil {types : List SqlType} {o : Overload} (ho : o ∈ os)
    (hadm : o.signature.rules.coercible = true)
    (hb : (o.signature.bind? .promotion (types.map SqlType.toTerm)).isSome = true) :
    contenders types os ≠ [] := by
  obtain ⟨b, hb⟩ := Option.isSome_iff_exists.1 hb
  have hmem : ⟨o, b⟩ ∈ promotion.applicable types os :=
    (mem_applicable promotion types).2 ⟨ho, hadm, hb⟩
  exact Instantiation.undominated_kept_ne_nil _ (List.ne_nil_of_mem hmem)

/-- Without type variables no contender beats itself along a chain. -/
theorem acyclic_contenders_of_closed {types : List SqlType}
    (hc : ∀ o ∈ os, ∀ f ∈ o.signature.args, f.isOpen = false) :
    Acyclic Instantiation.narrower (contenders types os) := by
  have hmem : ∀ i ∈ contenders types os, i ∈ promotion.applicable types os := fun i hi =>
    (undominated_sublist _ _).subset hi
  have hbound : ∀ i ∈ contenders types os,
      i.declared.bind? .promotion (types.map SqlType.toTerm) = some i.bound := fun i hi =>
    ((mem_applicable promotion types).1 (hmem i hi)).2.2
  refine (Instantiation.transitiveOn_narrower_of_closed hbound fun i hi => ?_).acyclic
  exact hc _ ((mem_applicable promotion types).1 (hmem i hi)).1

end Tier

/-- **When a call of blanks is decided:** by one of the first two tiers, or if some contender is
beaten by no other. -/
theorem Overload.isSome_select?_blanks {os : List Overload} {k : Nat} :
    (select? (blanks k) os).isSome = true ↔
      (Tier.exact.winner? (blanks k) os).isSome = true ∨
      (Tier.generic.winner? (blanks k) os).isSome = true ∨
      undominated Instantiation.narrower (Tier.contenders (blanks k) os) ≠ [] := by
  rw [← Tier.isSome_winner?_promotion_blanks]
  simp only [select?, Tier.all, List.findSome?_isSome_iff, List.mem_cons, List.not_mem_nil,
    or_false, exists_eq_or_imp, exists_eq_left, Tier.winner?_cast_blanks, or_self]

namespace Registry

theorem exists_resolve_iff {r : Registry} {n : FunctionName} {types : List SqlType}
    {p : SearchPath} : (∃ i, r.resolve n types p = .ok i) ↔
      (Overload.select? types (r.candidates n p)).isSome = true := by
  simp only [resolve_eq_ok_iff, Option.isSome_iff_exists]

/-- **Calls of blanks converge unless overloads beat one another in turn.** The call is resolved
exactly if one of the first two tiers resolves it or some contender is beaten by no other. There are
contenders if any overload that admits coercion fits after promotions, and if none of them beats
itself along a chain, then some are left, one of these is taken and the call is resolved. A chain
that returns to where it began takes type variables. -/
theorem resolve_blanks (r : Registry) (n : FunctionName) (p : SearchPath) (k : Nat) :
    ((∃ i, r.resolve n (blanks k) p = .ok i) ↔
      (Tier.exact.winner? (blanks k) (r.candidates n p)).isSome = true ∨
      (Tier.generic.winner? (blanks k) (r.candidates n p)).isSome = true ∨
      undominated Instantiation.narrower (Tier.contenders (blanks k) (r.candidates n p)) ≠ []) ∧
    ((∃ o ∈ r.candidates n p, o.signature.rules.coercible = true ∧
        (o.signature.bind? .promotion ((blanks k).map SqlType.toTerm)).isSome = true) →
      Acyclic Instantiation.narrower (Tier.contenders (blanks k) (r.candidates n p)) →
      Instantiation.reduce ((blanks k).map SqlType.toTerm)
          (Tier.promotion.applicable (blanks k) (r.candidates n p)) ≠ [] ∧
        (∃ i, Tier.promotion.finalists (blanks k) (r.candidates n p) = [i]) ∧
        ∃ i, r.resolve n (blanks k) p = .ok i) ∧
    ((∀ o ∈ r.candidates n p, ∀ f ∈ o.signature.args, f.isOpen = false) →
      Acyclic Instantiation.narrower (Tier.contenders (blanks k) (r.candidates n p))) := by
  have hiff := (exists_resolve_iff (r := r) (n := n) (p := p)).trans
    (Overload.isSome_select?_blanks (k := k))
  refine ⟨hiff, ?_, Tier.acyclic_contenders_of_closed⟩
  rintro ⟨o, ho, hadm, hb⟩ hac
  have hleft := undominated_ne_nil_of_acyclic hac (Tier.contenders_ne_nil ho hadm hb)
  refine ⟨hleft, ?_, hiff.2 (Or.inr (Or.inr hleft))⟩
  obtain ⟨i, hi⟩ := Option.isSome_iff_exists.1 (Tier.isSome_winner?_promotion_blanks.2 hleft)
  exact ⟨i, (Tier.winner?_eq_some_iff _ _).1 hi⟩

/-- Two blanks fit a fixed text overload, a variadic one and the arrays; the fixed one beats the
variadic one, and of the two that are left one is taken. -/
theorem resolve_blanks_concat :
    (∃ o ∈ Catalog.registry.candidates { name := "concat" } {}, o.signature.rules.coercible = true ∧
        (o.signature.bind? .promotion ((blanks 2).map SqlType.toTerm)).isSome = true) ∧
      Acyclic Instantiation.narrower
        (Tier.contenders (blanks 2) (Catalog.registry.candidates { name := "concat" } {})) ∧
      ∃ i, Catalog.registry.resolve { name := "concat" } (blanks 2) {} = .ok i := by
  have hfit : ∃ o ∈ Catalog.registry.candidates { name := "concat" } {},
      o.signature.rules.coercible = true ∧
        (o.signature.bind? .promotion ((blanks 2).map SqlType.toTerm)).isSome = true := by
    decide +kernel
  have htrans : TransitiveOn Instantiation.narrower
      (Tier.contenders (blanks 2) (Catalog.registry.candidates { name := "concat" } {})) := by
    unfold TransitiveOn
    decide +kernel
  exact ⟨hfit, htrans.acyclic, ((resolve_blanks _ _ _ 2).2.1 hfit htrans.acyclic).2.2⟩

/-- `f(E, bigint, smallint)`, `f(smallint, E, bigint)` and `f(bigint, smallint, E)`. -/
def rota : List Overload :=
  [[.var "E", Catalog.type .bigint, Catalog.type .smallint],
    [Catalog.type .smallint, .var "E", Catalog.type .bigint],
    [Catalog.type .bigint, Catalog.type .smallint, .var "E"]].map fun args =>
    { signature := Catalog.function .scalar "f" [.arguments args] }

/-- **Three overloads that beat one another in turn leave a call of blanks unresolved,** although
each of them fits after promotions. -/
theorem not_forall_resolve_blanks :
    ¬ ∀ (os : List Overload) (n : FunctionName) (p : SearchPath) (k : Nat),
      (∀ o ∈ os, ∃ name kind clauses, o.signature = .declare name kind clauses) →
      (∃ o ∈ candidates { builtins := .ofList os } n p, o.signature.rules.coercible = true ∧
        (o.signature.bind? .promotion ((blanks k).map SqlType.toTerm)).isSome = true) →
      ∃ i, resolve { builtins := .ofList os } n (blanks k) p = .ok i := by
  intro h
  have hdecl : ∀ o ∈ rota, ∃ name kind clauses, o.signature = .declare name kind clauses := by
    intro o ho
    obtain ⟨args, -, rfl⟩ := List.mem_map.1 ho
    exact ⟨_, _, _, rfl⟩
  obtain ⟨i, hi⟩ := h rota { name := "f" } {} 3 hdecl (by decide +kernel)
  have herr : resolve { builtins := .ofList rota } { name := "f" } (blanks 3) {} =
      .error (.unknownFunction { name := "f" } (blanks 3) (rota.map (·.signature))) := by
    decide +kernel
  rw [herr] at hi
  cases hi

end Registry

end Overloading
