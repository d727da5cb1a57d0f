import Mathlib.Data.List.Forall2
import Mathlib.Order.WellFoundedSet
import Overloading.Proofs.Binding.Least
import Overloading.Proofs.Binding.Scope
import Overloading.Proofs.Resolution.Order

/-! # Why an overload is discarded

`undominated` removes what some other element beats (`Beats`). As long as no element beats itself
along a chain, whatever is removed has an element that is kept at the beginning of such a chain
(`exists_mem_undominated_of_acyclic`), so a list that is not empty keeps something
(`undominated_ne_nil_of_acyclic`). Along a transitive relation the chain is a single step
(`exists_beats_of_notMem_undominated`).

For overloads without type variables one is narrower than another if its types promote to those of
the other, position by position, and if it declares at least as many arguments
(`Instantiation.narrower_iff_of_closed`). Both are transitive, so a call that only such overloads
fit always keeps one of them. -/

namespace Overloading

section Undominated

variable {α : Type} {ahead : α → α → Bool} {xs : List α} {x y z : α}

/-- `x` is ahead of `y` and `y` is not ahead of `x`. -/
def Beats (ahead : α → α → Bool) (x y : α) : Prop := ahead x y = true ∧ ahead y x = false

/-- One element of the list beats another. -/
def BeatsIn (ahead : α → α → Bool) (xs : List α) (x y : α) : Prop :=
  x ∈ xs ∧ y ∈ xs ∧ Beats ahead x y

/-- No element of the list beats itself along a chain of elements that beat one another. -/
def Acyclic (ahead : α → α → Bool) (xs : List α) : Prop :=
  ∀ x, ¬ Relation.TransGen (BeatsIn ahead xs) x x

/-- The relation is transitive on the list. -/
def TransitiveOn (ahead : α → α → Bool) (xs : List α) : Prop :=
  ∀ x ∈ xs, ∀ y ∈ xs, ∀ z ∈ xs, ahead x y = true → ahead y z = true → ahead x z = true

/-- Nothing is removed if whatever is ahead of an element is behind it as well. -/
theorem undominated_eq_self (h : ∀ x ∈ xs, ∀ y ∈ xs, ahead y x = true → ahead x y = true) :
    undominated ahead xs = xs :=
  List.filter_eq_self.2 fun x hx => (List.mem_filter.1 (mem_undominated.2 ⟨hx, h x hx⟩)).2

theorem undominated_congr {ahead' : α → α → Bool}
    (h : ∀ x ∈ xs, ∀ y ∈ xs, ahead x y = ahead' x y) :
    undominated ahead xs = undominated ahead' xs := by
  refine List.filter_congr fun x hx => ?_
  rw [Bool.eq_iff_iff, Bool.not_eq_true', Bool.not_eq_true', List.any_eq_false, List.any_eq_false]
  refine forall₂_congr fun y hy => ?_
  rw [h x hx y hy, h y hy x hx]

theorem undominated_map {β : Type} (ahead : β → β → Bool) (f : α → β) (xs : List α) :
    undominated ahead (xs.map f) = (undominated (fun x y => ahead (f x) (f y)) xs).map f := by
  unfold undominated
  rw [List.filter_map]
  simp only [Function.comp_def, List.any_map]

theorem exists_beatsIn_of_notMem_undominated (hx : x ∈ xs) (h : x ∉ undominated ahead xs) :
    ∃ y, BeatsIn ahead xs y x := by
  rw [mem_undominated] at h
  push Not at h
  obtain ⟨y, hy, hyx, hxy⟩ := h hx
  exact ⟨y, hy, hx, hyx, Bool.not_eq_true _ ▸ hxy⟩

/-- **What is removed has a reason that is kept.** -/
theorem exists_mem_undominated_of_acyclic (h : Acyclic ahead xs) (hx : x ∈ xs) :
    ∃ y ∈ undominated ahead xs, Relation.ReflTransGen (BeatsIn ahead xs) y x := by
  have : IsStrictOrder α (Relation.TransGen (BeatsIn ahead xs)) :=
    { irrefl := h, trans := fun _ _ _ => .trans }
  -- induction along the chains, which are well founded on the finitely many elements of the list
  have hwf : Set.WellFoundedOn {z | z ∈ xs} (Relation.TransGen (BeatsIn ahead xs)) :=
    xs.finite_toSet.wellFoundedOn
  refine hwf.induction hx (P := fun x =>
    ∃ y ∈ undominated ahead xs, Relation.ReflTransGen (BeatsIn ahead xs) y x) fun x hx ih => ?_
  by_cases hmem : x ∈ undominated ahead xs
  · exact ⟨x, hmem, .refl⟩
  · obtain ⟨z, hzx⟩ := exists_beatsIn_of_notMem_undominated hx hmem
    obtain ⟨y, hy, hyz⟩ := ih z hzx.1 (.single hzx)
    exact ⟨y, hy, hyz.tail hzx⟩

theorem undominated_ne_nil_of_acyclic (h : Acyclic ahead xs) (hxs : xs ≠ []) :
    undominated ahead xs ≠ [] := by
  obtain ⟨x, hx⟩ := List.exists_mem_of_ne_nil xs hxs
  obtain ⟨y, hy, -⟩ := exists_mem_undominated_of_acyclic h hx
  exact List.ne_nil_of_mem hy

theorem TransitiveOn.beatsIn_trans (h : TransitiveOn ahead xs) (hxy : BeatsIn ahead xs x y)
    (hyz : BeatsIn ahead xs y z) : BeatsIn ahead xs x z := by
  obtain ⟨hx, hy, hxy, hyx⟩ := hxy
  obtain ⟨-, hz, hyz, -⟩ := hyz
  refine ⟨hx, hz, h x hx y hy z hz hxy hyz, ?_⟩
  rw [← Bool.not_eq_true]
  intro hzx
  rw [h y hy z hz x hx hyz hzx] at hyx
  cases hyx

/-- Along a transitive relation a chain is a single step. -/
theorem TransitiveOn.transGen_beatsIn (h : TransitiveOn ahead xs)
    (hxy : Relation.TransGen (BeatsIn ahead xs) x y) : BeatsIn ahead xs x y := by
  have : IsTrans α (BeatsIn ahead xs) := ⟨fun _ _ _ => h.beatsIn_trans⟩
  rwa [Relation.transGen_eq_self] at hxy

theorem TransitiveOn.acyclic (h : TransitiveOn ahead xs) : Acyclic ahead xs := by
  intro x hx
  obtain ⟨-, -, hxx, hxx'⟩ := h.transGen_beatsIn hx
  rw [hxx] at hxx'
  cases hxx'

theorem exists_beats_of_notMem_undominated (h : TransitiveOn ahead xs) (hx : x ∈ xs)
    (hnot : x ∉ undominated ahead xs) : ∃ y ∈ undominated ahead xs, Beats ahead y x := by
  obtain ⟨y, hy, hyx⟩ := exists_mem_undominated_of_acyclic h.acyclic hx
  rcases Relation.reflTransGen_iff_eq_or_transGen.1 hyx with rfl | hyx
  · exact absurd hy hnot
  · exact ⟨y, hy, (h.transGen_beatsIn hyx).2.2⟩

end Undominated

/-! ### Signatures without type variables -/

namespace Signature

variable {s : Signature}

/-- Terms of types accept the types that promote to these types. -/
theorem solves_of_forall₂ {r : BindingRules} {ts es : List SqlType}
    (h : List.Forall₂ (fun t e => t.promotesTo e = true) ts es) :
    r.Solves .promotion ((es.map SqlType.toTerm).zip ts) ∅ := by
  constructor
  · intro p hp v hv
    obtain ⟨e, -, he⟩ := List.mem_map.1 (List.of_mem_zip hp).1
    rw [← he, SqlType.vars_toTerm] at hv
    cases hv
  · intro p hp
    rw [List.zip_map_left] at hp
    obtain ⟨⟨e, t⟩, hmem, rfl⟩ := List.mem_map.1 hp
    have hflip : List.Forall₂ (fun e t => t.promotesTo e = true) es ts := List.Forall₂.flip h
    refine ⟨e, ?_, List.forall₂_zip hflip hmem⟩
    rw [Prod.map_fst, Assignment.apply_of_isOpen_eq_false e.isOpen_toTerm, TypeTerm.denote_toTerm]

/-- **A signature without type variables admits the types that promote to its own.** -/
theorem isSome_solve?_iff_of_closed {ts es : List SqlType}
    (hes : s.formals? ts.length = some (es.map SqlType.toTerm)) :
    (s.solve? .promotion (ts.map SqlType.toTerm)).isSome = true ↔
      List.Forall₂ (fun t e => t.promotesTo e = true) ts es := by
  have hts : TypeTerm.types? (ts.map SqlType.toTerm) = some ts := TypeTerm.types?_map_toTerm ts
  rw [Option.isSome_iff_exists]
  simp only [solve?_eq_some_iff_of_types hts, List.length_map, hes, Option.some.injEq,
    exists_eq_left']
  constructor
  · rintro ⟨a, ha⟩
    have hlen : (es.map SqlType.toTerm).length = ts.length := length_formals? hes
    obtain ⟨ds, hds, hall⟩ := exists_targets hlen (BindingRules.solves_of_solve? ha).accepted
    have happly : (es.map SqlType.toTerm).map a.apply = es.map SqlType.toTerm := by
      rw [List.map_map]
      exact List.map_congr_left fun e _ => Assignment.apply_of_isOpen_eq_false e.isOpen_toTerm
    rw [happly, TypeTerm.types?_map_toTerm, Option.some.injEq] at hds
    rwa [hds]
  · intro h
    obtain ⟨a, ha, -⟩ := BindingRules.exists_solve?_of_solves (r := s.rules) (m := .promotion) rfl
      (solves_of_forall₂ h)
    exact ⟨a, ha⟩

end Signature

namespace Instantiation

variable {i j : Instantiation} {is : List Instantiation} {m : Coercion} {actual : List TypeTerm}

/-- **Without type variables, to be narrower is to promote position by position** and to declare at
least as many arguments. -/
theorem narrower_iff_of_closed {ds es : List SqlType} (hi : i.bound.args = ds.map SqlType.toTerm)
    (hj : j.declared.formals? ds.length = some (es.map SqlType.toTerm)) :
    i.narrower j = true ↔ List.Forall₂ (fun d e => d.promotesTo e = true) ds es ∧
      j.declared.args.length ≤ i.declared.args.length := by
  unfold narrower
  rw [Bool.and_eq_true, decide_eq_true_eq, hi, Signature.isSome_solve?_iff_of_closed hj]

/-- A signature without type variables is bound to the types that it declares. -/
theorem exists_types_of_closed (hb : i.declared.bind? m actual = some i.bound)
    (hc : ∀ f ∈ i.declared.args, f.isOpen = false) :
    ∃ ds : List SqlType, ds.length = actual.length ∧ i.bound.args = ds.map SqlType.toTerm ∧
      i.declared.formals? actual.length = some (ds.map SqlType.toTerm) := by
  obtain ⟨ds, hargs, hlen⟩ := Signature.exists_types_of_bind? hb
  obtain ⟨fs, a, hfs, -, -, hbound⟩ := Signature.bind?_eq_some_iff.1 hb
  have happly : fs.map a.apply = fs := by
    refine (List.map_congr_left fun f hf => ?_).trans (List.map_id fs)
    exact Assignment.apply_of_isOpen_eq_false (hc f (Signature.mem_args_of_mem_formals? hfs hf))
  refine ⟨ds, hlen, hargs, ?_⟩
  rw [hfs, ← hargs, hbound, happly]

theorem forall₂_promotesTo_trans : ∀ {as bs cs : List SqlType},
    List.Forall₂ (fun a b => a.promotesTo b = true) as bs →
    List.Forall₂ (fun b c => b.promotesTo c = true) bs cs →
    List.Forall₂ (fun a c => a.promotesTo c = true) as cs
  | _, _, _, .nil, .nil => .nil
  | _, _, _, .cons h hs, .cons h' hs' =>
    .cons (SqlType.promotesTo_trans h h') (forall₂_promotesTo_trans hs hs')

section Closed

variable (hb : ∀ i ∈ is, i.declared.bind? m actual = some i.bound)
  (hc : ∀ i ∈ is, ∀ f ∈ i.declared.args, f.isOpen = false)

include hb hc

theorem narrower_self_of_closed (hi : i ∈ is) : i.narrower i = true := by
  obtain ⟨ds, hlen, hargs, hfs⟩ := exists_types_of_closed (hb i hi) (hc i hi)
  rw [← hlen] at hfs
  refine (narrower_iff_of_closed hargs hfs).2 ⟨?_, le_rfl⟩
  exact List.forall₂_same.2 fun d _ => d.promotesTo_self

theorem transitiveOn_narrower_of_closed : TransitiveOn narrower is := by
  intro i hi j hj k hk hij hjk
  obtain ⟨ds, hlen, hargs, -⟩ := exists_types_of_closed (hb i hi) (hc i hi)
  obtain ⟨es, hlen', hargs', hes⟩ := exists_types_of_closed (hb j hj) (hc j hj)
  obtain ⟨gs, -, -, hgs⟩ := exists_types_of_closed (hb k hk) (hc k hk)
  -- all are bound to the same arguments, so all have one type for each of these
  have hds : ds.length = es.length := by rw [hlen, hlen']
  rw [← hlen'] at hes hgs
  rw [narrower_iff_of_closed hargs (by rw [hds, hes])] at hij
  rw [narrower_iff_of_closed hargs' hgs] at hjk
  rw [narrower_iff_of_closed hargs (by rw [hds, hgs])]
  exact ⟨forall₂_promotesTo_trans hij.1 hjk.1, hjk.2.trans hij.2⟩

end Closed

/-- To keep more arguments is transitive, so some overload keeps the most. -/
theorem undominated_kept_ne_nil (actual : List TypeTerm) (his : is ≠ []) :
    undominated (fun i j => j.kept actual < i.kept actual) is ≠ [] := by
  refine undominated_ne_nil_of_acyclic (TransitiveOn.acyclic fun i _ j _ k _ hij hjk => ?_) his
  rw [decide_eq_true_eq] at hij hjk ⊢
  exact hjk.trans hij

/-- **Without type variables nothing is discarded without a reason that is kept.** On overloads
bound to the same arguments, to be narrower is reflexive and transitive, so no overload beats itself
along a chain, and what another one beats is beaten by one that is kept. -/
theorem undominated_narrower_of_closed
    (hb : ∀ i ∈ is, i.declared.bind? m actual = some i.bound)
    (hc : ∀ i ∈ is, ∀ f ∈ i.declared.args, f.isOpen = false) :
    (∀ i ∈ is, i.narrower i = true) ∧ TransitiveOn narrower is ∧ Acyclic narrower is ∧
      (∀ i ∈ is, i ∉ undominated narrower is →
        ∃ j ∈ undominated narrower is, Beats narrower j i) ∧
      (is ≠ [] → undominated narrower is ≠ [] ∧ reduce actual is ≠ []) := by
  have hself : ∀ i ∈ is, i.narrower i = true := fun i hi => narrower_self_of_closed hb hc hi
  have htrans : TransitiveOn narrower is := transitiveOn_narrower_of_closed hb hc
  have hreason : ∀ i ∈ is, i ∉ undominated narrower is →
      ∃ j ∈ undominated narrower is, Beats narrower j i := fun i hi hnot =>
    exists_beats_of_notMem_undominated htrans hi hnot
  refine ⟨hself, htrans, htrans.acyclic, hreason, fun his => ?_⟩
  -- the comparison only sees the overloads that keep most arguments
  have hsub : undominated (fun i j => j.kept actual < i.kept actual) is ⊆ is :=
    (undominated_sublist _ is).subset
  have hacyclic : Acyclic narrower (undominated (fun i j => j.kept actual < i.kept actual) is) :=
    (transitiveOn_narrower_of_closed (fun i hi => hb i (hsub hi)) fun i hi => hc i (hsub hi)).acyclic
  have hkept : undominated (fun i j => j.kept actual < i.kept actual) is ≠ [] :=
    undominated_kept_ne_nil actual his
  exact ⟨undominated_ne_nil_of_acyclic htrans.acyclic his,
    undominated_ne_nil_of_acyclic hacyclic hkept⟩

/-- `f(bigint, smallint)`, `f(smallint, bigint)`, `f(integer, smallint)` and `f(bigint...)`. -/
def rungs : List Overload :=
  [([.bigint, .smallint], false), ([.smallint, .bigint], false), ([.integer, .smallint], false),
    ([.bigint], true)].map fun (args, variadic) => { signature :=
    { name := { name := "f" }, args := args.map fun a : Scalar => .base a.name, variadic } }

/-- The first overload and the last are beaten by the third, which is kept; the second is not. -/
theorem undominated_narrower_of_closed_rungs :
    (Tier.promotion.applicable [.scalar .smallint, .scalar .smallint] rungs).length = 4 ∧
      (undominated narrower
        (Tier.promotion.applicable [.scalar .smallint, .scalar .smallint] rungs)).length = 2 ∧
      ∀ i ∈ Tier.promotion.applicable [.scalar .smallint, .scalar .smallint] rungs,
        i ∉ undominated narrower
            (Tier.promotion.applicable [.scalar .smallint, .scalar .smallint] rungs) →
          ∃ j ∈ undominated narrower
              (Tier.promotion.applicable [.scalar .smallint, .scalar .smallint] rungs),
            Beats narrower j i := by
  have hclosed : ∀ o ∈ rungs, ∀ f ∈ o.signature.args, f.isOpen = false := by decide
  refine ⟨by decide +kernel, by decide +kernel, ?_⟩
  exact (undominated_narrower_of_closed (fun i hi => ((Tier.mem_applicable _ _).1 hi).2.2)
    fun i hi => hclosed _ ((Tier.mem_applicable _ _).1 hi).1).2.2.2.1

end Instantiation

end Overloading
