import Overloading.Proofs.Binding.Closed
import Overloading.Proofs.Resolution.Settled

/-! # Ladders of overloads

Overloads without type variables form a ladder for calls with `n` arguments if of any two of them
one is strictly narrower than the other: its types promote to those of the other, and it declares as
many arguments, or more if the types are the same (`Signature.Below`). On a ladder no two overloads
that fit can tie, so where any of them fits after casts one is left
(`Instantiation.exists_reduce_eq_singleton`).

A call with the types of the winner's rung stays on that rung: what fits there and keeps all
arguments has the same types, so it has competed with the winner before and lost. So ladders settle
every call (`Overload.settled_of_isLadder`). -/

namespace Overloading

namespace Signature

/-- The signature has no type variables, and arguments may be coerced to its terms. -/
structure Plain (s : Signature) : Prop where
  args : ∀ f ∈ s.args, f.isOpen = false
  ret : s.ret.isOpen = false
  isExact : s.rules.isExact = true
  coercible : s.rules.coercible = true

instance (s : Signature) : Decidable s.Plain :=
  decidable_of_iff ((∀ f ∈ s.args, f.isOpen = false) ∧ s.ret.isOpen = false ∧
      s.rules.isExact = true ∧ s.rules.coercible = true)
    ⟨fun ⟨h, h', hx, hc⟩ => ⟨h, h', hx, hc⟩, fun h => ⟨h.args, h.ret, h.isExact, h.coercible⟩⟩

/-- At `n` arguments the types of `s` promote to those of `t`, and `s` declares as many arguments,
or more if the types are the same. -/
def Below (n : Nat) (s t : Signature) : Prop :=
  ∃ ds ∈ s.types? n, ∃ es ∈ t.types? n,
    List.Forall₂ (fun d e => d.promotesTo e = true) ds es ∧ t.args.length ≤ s.args.length ∧
      (ds = es → t.args.length < s.args.length)

instance (n : Nat) (s t : Signature) : Decidable (Below n s t) :=
  inferInstanceAs (Decidable (∃ ds ∈ s.types? n, ∃ es ∈ t.types? n,
    List.Forall₂ (fun d e => d.promotesTo e = true) ds es ∧ t.args.length ≤ s.args.length ∧
      (ds = es → t.args.length < s.args.length)))

end Signature

namespace Instantiation

variable {is : List Instantiation} {i j : Instantiation} {m : Coercion} {actual : List TypeTerm}

theorem forall₂_promotesTo_antisymm : ∀ {ds es : List SqlType},
    List.Forall₂ (fun d e => d.promotesTo e = true) ds es →
    List.Forall₂ (fun e d => e.promotesTo d = true) es ds → ds = es
  | _, _, .nil, .nil => rfl
  | _, _, .cons h hs, .cons h' hs' => by
    rw [SqlType.promotesTo_antisymm h h', forall₂_promotesTo_antisymm hs hs']

/-- **The lower rung is strictly narrower.** -/
theorem beats_of_below (hi : i.declared.bind? m actual = some i.bound)
    (hj : j.declared.bind? m actual = some j.bound)
    (h : Signature.Below actual.length i.declared j.declared) : Beats narrower i j := by
  obtain ⟨ds, hds, es, hes, hall, hle, hlt⟩ := h
  have hargs : i.bound.args = ds.map SqlType.toTerm := Signature.args_of_types? hds hi
  have hargs' : j.bound.args = es.map SqlType.toTerm := Signature.args_of_types? hes hj
  have hformals := Signature.types?_eq_some_iff.1 hds
  have hformals' := Signature.types?_eq_some_iff.1 hes
  have hlen : actual.length = ds.length := by
    rw [← Signature.length_formals? hformals, List.length_map]
  have hlen' : actual.length = es.length := by
    rw [← Signature.length_formals? hformals', List.length_map]
  rw [hlen] at hformals'
  rw [hlen'] at hformals
  refine ⟨(narrower_iff_of_closed hargs hformals').2 ⟨hall, hle⟩, ?_⟩
  rw [← Bool.not_eq_true, narrower_iff_of_closed hargs' hformals]
  rintro ⟨hall', hle'⟩
  exact Nat.not_lt.2 hle' (hlt (forall₂_promotesTo_antisymm hall hall'))

/-- **Where of any two one is strictly narrower, no two are left.** -/
theorem exists_reduce_eq_singleton
    (hp : is.Pairwise fun i j => Beats narrower i j ∨ Beats narrower j i)
    (hne : reduce actual is ≠ []) : ∃ i, reduce actual is = [i] := by
  have hleft := hp.sublist (reduce_sublist actual is)
  have hsub : reduce actual is ⊆ is := (reduce_sublist actual is).subset
  -- all that are left keep as many arguments, so none of them beats another
  have hnot : ∀ i ∈ reduce actual is, ∀ j ∈ reduce actual is, ¬ Beats narrower j i := by
    intro i hi j hj
    have hij : j.kept actual ≤ i.kept actual := kept_le_of_mem_reduce hi (hsub hj)
    have hji : i.kept actual ≤ j.kept actual := kept_le_of_mem_reduce hj (hsub hi)
    exact not_beats_of_mem_reduce hi (hsub hj) (Nat.le_antisymm hij hji)
  match h : reduce actual is with
  | [] => exact absurd h hne
  | [i] => exact ⟨i, rfl⟩
  | i :: j :: js =>
    rw [h] at hleft hnot
    have hi : i ∈ i :: j :: js := List.mem_cons_self
    have hj : j ∈ i :: j :: js := List.mem_cons_of_mem i List.mem_cons_self
    rcases List.rel_of_pairwise_cons hleft List.mem_cons_self with hij | hji
    · exact absurd hij (hnot j hj i hi)
    · exact absurd hji (hnot i hi j hj)

theorem kept_le_length (actual : List TypeTerm) (i : Instantiation) :
    i.kept actual ≤ actual.length := by
  unfold kept
  refine List.countP_le_length.trans ?_
  rw [List.length_zip]
  exact Nat.min_le_right _ _

/-- To keep all arguments is to be bound to the types of the call. -/
theorem kept_eq_length_iff (h : i.bound.args.length = actual.length) :
    i.kept actual = actual.length ↔ i.bound.args = actual := by
  have hzip : (i.bound.args.zip actual).length = actual.length := by
    rw [List.length_zip, h, Nat.min_self]
  unfold kept
  rw [← List.forall₂_eq_eq_eq, List.forall₂_iff_zip]
  conv_lhs => rw [← hzip]
  rw [List.countP_eq_length]
  simp [h]

/-- What keeps all arguments is left unless something else that keeps them beats it. -/
theorem mem_reduce_of_args (hb : ∀ j ∈ is, j.declared.bind? m actual = some j.bound) (hi : i ∈ is)
    (hargs : i.bound.args = actual)
    (hbeat : ∀ j ∈ is, j.bound.args = actual → ¬ Beats narrower j i) : i ∈ reduce actual is := by
  have hlen : ∀ j ∈ is, j.bound.args.length = actual.length := fun j hj => by
    obtain ⟨es, hes, hlen⟩ := Signature.exists_types_of_bind? (hb j hj)
    rw [hes, List.length_map, hlen]
  have hkept : i.kept actual = actual.length := (kept_eq_length_iff (hlen i hi)).2 hargs
  refine mem_undominated.2 ⟨mem_undominated.2 ⟨hi, fun j _ hlt => ?_⟩, fun j hj hji => ?_⟩
  · rw [decide_eq_true_eq, hkept] at hlt
    exact absurd hlt (Nat.not_lt.2 (kept_le_length actual j))
  · have hmem : j ∈ is := (undominated_sublist _ _).subset hj
    have hle : i.kept actual ≤ j.kept actual := kept_le_of_mem_undominated hj hi
    have hkept' : j.kept actual = actual.length :=
      Nat.le_antisymm (kept_le_length actual j) (hkept ▸ hle)
    have hargs' : j.bound.args = actual := (kept_eq_length_iff (hlen j hmem)).1 hkept'
    by_contra hij
    exact hbeat j hmem hargs' ⟨hji, Bool.eq_false_of_not_eq_true hij⟩

end Instantiation

namespace Overload

variable {types ds : List SqlType} {os : List Overload} {t : Tier} {i j : Instantiation}
  {m m' : Coercion}

/-- The overloads have no type variables and admit coercion, and at `n` arguments one of any two is
strictly narrower than the other. -/
structure IsLadder (n : Nat) (os : List Overload) : Prop where
  plain : ∀ o ∈ os, o.signature.Plain
  ordered : os.Pairwise fun o o' =>
    Signature.Below n o.signature o'.signature ∨ Signature.Below n o'.signature o.signature

instance (n : Nat) (os : List Overload) : Decidable (IsLadder n os) :=
  decidable_of_iff ((∀ o ∈ os, o.signature.Plain) ∧ os.Pairwise fun o o' =>
      Signature.Below n o.signature o'.signature ∨ Signature.Below n o'.signature o.signature)
    ⟨fun ⟨h, h'⟩ => ⟨h, h'⟩, fun h => ⟨h.plain, h.ordered⟩⟩

namespace IsLadder

variable (hos : IsLadder types.length os)

include hos

theorem closed (hi : i ∈ t.applicable types os) : ∀ f ∈ i.declared.args, f.isOpen = false :=
  (hos.plain _ ((t.mem_applicable types).1 hi).1).args

/-- Of two overloads that apply one beats the other. -/
theorem pairwise_applicable (t : Tier) : (t.applicable types os).Pairwise fun i j =>
    Beats Instantiation.narrower i j ∨ Beats Instantiation.narrower j i := by
  refine (hos.ordered.filter _).filterMap _ fun o o' horder i hi j hj => ?_
  obtain ⟨b, hb, rfl⟩ := Option.map_eq_some_iff.1 hi
  obtain ⟨b', hb', rfl⟩ := Option.map_eq_some_iff.1 hj
  have hlen : (types.map SqlType.toTerm).length = types.length := List.length_map _
  rw [← hlen] at horder
  rcases horder with h | h
  · exact Or.inl (Instantiation.beats_of_below hb hb' h)
  · exact Or.inr (Instantiation.beats_of_below hb' hb h)

/-- **If any overload applies after conversions, one is left.** -/
theorem exists_winner? (ht : t.coercion.converts = true) (hne : t.applicable types os ≠ []) :
    ∃ i, Instantiation.reduce (types.map SqlType.toTerm) (t.applicable types os) = [i] ∧
      t.winner? types os = some i := by
  set is := undominated (fun i j : Instantiation =>
    j.kept (types.map SqlType.toTerm) < i.kept (types.map SqlType.toTerm)) (t.applicable types os)
  have hsub : is ⊆ t.applicable types os := (undominated_sublist _ _).subset
  have hkept : is ≠ [] := Instantiation.undominated_kept_ne_nil _ hne
  have htrans : TransitiveOn Instantiation.narrower is :=
    Instantiation.transitiveOn_narrower_of_closed
      (fun i hi => ((t.mem_applicable types).1 (hsub hi)).2.2) fun i hi => hos.closed (hsub hi)
  have hleft : Instantiation.reduce (types.map SqlType.toTerm) (t.applicable types os) ≠ [] :=
    undominated_ne_nil_of_acyclic htrans.acyclic hkept
  obtain ⟨i, hi⟩ :=
    Instantiation.exists_reduce_eq_singleton (hos.pairwise_applicable t) hleft
  refine ⟨i, hi, (t.winner?_eq_some_iff types).2 ?_⟩
  unfold Tier.finalists Instantiation.mostSpecific
  rw [if_pos ht, hi, Instantiation.breakTie_singleton]

theorem exists_select?_of_fits {o : Overload} (ho : o ∈ os) (h : o.Fits types) :
    ∃ i, select? types os = some i := by
  obtain ⟨b, hb⟩ := Option.isSome_iff_exists.1 h.isSome_bind?_cast
  have hmem : ⟨o, b⟩ ∈ Tier.cast.applicable types os :=
    (Tier.cast.mem_applicable types).2 ⟨ho, (hos.plain o ho).coercible, hb⟩
  obtain ⟨i, -, hi⟩ := hos.exists_winner? (t := .cast) rfl (List.ne_nil_of_mem hmem)
  exact exists_select?_of_winner? hi

end IsLadder

/-- What rivals the winner at the types of its rung has rivalled it before. -/
theorem rivals_of_args (hi : i.declared.Plain) (hj : j.declared.Plain) (hmem : j.overload ∈ os)
    (hib : i.declared.bind? m (types.map SqlType.toTerm) = some i.bound)
    (hjb : j.declared.bind? m' (ds.map SqlType.toTerm) = some j.bound)
    (hids : i.bound.args = ds.map SqlType.toTerm) (hjds : j.bound.args = ds.map SqlType.toTerm) :
    Rivals os types m j := by
  obtain ⟨es, hlen, hes, hformals⟩ := Instantiation.exists_types_of_closed hib hi.args
  obtain ⟨es', hlen', hes', hformals'⟩ := Instantiation.exists_types_of_closed hjb hj.args
  obtain rfl : es = ds := SqlType.map_toTerm_injective (hes.symm.trans hids)
  obtain rfl : es' = es := SqlType.map_toTerm_injective (hes'.symm.trans hjds)
  rw [List.length_map] at hlen hformals hformals'
  have hitypes : i.declared.types? types.length = some es' :=
    Signature.types?_eq_some_iff.2 hformals
  have hjtypes : j.declared.types? types.length = some es' := by
    rw [← hlen]
    exact Signature.types?_eq_some_iff.2 hformals'
  exact ⟨hmem, hj.coercible,
    Signature.bind?_of_same_types hitypes hjtypes hi.ret hj.ret hlen hib hjb⟩

/-- What is bound to the types of the winner's rung does not beat the winner. -/
theorem IsBest.not_beats_of_args (hbest : IsBest os types m i) (hm : m ≠ .exact)
    (hplain : ∀ o ∈ os, o.signature.Plain) (hds : i.bound.args = ds.map SqlType.toTerm)
    (hmem : j.overload ∈ os)
    (hjb : j.declared.bind? m' (ds.map SqlType.toTerm) = some j.bound)
    (hjds : j.bound.args = ds.map SqlType.toTerm) : ¬ Beats Instantiation.narrower j i := by
  have hrival : Rivals os types m j :=
    rivals_of_args (hplain _ hbest.mem) (hplain _ hmem) hmem hbest.bound hjb hds hjds
  have hsame : j.unchanged types = i.unchanged types := by
    unfold Instantiation.unchanged
    rw [hjds, hds]
  rw [Instantiation.beats_narrower_iff]
  exact hbest.not_within hm j hrival hsame

/-- Where no overload has type variables, an overload that takes the arguments as they are is
selected if it wins after promotions: in the tiers before, nothing else can win. -/
theorem select?_of_winner?_promotion (hos : ∀ o ∈ os, o.signature.rules.isExact = true)
    (hexact : i ∈ Tier.exact.applicable types os)
    (hwins : Tier.promotion.winner? types os = some i) : select? types os = some i := by
  have hgeneric : Tier.generic.winner? types os = none :=
    Tier.winner?_of_applicable_nil (Tier.applicable_eq_nil_of_admits fun o ho => by
      simp [Tier.admits, hos o ho])
  unfold select? Tier.all
  rw [List.findSome?_cons]
  cases hk : Tier.exact.winner? types os with
  | none => rw [List.findSome?_cons, hgeneric, List.findSome?_cons, hwins]
  | some k =>
    have hfinal : Tier.exact.applicable types os = [k] :=
      (Tier.exact.winner?_eq_some_iff types).1 hk
    rw [hfinal] at hexact
    rw [List.mem_singleton.1 hexact]

/-- **On a ladder the types that the arguments are given select the same again.** -/
theorem IsLadder.select?_args (hos : IsLadder types.length os) (h : select? types os = some i)
    (hds : i.bound.args = ds.map SqlType.toTerm) : select? ds os = some i := by
  obtain ⟨t, -, hbest⟩ := exists_isBest_of_select? h
  have hplain := hos.plain _ hbest.mem
  by_cases hm : t.coercion = .exact
  · -- the arguments were taken as they are, so this is the same call
    have hbound := hbest.bound
    rw [hm] at hbound
    have hsame : ds = types :=
      SqlType.map_toTerm_injective (hds.symm.trans (Signature.args_of_bind?_exact hbound))
    rw [hsame, h]
  · have hagain : i.declared.bind? .exact (ds.map SqlType.toTerm) = some i.bound :=
      hds ▸ Signature.bind?_exact_args hbest.bound
    have hmem : i ∈ Tier.promotion.applicable ds os := (Tier.mem_applicable _ _).2
      ⟨hbest.mem, hplain.coercible, Signature.bind?_of_exact hagain .promotion⟩
    have hleft : i ∈ Instantiation.reduce (ds.map SqlType.toTerm)
        (Tier.promotion.applicable ds os) := by
      refine Instantiation.mem_reduce_of_args (fun j hj => ((Tier.mem_applicable _ _).1 hj).2.2)
        hmem hds fun j hj hjds => ?_
      obtain ⟨hjmem, -, hjb⟩ := (Tier.mem_applicable _ _).1 hj
      exact hbest.not_beats_of_args hm hos.plain hds hjmem hjb hjds
    -- one overload is left after promotions, and the winner is among what is left
    have hlen : ds.length = types.length := Instantiation.length_of_args hbest.bound hds
    have hladder : IsLadder ds.length os := hlen ▸ hos
    obtain ⟨k, hk, hwins⟩ :=
      hladder.exists_winner? (t := .promotion) rfl (List.ne_nil_of_mem hmem)
    rw [hk] at hleft
    obtain rfl := List.mem_singleton.1 hleft
    exact select?_of_winner?_promotion (fun o ho => (hos.plain o ho).isExact)
      ((Tier.mem_applicable _ _).2 ⟨hbest.mem, hplain.isExact, hagain⟩) hwins

/-- **A ladder settles every call with the number of arguments that it is a ladder for.** -/
theorem settled_of_isLadder (hos : IsLadder types.length os) : Settled os types where
  decided := fun ⟨_, ho, hfits⟩ => hos.exists_select?_of_fits ho hfits
  stable _ hi _ hds := hos.select?_args hi hds

end Overload

end Overloading
