import Overloading.Proofs.Binding.Elementwise

/-! # The common type of the arguments

Types that promote to a common one have a supremum (`SqlType.exists_isSupremumOf`). It depends only
on which types there are, not on their order or on how often each of them occurs
(`SqlType.IsSupremumOf.congr`).

A place that is joined with one type after the other, by promotions, moves from supremum to supremum
(`Coercion.join_of_isSupremum`, `Coercion.joinAll_of_isSupremumOf`). So a signature `g(E...):E` is
bound by promotions to the supremum of its arguments and to nothing else
(`Signature.Homogeneous.bindsAt_promotion_iff`). -/

namespace Overloading

namespace SqlType

variable {t c d : SqlType} {ts us : List SqlType}

/-- The least of the types to which all of these promote. -/
structure IsSupremumOf (ts : List SqlType) (c : SqlType) : Prop where
  upper : ∀ t ∈ ts, t.promotesTo c = true
  least : ∀ d, (∀ t ∈ ts, t.promotesTo d = true) → c.promotesTo d = true

theorem IsSupremumOf.unique (h : IsSupremumOf ts c) (h' : IsSupremumOf ts d) : c = d :=
  promotesTo_antisymm (h.least d h'.upper) (h'.least c h.upper)

/-- The supremum of two types promotes to what both promote to. -/
theorem IsSupremum.promotesTo_iff {a b : SqlType} (h : IsSupremum a b c) :
    c.promotesTo d = true ↔ a.promotesTo d = true ∧ b.promotesTo d = true :=
  ⟨fun hcd => ⟨promotesTo_trans h.left hcd, promotesTo_trans h.right hcd⟩,
    fun ⟨had, hbd⟩ => h.least d had hbd⟩

/-- **The supremum is known by what it promotes to.** -/
theorem isSupremumOf_iff :
    IsSupremumOf ts c ↔ ∀ d, c.promotesTo d = true ↔ ∀ t ∈ ts, t.promotesTo d = true := by
  constructor
  · intro h d
    exact ⟨fun hcd t ht => promotesTo_trans (h.upper t ht) hcd, h.least d⟩
  · intro h
    exact ⟨(h c).1 (promotesTo_self c), fun d => (h d).2⟩

/-- Only the types count, not their order or number. -/
theorem IsSupremumOf.congr (h : IsSupremumOf ts c) (hmem : ∀ t, t ∈ us ↔ t ∈ ts) :
    IsSupremumOf us c := by
  rw [isSupremumOf_iff] at h ⊢
  simpa only [hmem] using h

theorem isSupremumOf_singleton (t : SqlType) : IsSupremumOf [t] t :=
  isSupremumOf_iff.2 (by simp)

/-- The supremum of a list is that of its first type and of the supremum of the rest. -/
theorem IsSupremumOf.cons (h : IsSupremumOf ts d) (hc : IsSupremum t d c) :
    IsSupremumOf (t :: ts) c :=
  isSupremumOf_iff.2 fun e => by
    rw [hc.promotesTo_iff, isSupremumOf_iff.1 h, List.forall_mem_cons]

/-- Two types may be taken for one, their supremum. -/
theorem IsSupremumOf.merge {a b : SqlType} (h : IsSupremumOf (a :: b :: ts) d)
    (hc : IsSupremum a b c) : IsSupremumOf (c :: ts) d :=
  isSupremumOf_iff.2 fun e => by
    rw [isSupremumOf_iff.1 h, List.forall_mem_cons, List.forall_mem_cons, List.forall_mem_cons,
      hc.promotesTo_iff, and_assoc]

/-- **Types that promote to a common one have a supremum.** -/
theorem exists_isSupremumOf (h : ∀ t ∈ ts, t.promotesTo c = true) : ∃ d, IsSupremumOf ts d := by
  induction ts with
  | nil => exact ⟨undefined, by simp, fun d _ => undefined_promotesTo d⟩
  | cons t ts ih =>
    obtain ⟨htc, htsc⟩ := List.forall_mem_cons.1 h
    obtain ⟨d, hd⟩ := ih htsc
    obtain ⟨e, -, he⟩ := exists_isSupremum htc (hd.least c htsc)
    exact ⟨e, hd.cons he⟩

end SqlType

namespace Coercion

open SqlType (IsSupremum IsSupremumOf)

variable {a b c t u : SqlType} {ts : List SqlType}

/-- **A place that meets one more type moves to the supremum.** -/
theorem join_of_isSupremum (h : IsSupremum a b c) : promotion.join a b = some c := by
  obtain ⟨d, hd, hdc, had, hbd⟩ := join_of_common (m := .promotion) rfl h.left h.right
  have hcd : c.promotesTo d = true := h.least d had hbd
  rw [hd, SqlType.promotesTo_antisymm hdc hcd]

/-- **A place that meets types one after the other ends at their supremum.** -/
theorem joinAll_of_isSupremumOf (h : IsSupremumOf (t :: ts) u) :
    promotion.joinAll t ts = some u := by
  induction ts generalizing t with
  | nil => exact congrArg some ((SqlType.isSupremumOf_singleton t).unique h)
  | cons b ts ih =>
    have htu : t.promotesTo u = true := h.upper t (by simp)
    have hbu : b.promotesTo u = true := h.upper b (by simp)
    obtain ⟨w, -, hw⟩ := SqlType.exists_isSupremum htu hbu
    rw [joinAll_cons, join_of_isSupremum hw]
    exact ih (h.merge hw)

end Coercion

namespace Signature

variable {s : Signature} {v : String} {ts : List SqlType} {u : SqlType}

/-- **By promotions the arguments are bound to their supremum and to nothing else.** -/
theorem Homogeneous.bindsAt_promotion_iff (hs : s.Homogeneous v) (hne : ts ≠ []) :
    s.BindsAt .promotion v ts u ↔ SqlType.IsSupremumOf ts u := by
  obtain ⟨t, ts, rfl⟩ := List.exists_cons_of_ne_nil hne
  rw [hs.bindsAt_cons_iff]
  constructor
  · rintro ⟨hjoin, hupper⟩
    obtain ⟨d, hd⟩ := SqlType.exists_isSupremumOf hupper
    have hdu : some d = some u := by rw [← Coercion.joinAll_of_isSupremumOf hd, hjoin]
    exact Option.some.inj hdu ▸ hd
  · intro h
    exact ⟨Coercion.joinAll_of_isSupremumOf h, h.upper⟩

end Signature

end Overloading
