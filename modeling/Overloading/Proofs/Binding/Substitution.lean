import Overloading.Binding.Basic
import Overloading.Proofs.SqlType.Promotion
import Overloading.Proofs.TypeTerm.Substitution
import Mathlib.Data.List.Basic

/-! # Terms under an assignment

An assignment turns a term into the term of a type if it has a type for every variable of the term
(`isOpen_apply_eq_false_iff`) and the term is built of arrays only (`apply_app_eq_toTerm`). Types
that coerce variable by variable give types that coerce (`CoercesTo.apply`); this is what lets a
binding move to other types without losing the arguments that it has met (`CoercesTo.fits`). -/

namespace Overloading

theorem SqlType.toTerm_injective {s t : SqlType} (h : s.toTerm = t.toTerm) : s = t := by
  have hs := TypeTerm.denote_toTerm s
  rw [h, TypeTerm.denote_toTerm, Except.ok.injEq] at hs
  exact hs.symm

theorem SqlType.map_toTerm_injective {ts ts' : List SqlType}
    (h : ts.map toTerm = ts'.map toTerm) : ts = ts' :=
  List.map_injective_iff.2 (fun _ _ => toTerm_injective) h

@[simp] theorem SqlType.vars_toTerm : ∀ t : SqlType, t.toTerm.vars = []
  | scalar _ => rfl
  | array t => by simp [toTerm, vars_toTerm t]

namespace Assignment

variable {a b c : Assignment} {m : Coercion}

@[simp] theorem apply_var (a : Assignment) (v : String) :
    a.apply (.var v) = ((a.get? v).map SqlType.toTerm).getD (.var v) := rfl

@[simp] theorem apply_app (a : Assignment) (n : String) (ps : List TypeTerm) :
    a.apply (.app n ps) = .app n (ps.map a.apply) :=
  TypeTerm.subst_app _ n ps

theorem apply_congr {f : TypeTerm} (h : ∀ v ∈ f.vars, a.get? v = b.get? v) :
    a.apply f = b.apply f :=
  TypeTerm.subst_congr fun v hv => by rw [h v hv]

theorem apply_of_isOpen_eq_false {f : TypeTerm} (h : f.isOpen = false) : a.apply f = f :=
  TypeTerm.subst_of_isOpen_eq_false h

/-- **An assignment closes a term if it has a type for each of its variables.** -/
theorem isOpen_apply_eq_false_iff {f : TypeTerm} :
    (a.apply f).isOpen = false ↔ ∀ v ∈ f.vars, (a.get? v).isSome = true := by
  rw [TypeTerm.isOpen_eq_false_iff, apply, TypeTerm.vars_subst, List.flatMap_eq_nil_iff]
  refine forall₂_congr fun v _ => ?_
  cases a.get? v <;> simp

theorem isSome_get?_of_apply {f : TypeTerm} {d : SqlType} (h : a.apply f = d.toTerm) :
    ∀ v ∈ f.vars, (a.get? v).isSome = true :=
  isOpen_apply_eq_false_iff.1 (by rw [h, SqlType.isOpen_toTerm])

/-- An open application that becomes the term of a type is an array of an open term. -/
theorem apply_app_eq_toTerm {n : String} {ps : List TypeTerm} {d : SqlType}
    (ho : (TypeTerm.app n ps).isOpen = true) (h : a.apply (.app n ps) = d.toTerm) :
    ∃ p e, n = arrayName ∧ ps = [p] ∧ d = .array e ∧ p.isOpen = true ∧ a.apply p = e.toTerm := by
  rw [apply_app] at h
  cases d with
  | scalar s =>
    simp only [SqlType.toTerm, TypeTerm.app.injEq, List.map_eq_nil_iff] at h
    obtain ⟨-, rfl⟩ := h
    simp at ho
  | array e =>
    simp only [SqlType.toTerm, TypeTerm.app.injEq, List.map_eq_singleton_iff] at h
    obtain ⟨rfl, p, rfl, hp⟩ := h
    exact ⟨p, e, rfl, rfl, rfl, by simpa using ho, hp⟩

/-- A relation that is reflexive and passes from elements to arrays passes from assignments to
terms. -/
theorem apply_rel {R : SqlType → SqlType → Prop} (hrefl : ∀ t, R t t)
    (harray : ∀ t u, R t u → R (.array t) (.array u)) {f : TypeTerm} {d : SqlType}
    (hR : ∀ v ∈ f.vars, ∀ t, a.get? v = some t → ∃ u, b.get? v = some u ∧ R t u)
    (h : a.apply f = d.toTerm) : ∃ e, b.apply f = e.toTerm ∧ R d e := by
  induction f generalizing d with
  | var v =>
    obtain ⟨t, ht⟩ := Option.isSome_iff_exists.1 (isSome_get?_of_apply h v (by simp))
    obtain ⟨u, hu, htu⟩ := hR v (by simp) t ht
    rw [apply_var, ht] at h
    obtain rfl := SqlType.toTerm_injective h
    exact ⟨u, by rw [apply_var, hu]; rfl, htu⟩
  | app n ps ih =>
    cases ho : (TypeTerm.app n ps).isOpen with
    | false =>
      rw [apply_of_isOpen_eq_false ho] at h ⊢
      exact ⟨d, h, hrefl d⟩
    | true =>
      obtain ⟨p, t, rfl, rfl, rfl, -, hp⟩ := apply_app_eq_toTerm ho h
      obtain ⟨u, hu, htu⟩ := ih p (by simp) (fun v hv => hR v (by simpa using hv)) hp
      exact ⟨.array u, by rw [apply_app, List.map_singleton, hu]; rfl, harray t u htu⟩

/-- An assignment with types for all variables makes the term of a type if another one does. -/
theorem exists_apply_eq_toTerm {f : TypeTerm} {d : SqlType}
    (hb : ∀ v ∈ f.vars, (b.get? v).isSome = true) (h : a.apply f = d.toTerm) :
    ∃ e : SqlType, b.apply f = e.toTerm := by
  obtain ⟨e, he, -⟩ := apply_rel (R := fun _ _ => True) (fun _ => trivial) (fun _ _ _ => trivial)
    (fun v hv t _ => (Option.isSome_iff_exists.1 (hb v hv)).imp fun u hu => ⟨hu, trivial⟩) h
  exact ⟨e, he⟩

/-! ### Coercion of assignments -/

/-- The type of every variable in `a` coerces to its type in `b`. -/
def CoercesTo (m : Coercion) (a b : Assignment) : Prop :=
  ∀ v t, a.get? v = some t → ∃ u, b.get? v = some u ∧ t.coercesTo m u = true

theorem CoercesTo.refl (m : Coercion) (a : Assignment) : a.CoercesTo m a :=
  fun _ t ht => ⟨t, ht, SqlType.coercesTo_self m t⟩

theorem empty_coercesTo (m : Coercion) (a : Assignment) : (∅ : Assignment).CoercesTo m a := by
  intro v t ht
  simp at ht

theorem CoercesTo.trans_of_common {s : Assignment} (ha : a.CoercesTo .promotion s)
    (hb : b.CoercesTo .promotion s) (hc : c.CoercesTo .promotion s) (hab : a.CoercesTo m b)
    (hbc : b.CoercesTo m c) : a.CoercesTo m c := by
  intro v t ht
  obtain ⟨u, hu, htu⟩ := hab v t ht
  obtain ⟨w, hw, huw⟩ := hbc v u hu
  obtain ⟨x, hx, htx⟩ := ha v t ht
  obtain ⟨y, hy, huy⟩ := hb v u hu
  obtain ⟨z, hz, hwz⟩ := hc v w hw
  obtain rfl := Option.some.inj (hx.symm.trans hy)
  obtain rfl := Option.some.inj (hx.symm.trans hz)
  exact ⟨w, hw, SqlType.coercesTo_trans_of_common htx huy hwz htu huw⟩

theorem CoercesTo.antisymm (h : a.CoercesTo .promotion b) (h' : b.CoercesTo .promotion a)
    (v : String) : a.get? v = b.get? v := by
  cases ha : a.get? v with
  | some t =>
    obtain ⟨u, hu, htu⟩ := h v t ha
    obtain ⟨w, hw, huw⟩ := h' v u hu
    obtain rfl := Option.some.inj (ha.symm.trans hw)
    rw [hu, SqlType.promotesTo_antisymm htu huw]
  | none =>
    cases hb : b.get? v with
    | none => rfl
    | some u =>
      obtain ⟨w, hw, -⟩ := h' v u hb
      simp [ha] at hw

theorem coercesTo_set {v : String} {t : SqlType}
    (h : ∀ u, a.get? v = some u → u.coercesTo m t = true) : a.CoercesTo m (a.set v t) := by
  intro w u hu
  by_cases hw : w = v
  · subst hw
    exact ⟨t, get?_set_self a w t, h u hu⟩
  · exact ⟨u, by rw [get?_set, if_neg hw, hu], SqlType.coercesTo_self m u⟩

theorem CoercesTo.set_left (h : a.CoercesTo m c) {v : String} {t u : SqlType}
    (hu : c.get? v = some u) (htu : t.coercesTo m u = true) : (a.set v t).CoercesTo m c := by
  intro w x hx
  rw [get?_set] at hx
  split_ifs at hx with hw
  · obtain rfl := Option.some.inj hx
    exact ⟨u, by rw [hw, hu], htu⟩
  · exact h w x hx

theorem coercesTo_fill (m : Coercion) (a : Assignment) (vs : List String) :
    a.CoercesTo m (a.fill vs) := by
  intro v t ht
  exact ⟨t, by rw [get?_fill, ht, Option.some_or], SqlType.coercesTo_self m t⟩

theorem CoercesTo.fill_left (h : a.CoercesTo .promotion c) {vs : List String}
    (hvs : ∀ v ∈ vs, (c.get? v).isSome = true) : (a.fill vs).CoercesTo .promotion c := by
  intro v t ht
  rw [get?_fill, Option.or_eq_some_iff] at ht
  rcases ht with ht | ⟨-, ht⟩
  · exact h v t ht
  · split_ifs at ht with hmem
    obtain rfl := Option.some.inj ht
    obtain ⟨u, hu⟩ := Option.isSome_iff_exists.1 (hvs v hmem)
    exact ⟨u, hu, SqlType.undefined_promotesTo u⟩

/-- Where a term can become a type, `undefined` fits once the blanks are filled. -/
theorem undefined_fits_fill (hm : m.converts = true) (a : Assignment) {f : TypeTerm} {d : SqlType}
    (hd : c.apply f = d.toTerm) :
    SqlType.undefined.fits m ((a.fill f.vars).apply f) = true := by
  have hfill : ∀ v ∈ f.vars, ((a.fill f.vars).get? v).isSome = true := by
    intro v hv
    rw [get?_fill, if_pos hv]
    simp
  obtain ⟨e, he⟩ := exists_apply_eq_toTerm hfill hd
  have hbot := SqlType.coercesTo_of_promotesTo hm (SqlType.undefined_promotesTo e)
  exact SqlType.fits_iff.2 ⟨e, he, hbot⟩

/-- **Terms coerce with their variables.** -/
theorem CoercesTo.apply (h : a.CoercesTo m b) {f : TypeTerm} {d : SqlType}
    (hd : a.apply f = d.toTerm) : ∃ e, b.apply f = e.toTerm ∧ d.coercesTo m e = true :=
  apply_rel (R := fun t u => t.coercesTo m u = true) (SqlType.coercesTo_self m)
    (fun t u htu => by rw [SqlType.coercesTo_array, htu]) (fun v _ => h v) hd

/-- **A binding that moves below a common one keeps the arguments that fit.** -/
theorem CoercesTo.fits (ha : a.CoercesTo .promotion c) (hb : b.CoercesTo .promotion c)
    (hab : a.CoercesTo m b) {f : TypeTerm} {t : SqlType}
    (hc : t.fits .promotion (c.apply f) = true) (h : t.fits m (a.apply f) = true) :
    t.fits m (b.apply f) = true := by
  obtain ⟨d, hd, htd⟩ := SqlType.fits_iff.1 h
  obtain ⟨e, he, hde⟩ := hab.apply hd
  obtain ⟨x, hx, htx⟩ := SqlType.fits_iff.1 hc
  obtain ⟨y, hy, hdy⟩ := ha.apply hd
  obtain ⟨z, hz, hez⟩ := hb.apply he
  obtain rfl := SqlType.toTerm_injective (hx.symm.trans hy)
  obtain rfl := SqlType.toTerm_injective (hx.symm.trans hz)
  exact SqlType.fits_iff.2 ⟨e, he, SqlType.coercesTo_trans_of_common htx hdy hez htd hde⟩

end Assignment

end Overloading
