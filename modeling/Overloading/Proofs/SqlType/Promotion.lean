import Mathlib.Order.Defs.Unbundled
import Mathlib.Tactic.SplitIfs
import Overloading.SqlType.Coercion

/-! # The order of promotions

Promotion goes upwards in the rank and stays in one family (`Scalar.promotesTo_iff`), so it is a
partial order with `undefined` at the bottom. Two types that promote to a common type are comparable
(`SqlType.promotesTo_or_of_common`), so that one of them is the least of the types to which both
promote (`SqlType.exists_isSupremum`). Between the types that promote to a common type casts are
transitive as well (`SqlType.coercesTo_trans_of_common`), which they are not in general. Hence a
place that meets types below a common one can always hold one of them that accepts the others
(`Coercion.join_of_common`). -/

namespace Overloading

namespace Scalar

/-- The types of points in time. -/
def isInstant : Scalar → Bool
  | date | timestamp | timestamptz => true
  | _ => false

/-- Both are numbers, or both are points in time. -/
def SameFamily (a b : Scalar) : Prop :=
  a.isNumeric = true ∧ b.isNumeric = true ∨ a.isInstant = true ∧ b.isInstant = true

theorem isInstant_of_isNumeric {a : Scalar} (h : a.isNumeric = true) : a.isInstant = false := by
  revert h; cases a <;> decide

theorem SameFamily.symm {a b : Scalar} (h : a.SameFamily b) : b.SameFamily a := by
  rcases h with ⟨ha, hb⟩ | ⟨ha, hb⟩
  · exact Or.inl ⟨hb, ha⟩
  · exact Or.inr ⟨hb, ha⟩

theorem SameFamily.trans {a b c : Scalar} (h : a.SameFamily b) (h' : b.SameFamily c) :
    a.SameFamily c := by
  rcases h with ⟨ha, hb⟩ | ⟨ha, hb⟩ <;> rcases h' with ⟨hb', hc⟩ | ⟨hb', hc⟩
  · exact Or.inl ⟨ha, hc⟩
  · simp [isInstant_of_isNumeric hb] at hb'
  · simp [isInstant_of_isNumeric hb'] at hb
  · exact Or.inr ⟨ha, hc⟩

/-- **Promotion goes upwards in the rank and stays in one family.** -/
theorem promotesTo_iff {a b : Scalar} :
    a.promotesTo b = true ↔ a = b ∨ a = undefined ∨ a.rank < b.rank ∧ a.SameFamily b := by
  unfold SameFamily
  cases a <;> cases b <;> decide

theorem castsTo_of_sameFamily {a b : Scalar} (h : a.SameFamily b) : a.castsTo b = true := by
  rcases h with ⟨ha, hb⟩ | ⟨ha, hb⟩
  · simp [castsTo, ha, hb]
  · revert ha hb; cases a <;> cases b <;> decide

theorem eq_undefined_of_castsTo {a : Scalar} (h : a.castsTo undefined = true) : a = undefined := by
  revert h; cases a <;> decide

theorem promotesTo_trans {a b c : Scalar} (h : a.promotesTo b = true) (h' : b.promotesTo c = true) :
    a.promotesTo c = true := by
  rw [promotesTo_iff] at h h' ⊢
  rcases h with rfl | rfl | ⟨hr, hf⟩
  · exact h'
  · exact Or.inr (Or.inl rfl)
  · rcases h' with rfl | rfl | ⟨hr', hf'⟩
    · exact Or.inr (Or.inr ⟨hr, hf⟩)
    · exact absurd hr (Nat.not_lt_zero _)
    · exact Or.inr (Or.inr ⟨by omega, hf.trans hf'⟩)

theorem promotesTo_antisymm {a b : Scalar} (h : a.promotesTo b = true)
    (h' : b.promotesTo a = true) : a = b := by
  rw [promotesTo_iff] at h h'
  rcases h with rfl | rfl | ⟨hr, -⟩
  · rfl
  · rcases h' with rfl | rfl | ⟨hr', -⟩
    · rfl
    · rfl
    · exact absurd hr' (Nat.not_lt_zero _)
  · rcases h' with rfl | rfl | ⟨hr', -⟩
    · rfl
    · exact absurd hr (Nat.not_lt_zero _)
    · omega

/-- Two types below a common one are equal, or in one family, or one of them is `undefined`. -/
theorem cases_of_common {a b c : Scalar} (ha : a.promotesTo c = true) (hb : b.promotesTo c = true) :
    a = b ∨ a = undefined ∨ b = undefined ∨ a.SameFamily b := by
  rw [promotesTo_iff] at ha hb
  rcases ha with rfl | ha | ⟨-, ha⟩
  · rcases hb with rfl | hb | ⟨-, hb⟩
    · exact Or.inl rfl
    · exact Or.inr (Or.inr (Or.inl hb))
    · exact Or.inr (Or.inr (Or.inr hb.symm))
  · exact Or.inr (Or.inl ha)
  · rcases hb with rfl | hb | ⟨-, hb⟩
    · exact Or.inr (Or.inr (Or.inr ha))
    · exact Or.inr (Or.inr (Or.inl hb))
    · exact Or.inr (Or.inr (Or.inr (ha.trans hb.symm)))

theorem promotesTo_or_of_common {a b c : Scalar} (ha : a.promotesTo c = true)
    (hb : b.promotesTo c = true) : a.promotesTo b = true ∨ b.promotesTo a = true := by
  rcases cases_of_common ha hb with rfl | rfl | rfl | hf
  · exact Or.inl (promotesTo_self a)
  · exact Or.inl (promotesTo_iff.2 (Or.inr (Or.inl rfl)))
  · exact Or.inr (promotesTo_iff.2 (Or.inr (Or.inl rfl)))
  · rcases Nat.lt_trichotomy a.rank b.rank with hr | hr | hr
    · exact Or.inl (promotesTo_iff.2 (Or.inr (Or.inr ⟨hr, hf⟩)))
    · rw [rank_injective hr]
      exact Or.inl (promotesTo_self b)
    · exact Or.inr (promotesTo_iff.2 (Or.inr (Or.inr ⟨hr, hf.symm⟩)))

theorem castsTo_trans_of_common {a b c s : Scalar} (ha : a.promotesTo s = true)
    (hc : c.promotesTo s = true) (hab : a.castsTo b = true) (hbc : b.castsTo c = true) :
    a.castsTo c = true := by
  rcases cases_of_common ha hc with rfl | rfl | rfl | hf
  · exact castsTo_of_promotesTo (promotesTo_self a)
  · exact castsTo_of_promotesTo (promotesTo_iff.2 (Or.inr (Or.inl rfl)))
  · rwa [eq_undefined_of_castsTo hbc] at hab
  · exact castsTo_of_sameFamily hf

end Scalar

namespace SqlType

/-! ### Types of any depth -/

@[simp] theorem undefined_promotesTo (t : SqlType) : undefined.promotesTo t = true := by
  cases t with
  | scalar s => exact Scalar.promotesTo_iff.2 (Or.inr (Or.inl rfl))
  | array t => simp [promotesTo]

theorem promotesTo_trans : ∀ {a b c : SqlType}, a.promotesTo b = true → b.promotesTo c = true →
    a.promotesTo c = true
  | scalar _, scalar _, scalar _, h, h' => Scalar.promotesTo_trans h h'
  | scalar _, scalar _, array _, h, h' => by
    simp only [promotesTo, decide_eq_true_eq] at h' ⊢
    subst h'
    exact Scalar.eq_undefined_of_castsTo (Scalar.castsTo_of_promotesTo h)
  | scalar _, array _, array _, h, _ => h
  | array a, array b, array c, h, h' => promotesTo_trans (a := a) (b := b) (c := c) h h'

theorem promotesTo_antisymm : ∀ {a b : SqlType}, a.promotesTo b = true → b.promotesTo a = true →
    a = b
  | scalar _, scalar _, h, h' => congrArg scalar (Scalar.promotesTo_antisymm h h')
  | array a, array b, h, h' => congrArg array (promotesTo_antisymm (a := a) (b := b) h h')

/-- **Two types below a common one are comparable.** -/
theorem promotesTo_or_of_common : ∀ {a b c : SqlType}, a.promotesTo c = true →
    b.promotesTo c = true → a.promotesTo b = true ∨ b.promotesTo a = true
  | scalar _, scalar _, scalar _, ha, hb => Scalar.promotesTo_or_of_common ha hb
  | scalar a, b, array _, ha, _ => by
    simp only [promotesTo, decide_eq_true_eq] at ha
    subst ha
    exact Or.inl (undefined_promotesTo b)
  | array a, scalar b, array _, _, hb => by
    simp only [promotesTo, decide_eq_true_eq] at hb
    subst hb
    exact Or.inr (undefined_promotesTo (array a))
  | array a, array b, array c, ha, hb =>
    promotesTo_or_of_common (a := a) (b := b) (c := c) ha hb

/-- The least of the types to which both promote. -/
structure IsSupremum (a b c : SqlType) : Prop where
  left : a.promotesTo c = true
  right : b.promotesTo c = true
  least : ∀ d, a.promotesTo d = true → b.promotesTo d = true → c.promotesTo d = true

/-- **Of two types below a common one, one is their supremum.** -/
theorem exists_isSupremum {a b c : SqlType} (ha : a.promotesTo c = true)
    (hb : b.promotesTo c = true) : ∃ d, (d = a ∨ d = b) ∧ IsSupremum a b d := by
  rcases promotesTo_or_of_common ha hb with hab | hba
  · exact ⟨b, .inr rfl, hab, promotesTo_self b, fun _ _ hbd => hbd⟩
  · exact ⟨a, .inl rfl, promotesTo_self a, hba, fun _ had _ => had⟩

/-- **Promotion goes upwards in the rank**, except from arrays to arrays, which share one rank. -/
theorem outranks_of_promotesTo {a b : SqlType} (h : a.promotesTo b = true) (hne : a ≠ b)
    (hscalar : a.element? = none ∨ b.element? = none) : b.outranks a = true := by
  cases a with
  | scalar s =>
    cases b with
    | scalar t =>
      have hst : s ≠ t := fun heq => hne (congrArg scalar heq)
      have hlt : s.rank < t.rank := by
        rcases Scalar.promotesTo_iff.1 h with heq | rfl | ⟨hlt, -⟩
        · exact absurd heq hst
        · -- the rank of `undefined` is the lowest
          exact Nat.pos_of_ne_zero fun hzero => hst (Scalar.rank_injective hzero.symm)
        · exact hlt
      exact decide_eq_true hlt
    | array t =>
      obtain rfl : s = .undefined := by simpa [promotesTo] using h
      rfl
  | array s =>
    cases b with
    | scalar t => simp [promotesTo] at h
    | array t => simp [element?] at hscalar

/-- **Promotion is a partial order in which types with a common upper bound are comparable.** The
type `undefined` is below all others. If two types promote to a common one, then one of the two
promotes to the other and is the least of the types to which both promote. A promotion to another
type goes to one of higher rank, unless both are arrays. -/
theorem isPartialOrder_promotesTo :
    IsPartialOrder SqlType (fun a b => a.promotesTo b = true) ∧
      (∀ a : SqlType, undefined.promotesTo a = true) ∧
      (∀ a b c : SqlType, a.promotesTo c = true → b.promotesTo c = true →
        (a.promotesTo b = true ∨ b.promotesTo a = true) ∧
          ∃ d, (d = a ∨ d = b) ∧ IsSupremum a b d) ∧
      ∀ a b : SqlType, a.promotesTo b = true → a ≠ b → (a.element? = none ∨ b.element? = none) →
        b.outranks a = true := by
  refine ⟨?_, undefined_promotesTo, fun a b c ha hb => ?_, fun a b => outranks_of_promotesTo⟩
  · exact
      { refl := promotesTo_self
        trans := fun _ _ _ => promotesTo_trans
        antisymm := fun _ _ => promotesTo_antisymm }
  · exact ⟨promotesTo_or_of_common ha hb, exists_isSupremum ha hb⟩

/-- Arrays of different depth below a common type, and a promotion out of the scalar types. -/
theorem isPartialOrder_promotesTo_arrays :
    let a : SqlType := array undefined
    let b : SqlType := array (array (scalar .date))
    let c : SqlType := array (array (scalar .timestamptz))
    (a.promotesTo c = true ∧ b.promotesTo c = true ∧
      (a.promotesTo b = true ∨ b.promotesTo a = true) ∧ ∃ d, (d = a ∨ d = b) ∧ IsSupremum a b d) ∧
    undefined.promotesTo c = true ∧ undefined ≠ c ∧ c.outranks undefined = true := by
  intro a b c
  obtain ⟨-, hbot, hcommon, hrank⟩ := isPartialOrder_promotesTo
  have ha : a.promotesTo c = true := by decide
  have hb : b.promotesTo c = true := by decide
  have hne : undefined ≠ c := by decide
  exact ⟨⟨ha, hb, hcommon a b c ha hb⟩, hbot c, hne, hrank undefined c (hbot c) hne (.inl rfl)⟩

theorem eq_undefined_of_castsTo : ∀ {a : SqlType}, a.castsTo undefined = true → a = undefined
  | scalar _, h => congrArg scalar (Scalar.eq_undefined_of_castsTo h)
  | array _, h => by simp [castsTo] at h

theorem castsTo_trans_of_common : ∀ {a b c s : SqlType}, a.promotesTo s = true →
    b.promotesTo s = true → c.promotesTo s = true → a.castsTo b = true → b.castsTo c = true →
    a.castsTo c = true
  | scalar _, scalar _, scalar _, scalar _, ha, _, hc, hab, hbc =>
    Scalar.castsTo_trans_of_common ha hc hab hbc
  | scalar a, _, c, array _, ha, _, _, _, _ => by
    simp only [promotesTo, decide_eq_true_eq] at ha
    subst ha
    exact castsTo_of_promotesTo (undefined_promotesTo c)
  | array a, scalar b, _, array _, _, hb, _, hab, _ => by
    simp only [promotesTo, decide_eq_true_eq] at hb
    subst hb
    exact absurd (eq_undefined_of_castsTo hab) (by simp)
  | array a, array b, scalar c, array _, _, _, hc, _, hbc => by
    simp only [promotesTo, decide_eq_true_eq] at hc
    subst hc
    exact absurd (eq_undefined_of_castsTo hbc) (by simp)
  | array a, array b, array c, array s, ha, hb, hc, hab, hbc =>
    castsTo_trans_of_common (a := a) (b := b) (c := c) (s := s) ha hb hc hab hbc

/-! ### Coercion below a common type -/

@[simp] theorem coercesTo_array (m : Coercion) (a b : SqlType) :
    (array a).coercesTo m (array b) = a.coercesTo m b := by
  cases m <;> simp [coercesTo, promotesTo, castsTo]

theorem coercesTo_of_promotesTo {m : Coercion} (hm : m.converts = true) {a b : SqlType}
    (h : a.promotesTo b = true) : a.coercesTo m b = true := by
  cases m with
  | exact => cases hm
  | promotion => exact h
  | cast => exact castsTo_of_promotesTo h

theorem coercesTo_trans_of_common {m : Coercion} {a b c s : SqlType} (ha : a.promotesTo s = true)
    (hb : b.promotesTo s = true) (hc : c.promotesTo s = true) (hab : a.coercesTo m b = true)
    (hbc : b.coercesTo m c = true) : a.coercesTo m c = true := by
  cases m with
  | exact =>
    simp only [coercesTo, decide_eq_true_eq] at hab hbc ⊢
    rw [hab, hbc]
  | promotion => exact promotesTo_trans hab hbc
  | cast => exact castsTo_trans_of_common ha hb hc hab hbc

end SqlType

namespace Coercion

/-- The type of the place is one of the two, and both types are accepted there. -/
theorem join_eq_some {m : Coercion} {a b c : SqlType} (h : m.join a b = some c) :
    (c = a ∨ c = b) ∧ a.coercesTo m c = true ∧ b.coercesTo m c = true := by
  have ha := SqlType.coercesTo_self m a
  have hb := SqlType.coercesTo_self m b
  unfold join at h
  split_ifs at h with heq hup hba hab
  · obtain rfl := Option.some.inj h
    exact ⟨Or.inl rfl, ha, heq ▸ ha⟩
  · obtain rfl := Option.some.inj h
    exact ⟨Or.inr rfl, (Bool.and_eq_true_iff.1 hup).1, hb⟩
  · obtain rfl := Option.some.inj h
    exact ⟨Or.inl rfl, ha, hba⟩
  · obtain rfl := Option.some.inj h
    exact ⟨Or.inr rfl, hab, hb⟩

theorem exists_join {m : Coercion} {a b : SqlType}
    (h : a.coercesTo m b = true ∨ b.coercesTo m a = true) : ∃ c, m.join a b = some c := by
  unfold join
  split_ifs with heq hup hba hab
  · exact ⟨a, rfl⟩
  · exact ⟨b, rfl⟩
  · exact ⟨a, rfl⟩
  · exact ⟨b, rfl⟩
  · exact absurd h (by simp [hba, hab])

/-- **Two types below a common one can share a place.** -/
theorem join_of_common {m : Coercion} (hm : m.converts = true) {a b s : SqlType}
    (ha : a.promotesTo s = true) (hb : b.promotesTo s = true) :
    ∃ c, m.join a b = some c ∧ c.promotesTo s = true ∧ a.coercesTo m c = true ∧
      b.coercesTo m c = true := by
  have hab : a.coercesTo m b = true ∨ b.coercesTo m a = true :=
    (SqlType.promotesTo_or_of_common ha hb).imp (SqlType.coercesTo_of_promotesTo hm)
      (SqlType.coercesTo_of_promotesTo hm)
  obtain ⟨c, hc⟩ := exists_join hab
  obtain ⟨hor, hac, hbc⟩ := join_eq_some hc
  refine ⟨c, hc, ?_, hac, hbc⟩
  rcases hor with rfl | rfl
  · exact ha
  · exact hb

end Coercion

end Overloading
