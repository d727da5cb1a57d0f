import Overloading.Proofs.Binding.Substitution

/-! # The rules of unification

`BindingRules.Unifies` lists the ways in which a term may meet a type; `unify` follows exactly these
rules (`unify_eq_some_iff`). What holds of every rule holds of a whole run over the arguments: the
variables that get a type are those of the terms (`isSome_get?_of_unifyAll`), every variable may
stand for the type that it gets (`admitted_of_unifyAll`), and a run without conversions is a run of
every other coercion (`unifyAll_of_exact`). -/

namespace Overloading

namespace BindingRules

/-- How a term may meet a type: a variable takes it or joins it with the type it has, a closed term
accepts it, `undefined` meets every open application, and an array passes on to its elements. -/
inductive Unifies (r : BindingRules) (m : Coercion) :
    TypeTerm → SqlType → Assignment → Assignment → Prop
  | take {v t a} : r.admits v t = true → a.get? v = none → Unifies r m (.var v) t a (a.set v t)
  | join {v t a held u} : r.admits v t = true → a.get? v = some held → m.join held t = some u →
      Unifies r m (.var v) t a (a.set v u)
  | closed {n ps t a} : (TypeTerm.app n ps).isOpen = false → t.fits m (.app n ps) = true →
      Unifies r m (.app n ps) t a a
  | blank {n ps a} : (TypeTerm.app n ps).isOpen = true → m.converts = true →
      Unifies r m (.app n ps) .undefined a (a.fill (TypeTerm.app n ps).vars)
  | element {p e a b} : p.isOpen = true → Unifies r m p e a b →
      Unifies r m (.app arrayName [p]) (.array e) a b

variable {r : BindingRules} {m : Coercion}

theorem unifies_var_iff {v : String} {t : SqlType} {a b : Assignment} :
    r.meet m v t a = some b ↔ r.Unifies m (.var v) t a b := by
  constructor
  · intro h
    unfold meet at h
    split at h
    · rename_i hadm
      split at h
      · rename_i hget
        cases h
        exact .take hadm hget
      · rename_i held hget
        obtain ⟨u, hu, rfl⟩ := Option.map_eq_some_iff.1 h
        exact .join hadm hget hu
    · cases h
  · intro h
    cases h with
    | take hadm hget => simp [meet, hadm, hget]
    | join hadm hget hu => simp [meet, hadm, hget, hu]

/-- **Unification follows the rules.** -/
theorem unify_eq_some_iff {f : TypeTerm} {t : SqlType} {a b : Assignment} :
    r.unify m f t a = some b ↔ r.Unifies m f t a b := by
  constructor
  · intro h
    induction f generalizing t with
    | var v => exact unifies_var_iff.1 (by rwa [unify] at h)
    | app n ps ih =>
      unfold unify at h
      split at h
      · rename_i ho
        split at h
        · rename_i s
          split at h
          · rename_i hs
            simp only [Bool.and_eq_true, decide_eq_true_eq] at hs
            obtain ⟨rfl, hm⟩ := hs
            cases h
            exact .blank ho hm
          · cases h
        · rename_i e
          split at h
          · rename_i p
            split at h
            · rename_i hn
              subst hn
              exact .element (by simpa using ho) (ih p (by simp) h)
            · cases h
          · cases h
      · rename_i ho
        split at h
        · rename_i hfit
          cases h
          exact .closed (Bool.not_eq_true _ ▸ ho) hfit
        · cases h
  · intro h
    induction h with
    | take hadm hget => exact unifies_var_iff.2 (.take hadm hget)
    | join hadm hget hu => exact unifies_var_iff.2 (.join hadm hget hu)
    | closed ho hfit =>
      unfold unify
      rw [if_neg (by simp [ho]), if_pos hfit]
    | blank ho hm =>
      unfold unify
      rw [if_pos ho]
      simp [hm]
    | element ho _ ih =>
      unfold unify
      rw [if_pos (by simpa using ho)]
      simpa using ih

theorem unifyAll_cons_eq_some_iff {f : TypeTerm} {t : SqlType} {ps : List (TypeTerm × SqlType)}
    {a c : Assignment} : r.unifyAll m ((f, t) :: ps) a = some c ↔
      ∃ b, r.Unifies m f t a b ∧ r.unifyAll m ps b = some c := by
  rw [unifyAll, List.foldlM_cons]
  refine Option.bind_eq_some_iff.trans (exists_congr fun b => ?_)
  rw [unify_eq_some_iff]
  rfl

/-! ### What the rules preserve -/

theorem admits_undefined (r : BindingRules) (v : String) : r.admits v .undefined = true := by
  unfold admits
  cases r.lookup v with
  | none => rfl
  | some x => cases hk : x.kind <;> simp [TypeVariable.admits, hk, SqlType.isUndefined]

/-- Every variable may stand for its type. -/
def Admitted (r : BindingRules) (a : Assignment) : Prop :=
  ∀ v t, a.get? v = some t → r.admits v t = true

theorem Admitted.set {a : Assignment} (ha : r.Admitted a) {v : String} {t : SqlType}
    (ht : r.admits v t = true) : r.Admitted (a.set v t) := by
  intro w u hu
  rw [Assignment.get?_set] at hu
  split_ifs at hu with hw
  · rwa [hw, ← Option.some.inj hu]
  · exact ha w u hu

theorem Admitted.fill {a : Assignment} (ha : r.Admitted a) (vs : List String) :
    r.Admitted (a.fill vs) := by
  intro v t ht
  rw [Assignment.get?_fill, Option.or_eq_some_iff] at ht
  rcases ht with ht | ⟨-, ht⟩
  · exact ha v t ht
  · split_ifs at ht
    rw [← Option.some.inj ht]
    exact r.admits_undefined v

theorem Unifies.admitted {f : TypeTerm} {t : SqlType} {a b : Assignment}
    (h : r.Unifies m f t a b) (ha : r.Admitted a) : r.Admitted b := by
  induction h with
  | take hadm _ => exact ha.set hadm
  | @join v t a held u hadm hget hu =>
    rcases (Coercion.join_eq_some hu).1 with rfl | rfl
    · exact ha.set (ha v _ hget)
    · exact ha.set hadm
  | closed _ _ => exact ha
  | blank _ _ => exact ha.fill _
  | element _ _ ih => exact ih ha

theorem Unifies.isSome_get? {f : TypeTerm} {t : SqlType} {a b : Assignment}
    (h : r.Unifies m f t a b) (v : String) :
    (b.get? v).isSome = true ↔ (a.get? v).isSome = true ∨ v ∈ f.vars := by
  induction h with
  | @take w t a _ _ | @join w t a _ _ _ _ _ =>
    rw [Assignment.get?_set, TypeTerm.vars_var, List.mem_singleton]
    by_cases h : v = w <;> simp [h]
  | closed ho _ => simp [TypeTerm.isOpen_eq_false_iff.1 ho]
  | @blank n ps a _ _ =>
    rw [Assignment.get?_fill, Option.isSome_or, Bool.or_eq_true]
    by_cases h : v ∈ (TypeTerm.app n ps).vars <;> simp only [h, if_true, if_false] <;> simp
  | element _ _ ih => rw [ih, TypeTerm.vars_app, List.flatMap_singleton]

/-- A term that meets a type without conversions meets it in the same way with conversions. -/
theorem Unifies.of_exact {f : TypeTerm} {t : SqlType} {a b : Assignment}
    (h : r.Unifies .exact f t a b) (m : Coercion) : r.Unifies m f t a b := by
  induction h with
  | take hadm hget => exact .take hadm hget
  | @join v t a held u hadm hget hu =>
    obtain ⟨-, hheld, ht⟩ := Coercion.join_eq_some hu
    simp only [SqlType.coercesTo, decide_eq_true_eq] at hheld ht
    subst hheld ht
    exact .join hadm hget (if_pos rfl)
  | closed ho hfit =>
    obtain ⟨d, hd, htd⟩ := SqlType.fits_iff.1 hfit
    exact .closed ho (SqlType.fits_iff.2 ⟨d, hd, SqlType.coercesTo_mono (Nat.zero_le _) htd⟩)
  | blank _ hm => cases hm
  | element ho _ ih => exact .element ho ih

/-! ### Runs over the arguments -/

variable {ps : List (TypeTerm × SqlType)} {a b : Assignment}

theorem admitted_of_unifyAll (h : r.unifyAll m ps a = some b) (ha : r.Admitted a) :
    r.Admitted b := by
  induction ps generalizing a with
  | nil =>
    cases h
    exact ha
  | cons p ps ih =>
    obtain ⟨c, hc, h⟩ := unifyAll_cons_eq_some_iff.1 h
    exact ih h (hc.admitted ha)

/-- **A run gives types to the variables of the terms and to no others.** -/
theorem isSome_get?_of_unifyAll (h : r.unifyAll m ps a = some b) (v : String) :
    (b.get? v).isSome = true ↔ (a.get? v).isSome = true ∨ ∃ p ∈ ps, v ∈ p.1.vars := by
  induction ps generalizing a with
  | nil =>
    cases h
    simp
  | cons p ps ih =>
    obtain ⟨c, hc, h⟩ := unifyAll_cons_eq_some_iff.1 h
    rw [ih h, hc.isSome_get?, List.exists_mem_cons_iff, or_assoc]

theorem unifyAll_of_exact (h : r.unifyAll .exact ps a = some b) (m : Coercion) :
    r.unifyAll m ps a = some b := by
  induction ps generalizing a with
  | nil => exact h
  | cons p ps ih =>
    obtain ⟨c, hc, h⟩ := unifyAll_cons_eq_some_iff.1 h
    exact unifyAll_cons_eq_some_iff.2 ⟨c, hc.of_exact m, ih h⟩

end BindingRules

end Overloading
