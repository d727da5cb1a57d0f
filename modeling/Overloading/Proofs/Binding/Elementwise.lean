import Overloading.Catalog
import Overloading.Proofs.Binding.Soundness

/-! # One place for arrays and for their elements

A signature `g(E...):E` gives all arguments of a call one place (`Signature.Homogeneous`). The place
takes the type of the first argument and is joined with the others one after the other
(`Coercion.joinAll`), and the call is bound if what is left in the end accepts all of them
(`Signature.Homogeneous.bindsAt_cons_iff`).

Arrays coerce with their elements, but they all have one rank. So the place of two arrays is the
array of the place of their elements (`Coercion.join_array`) unless the rank alone decides between
the elements: each of them coerces to the other, and the place moves only because the second one is
of higher rank (`Coercion.Swings`). That takes casts, for promotion is antisymmetric
(`Coercion.eq_cast_of_swings`). -/

namespace Overloading

namespace Coercion

variable {m : Coercion} {a b t u : SqlType} {ts : List SqlType}

/-- Each type is accepted in the place of the other, so that the rank of `met` alone moves a place
that holds `held`. -/
def Swings (m : Coercion) (held met : SqlType) : Prop :=
  held.coercesTo m met = true ∧ met.coercesTo m held = true ∧ met.outranks held = true

instance : Decidable (m.Swings a b) := inferInstanceAs (Decidable (_ ∧ _ ∧ _))

theorem Swings.ne (h : m.Swings a b) : a ≠ b := by
  rintro rfl
  have hrank := h.2.2
  simp [SqlType.outranks] at hrank

/-- **Only casts go both ways.** -/
theorem eq_cast_of_swings (h : m.Swings a b) : m = .cast := by
  have hne : a ≠ b := h.ne
  obtain ⟨hab, hba, -⟩ := h
  cases m with
  | exact =>
    simp only [SqlType.coercesTo, decide_eq_true_eq] at hab
    exact absurd hab hne
  | promotion => exact absurd (SqlType.promotesTo_antisymm hab hba) hne
  | cast => rfl

theorem join_of_swings (h : m.Swings a b) : m.join a b = some b := by
  unfold join
  rw [if_neg h.ne, if_pos]
  rw [h.1, h.2.2]
  rfl

/-- No array outranks another one, so a place that holds an array stays where it can. -/
theorem join_array_array (m : Coercion) (a b : SqlType) :
    m.join (.array a) (.array b) =
      if b.coercesTo m a then some (.array a) else if a.coercesTo m b then some (.array b)
      else none := by
  have hrank : (SqlType.array b).outranks (.array a) = false := by
    simp [SqlType.outranks, SqlType.rank]
  unfold join
  rw [SqlType.coercesTo_array, SqlType.coercesTo_array, hrank, Bool.and_false]
  by_cases heq : a = b
  · subst heq
    simp
  · simp [heq]

theorem join_of_not_swings (h : ¬ m.Swings a b) :
    m.join a b =
      if b.coercesTo m a then some a else if a.coercesTo m b then some b else none := by
  unfold join
  by_cases heq : a = b
  · subst heq
    simp
  · rw [if_neg heq]
    by_cases hba : b.coercesTo m a = true
    · have hup : ¬ (a.coercesTo m b && b.outranks a) = true := by
        intro hup
        rw [Bool.and_eq_true] at hup
        exact h ⟨hup.1, hba, hup.2⟩
      rw [if_neg hup]
    · by_cases hab : a.coercesTo m b = true <;> simp [hba, hab]

/-- **The place of two arrays is the array of the place of their elements,** unless the rank alone
decides between these. -/
theorem join_array (h : ¬ m.Swings a b) :
    m.join (.array a) (.array b) = (m.join a b).map .array := by
  rw [join_array_array, join_of_not_swings h]
  split_ifs <;> rfl

/-- The type of a place that holds one type and meets others, one after the other. -/
def joinAll (m : Coercion) (held : SqlType) (met : List SqlType) : Option SqlType :=
  met.foldlM m.join held

theorem joinAll_cons (m : Coercion) (t u : SqlType) (us : List SqlType) :
    m.joinAll t (u :: us) = (m.join t u).bind fun w => m.joinAll w us :=
  List.foldlM_cons

theorem joinAll_map_array (h : (t :: ts).Pairwise fun a b => ¬ m.Swings a b) :
    m.joinAll (.array t) (ts.map .array) = (m.joinAll t ts).map .array := by
  induction ts generalizing t with
  | nil => rfl
  | cons u us ih =>
    have hpair := List.pairwise_cons.1 h
    rw [List.map_cons, joinAll_cons, joinAll_cons, join_array (hpair.1 u List.mem_cons_self)]
    cases hw : m.join t u with
    | none => rfl
    | some w =>
      -- the place never holds anything but one of the types that it has met
      have hwus : (w :: us).Pairwise fun a b => ¬ m.Swings a b := by
        rcases (join_eq_some hw).1 with rfl | rfl
        · exact h.sublist ((List.sublist_cons_self u us).cons_cons w)
        · exact hpair.2
      exact ih hwus

end Coercion

namespace BindingRules

variable {r : BindingRules} {m : Coercion} {v : String}

theorem get?_unifyAll_var (hadm : ∀ t, r.admits v t = true) {ts : List SqlType} {a : Assignment}
    {held : SqlType} (ha : a.get? v = some held) :
    ((r.unifyAll m (ts.map fun t => (.var v, t)) a).bind fun b => b.get? v) =
      m.joinAll held ts := by
  induction ts generalizing a held with
  | nil => exact ha
  | cons t ts ih =>
    have hstep : r.unify m (.var v) t a = (m.join held t).map (a.set v) := by
      simp only [unify, meet, hadm t, ha, if_true]
    rw [Coercion.joinAll_cons, List.map_cons, unifyAll, List.foldlM_cons, hstep]
    cases m.join held t with
    | none => rfl
    | some w => exact ih (Assignment.get?_set_self a v w)

/-- A variable that meets types one after the other holds what they are joined to. -/
theorem exists_unifyAll_var_iff (hadm : ∀ t, r.admits v t = true) {t u : SqlType}
    {ts : List SqlType} :
    (∃ a, r.unifyAll m ((t :: ts).map fun t => (.var v, t)) ∅ = some a ∧ a.get? v = some u) ↔
      m.joinAll t ts = some u := by
  have hfirst : r.unify m (.var v) t ∅ = some ((∅ : Assignment).set v t) := by
    simp only [unify, meet, hadm t, Assignment.get?_empty, if_true]
  rw [← get?_unifyAll_var (r := r) (m := m) hadm (Assignment.get?_set_self ∅ v t),
    Option.bind_eq_some_iff, List.map_cons, unifyAll, List.foldlM_cons, hfirst]
  rfl

end BindingRules

namespace Signature

/-- The signature is `g(E...):E`, and its variable may stand for every type. -/
structure Homogeneous (s : Signature) (v : String) : Prop where
  args_eq : s.args = [.var v]
  variadic_eq : s.variadic = true
  ret_eq : s.ret = .var v
  admits : ∀ t, s.rules.admits v t = true

/-- Arguments of these types bind the signature with `u` for the variable, for each of the arguments
and for the result. -/
def BindsAt (s : Signature) (m : Coercion) (v : String) (ts : List SqlType) (u : SqlType) : Prop :=
  ∃ a, s.solve? m (ts.map SqlType.toTerm) = some a ∧ a.get? v = some u ∧
    s.bind? m (ts.map SqlType.toTerm) = some (.ofTypes s (ts.map fun _ => u) u)

namespace Homogeneous

variable {s : Signature} {m : Coercion} {v : String}

theorem formals?_eq (hs : s.Homogeneous v) (n : Nat) :
    s.formals? n = some (List.replicate n (.var v)) := by
  simp [formals?, tail?, hs.args_eq, hs.variadic_eq]

/-- **The place takes what the types are joined to, if that accepts all of them.** -/
theorem exists_solve?_iff (hs : s.Homogeneous v) {t u : SqlType} {ts : List SqlType} :
    (∃ a, s.solve? m ((t :: ts).map SqlType.toTerm) = some a ∧ a.get? v = some u) ↔
      m.joinAll t ts = some u ∧ ∀ w ∈ t :: ts, w.coercesTo m u = true := by
  have hzip : (List.replicate (t :: ts).length (TypeTerm.var v)).zip (t :: ts) =
      (t :: ts).map fun t => (.var v, t) := by
    rw [List.map_prod_right_eq_zip, List.map_const']
  have hfit : ∀ a : Assignment, a.get? v = some u →
      ((∀ p ∈ (t :: ts).map fun t => (TypeTerm.var v, t), p.2.fits m (a.apply p.1) = true) ↔
        ∀ w ∈ t :: ts, w.coercesTo m u = true) := by
    intro a ha
    simp only [List.forall_mem_map, Assignment.apply_var, ha, SqlType.fits, Option.map_some,
      Option.getD_some, TypeTerm.denote_toTerm]
  simp only [solve?_eq_some_iff_of_types (TypeTerm.types?_map_toTerm (t :: ts)), List.length_map,
    hs.formals?_eq, Option.some.injEq, exists_eq_left', hzip, BindingRules.solve?_eq_some_iff]
  rw [← BindingRules.exists_unifyAll_var_iff (r := s.rules) hs.admits]
  constructor
  · rintro ⟨a, ⟨ha, hall⟩, hget⟩
    exact ⟨⟨a, ha, hget⟩, (hfit a hget).1 hall⟩
  · rintro ⟨⟨a, ha, hget⟩, hall⟩
    exact ⟨a, ⟨ha, (hfit a hget).2 hall⟩, hget⟩

theorem bind?_eq (hs : s.Homogeneous v) {ts : List SqlType} {a : Assignment} {u : SqlType}
    (ha : s.solve? m (ts.map SqlType.toTerm) = some a) (hget : a.get? v = some u) :
    s.bind? m (ts.map SqlType.toTerm) = some (.ofTypes s (ts.map fun _ => u) u) := by
  have happly : a.apply (.var v) = u.toTerm := by rw [Assignment.apply_var, hget]; rfl
  have hret : a.apply s.ret = u.toTerm := by rw [hs.ret_eq, happly]
  refine bind?_eq_some_iff.2 ⟨_, a, hs.formals?_eq _, ha, by rw [hret, u.isOpen_toTerm], ?_⟩
  rw [hret, BoundSignature.ofTypes, List.map_replicate, happly, List.length_map, List.map_map,
    ← List.map_const']
  rfl

theorem bindsAt_cons_iff (hs : s.Homogeneous v) {t u : SqlType} {ts : List SqlType} :
    s.BindsAt m v (t :: ts) u ↔
      m.joinAll t ts = some u ∧ ∀ w ∈ t :: ts, w.coercesTo m u = true := by
  rw [← hs.exists_solve?_iff]
  refine exists_congr fun a => and_congr_right fun ha => ?_
  exact ⟨And.left, fun hget => ⟨hget, hs.bind?_eq ha hget⟩⟩

/-- **Arrays bind like their elements** as long as the rank alone decides nothing. -/
theorem bindsAt_map_array_iff_of_pairwise (hs : s.Homogeneous v) {ts : List SqlType} (hne : ts ≠ [])
    (hts : ts.Pairwise fun a b => ¬ m.Swings a b) (u : SqlType) :
    s.BindsAt m v ts u ↔ s.BindsAt m v (ts.map .array) (.array u) := by
  obtain ⟨t, ts, rfl⟩ := List.exists_cons_of_ne_nil hne
  rw [List.map_cons, hs.bindsAt_cons_iff, hs.bindsAt_cons_iff, Coercion.joinAll_map_array hts,
    ← List.map_cons, List.forall_mem_map]
  simp only [SqlType.coercesTo_array, Option.map_eq_some_iff, SqlType.array.injEq, exists_eq_right]

/-- Two elements with a rank that decides alone take the place of the second one, and their arrays
that of the first. -/
theorem bindsAt_pair_of_swings (hs : s.Homogeneous v) {a b : SqlType} (h : m.Swings a b) :
    s.BindsAt m v [a, b] b ∧ s.BindsAt m v [.array a, .array b] (.array a) ∧
      ¬ s.BindsAt m v [.array a, .array b] (.array b) := by
  have harray : m.joinAll (.array a) [.array b] = some (.array a) := by
    rw [Coercion.joinAll_cons, Coercion.join_array_array, if_pos h.2.1]
    rfl
  refine ⟨hs.bindsAt_cons_iff.2 ⟨?_, ?_⟩, hs.bindsAt_cons_iff.2 ⟨harray, ?_⟩, fun hb => ?_⟩
  · rw [Coercion.joinAll_cons, Coercion.join_of_swings h]
    rfl
  · simpa using h.1
  · simpa using h.2.1
  · have hba := (hs.bindsAt_cons_iff.1 hb).1
    rw [harray, Option.some.injEq, SqlType.array.injEq] at hba
    exact h.ne hba

end Homogeneous

/-- **When arrays bind like their elements.** They do, however many there are, if no later element is
of higher rank than an earlier one while each of the two casts to the other. Without casts there are
no such elements. For two elements the condition is necessary too; among three or more there may be
such elements that make no difference. -/
theorem bindsAt_map_array_iff {s : Signature} {v : String} (hs : s.Homogeneous v) (m : Coercion) :
    (∀ ts : List SqlType, ts ≠ [] → ts.Pairwise (fun a b => ¬ m.Swings a b) →
      ∀ u, s.BindsAt m v ts u ↔ s.BindsAt m v (ts.map .array) (.array u)) ∧
    (m ≠ .cast → ∀ a b, ¬ m.Swings a b) ∧
    ∀ a b, (∀ u, s.BindsAt m v [a, b] u ↔ s.BindsAt m v [.array a, .array b] (.array u)) ↔
      ¬ m.Swings a b := by
  have hlift : ∀ ts : List SqlType, ts ≠ [] → ts.Pairwise (fun a b => ¬ m.Swings a b) →
      ∀ u, s.BindsAt m v ts u ↔ s.BindsAt m v (ts.map .array) (.array u) := fun ts hne hts u =>
    hs.bindsAt_map_array_iff_of_pairwise hne hts u
  refine ⟨hlift, fun hm a b h => hm (Coercion.eq_cast_of_swings h), fun a b => ?_⟩
  constructor
  · intro hiff h
    obtain ⟨hb, -, hnot⟩ := hs.bindsAt_pair_of_swings h
    exact hnot ((hiff b).1 hb)
  · intro h
    have hpair : [a, b].Pairwise fun a b => ¬ m.Swings a b := by simpa using h
    exact hlift [a, b] (by simp) hpair

/-- The signature `coalesce(E...):E` of the catalog. -/
def coalesce : Signature :=
  Catalog.function .scalar "coalesce" [.arguments [.var "E"], .variadic, .returns (.var "E")]

theorem coalesce_homogeneous : coalesce.Homogeneous "E" :=
  ⟨rfl, rfl, rfl, fun _ => rfl⟩

/-- Numbers and texts that come after a number of higher rank cast to it, and so do their arrays. -/
theorem bindsAt_map_array_iff_coalesce :
    [SqlType.scalar .double, .scalar .integer, .scalar .text].Pairwise
        (fun a b => ¬ Coercion.cast.Swings a b) ∧
      coalesce.BindsAt .cast "E" [.scalar .double, .scalar .integer, .scalar .text]
        (.scalar .double) ∧
      coalesce.BindsAt .cast "E"
        [.array (.scalar .double), .array (.scalar .integer), .array (.scalar .text)]
        (.array (.scalar .double)) := by
  have hpair : [SqlType.scalar .double, .scalar .integer, .scalar .text].Pairwise
      (fun a b => ¬ Coercion.cast.Swings a b) := by
    decide
  have hb : coalesce.BindsAt .cast "E" [.scalar .double, .scalar .integer, .scalar .text]
      (.scalar .double) :=
    coalesce_homogeneous.bindsAt_cons_iff.2 (by decide)
  exact ⟨hpair, hb,
    ((bindsAt_map_array_iff coalesce_homogeneous .cast).1 _ (by simp) hpair _).1 hb⟩

/-- The last of these outranks the one before it and each casts to the other, but they do not meet:
the place holds the type of the first. -/
example : ¬ [SqlType.scalar .double, .scalar .integer, .scalar .double].Pairwise
      (fun a b => ¬ Coercion.cast.Swings a b) ∧
    coalesce.BindsAt .cast "E" [.scalar .double, .scalar .integer, .scalar .double]
      (.scalar .double) ∧
    coalesce.BindsAt .cast "E"
      [.array (.scalar .double), .array (.scalar .integer), .array (.scalar .double)]
      (.array (.scalar .double)) :=
  ⟨by decide, coalesce_homogeneous.bindsAt_cons_iff.2 (by decide),
    coalesce_homogeneous.bindsAt_cons_iff.2 (by decide)⟩

/-- **Casts do not treat arrays like their elements.** An `integer` and a `double precision` take
the place of the second, and their arrays that of the first. -/
theorem not_forall_bindsAt_map_array :
    ¬ ∀ (s : Signature) (v : String), s.Homogeneous v →
      ∀ (m : Coercion) (ts : List SqlType) (u : SqlType), ts ≠ [] →
        (s.BindsAt m v ts u ↔ s.BindsAt m v (ts.map .array) (.array u)) := by
  intro h
  have hswings : Coercion.cast.Swings (.scalar .integer) (.scalar .double) := by decide
  obtain ⟨hb, -, hnot⟩ := coalesce_homogeneous.bindsAt_pair_of_swings hswings
  exact hnot ((h coalesce "E" coalesce_homogeneous .cast _ _ (by simp)).1 hb)

end Signature

end Overloading
