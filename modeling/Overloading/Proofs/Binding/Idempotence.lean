import Overloading.Proofs.Binding.Least
import Overloading.Resolution.Specificity

/-! # Binding a signature to what it is bound to

A binding is a fixed point. If an assignment turns every term into the type that the term meets,
unification meets these types one by one without converting any of them and never leaves the
assignment (`BindingRules.exists_unifyAll_exact`), so it finds the same types for the variables
(`BindingRules.exists_solve?_exact`). The arguments of a bound signature are such types whatever
coercion they come from: a blank that was filled and a place that was widened or narrowed have been
decided by then. So they bind to the same signature again (`Signature.bind?_exact_args`). -/

namespace Overloading

/-- Within another assignment, a variable that has a type has the type that it has there. -/
theorem Assignment.CoercesTo.get?_eq_of_exact {a c : Assignment} (h : a.CoercesTo .exact c)
    {v : String} (hv : (a.get? v).isSome = true) : a.get? v = c.get? v := by
  obtain ⟨t, ht⟩ := Option.isSome_iff_exists.1 hv
  obtain ⟨u, hu, htu⟩ := h v t ht
  have heq : t = u := by simpa [SqlType.coercesTo] using htu
  rw [ht, hu, heq]

namespace BindingRules

variable {r : BindingRules} {c : Assignment}

/-- A term meets the type that it becomes under `c` in a step that stays within `c`. -/
theorem exists_unifies_exact {f : TypeTerm} {d : SqlType} {a : Assignment}
    (hadm : ∀ v ∈ f.vars, ∃ u, c.get? v = some u ∧ r.admits v u = true)
    (hd : c.apply f = d.toTerm) (ha : a.CoercesTo .exact c) :
    ∃ b, r.Unifies .exact f d a b ∧ b.CoercesTo .exact c := by
  induction f generalizing d with
  | var v =>
    obtain ⟨u, hu, hadmu⟩ := hadm v (by simp)
    rw [Assignment.apply_var, hu] at hd
    obtain rfl : u = d := SqlType.toTerm_injective hd
    have hset : (a.set v u).CoercesTo .exact c := ha.set_left hu (SqlType.coercesTo_self .exact u)
    cases hget : a.get? v with
    | none => exact ⟨a.set v u, .take hadmu hget, hset⟩
    | some held =>
      have hheld : held = u := by
        have hsome : (a.get? v).isSome = true := by rw [hget]; rfl
        have heq := ha.get?_eq_of_exact hsome
        rwa [hget, hu, Option.some.injEq] at heq
      have hjoin : Coercion.exact.join held u = some u := by
        rw [hheld]
        exact if_pos rfl
      exact ⟨a.set v u, .join hadmu hget hjoin, hset⟩
  | app n ps ih =>
    cases ho : (TypeTerm.app n ps).isOpen with
    | false =>
      rw [Assignment.apply_of_isOpen_eq_false ho] at hd
      have hfit : d.fits .exact (.app n ps) = true :=
        SqlType.fits_iff.2 ⟨d, hd, SqlType.coercesTo_self .exact d⟩
      exact ⟨a, .closed ho hfit, ha⟩
    | true =>
      -- an open term never becomes `undefined`, so the rule for blanks has no part in this
      obtain ⟨p, e, rfl, rfl, rfl, hp, hpe⟩ := Assignment.apply_app_eq_toTerm ho hd
      obtain ⟨b, hb, hbc⟩ := ih p (by simp) (fun v hv => hadm v (by simpa using hv)) hpe
      exact ⟨b, .element hp hb, hbc⟩

/-- **A run over the types that the terms become.** -/
theorem exists_unifyAll_exact {ps : List (TypeTerm × SqlType)} {a : Assignment}
    (hadm : ∀ p ∈ ps, ∀ v ∈ p.1.vars, ∃ u, c.get? v = some u ∧ r.admits v u = true)
    (hps : ∀ p ∈ ps, c.apply p.1 = p.2.toTerm) (ha : a.CoercesTo .exact c) :
    ∃ b, r.unifyAll .exact ps a = some b ∧ b.CoercesTo .exact c := by
  induction ps generalizing a with
  | nil => exact ⟨a, rfl, ha⟩
  | cons p ps ih =>
    rw [List.forall_mem_cons] at hadm hps
    obtain ⟨b, hb, hbc⟩ := exists_unifies_exact hadm.1 hps.1 ha
    obtain ⟨d, hd, hdc⟩ := ih hadm.2 hps.2 hbc
    exact ⟨d, unifyAll_cons_eq_some_iff.2 ⟨b, hb, hd⟩, hdc⟩

/-- Where the terms become the types that they meet, no other types are found. -/
theorem exists_solve?_exact {ps : List (TypeTerm × SqlType)}
    (hadm : ∀ p ∈ ps, ∀ v ∈ p.1.vars, ∃ u, c.get? v = some u ∧ r.admits v u = true)
    (hps : ∀ p ∈ ps, c.apply p.1 = p.2.toTerm) :
    ∃ a, r.solve? .exact ps = some a ∧ a.CoercesTo .exact c := by
  obtain ⟨a, ha, hac⟩ := exists_unifyAll_exact hadm hps (Assignment.empty_coercesTo .exact c)
  refine ⟨a, solve?_eq_some_iff.2 ⟨ha, fun p hp => ?_⟩, hac⟩
  have heq : a.apply p.1 = c.apply p.1 := by
    refine Assignment.apply_congr fun v hv => hac.get?_eq_of_exact ?_
    exact (isSome_get?_of_unifyAll ha v).2 (Or.inr ⟨p, hp, hv⟩)
  rw [heq, hps p hp]
  exact SqlType.fits_iff.2 ⟨p.2, rfl, SqlType.coercesTo_self .exact p.2⟩

end BindingRules

namespace Signature

variable {s : Signature} {m : Coercion} {actual : List TypeTerm} {b : BoundSignature}

theorem apply_of_mem_zip {c : Assignment} : ∀ {fs : List TypeTerm} {ds : List SqlType},
    fs.map c.apply = ds.map SqlType.toTerm → ∀ p ∈ fs.zip ds, c.apply p.1 = p.2.toTerm
  | [], _, _, p, hp => by simp at hp
  | _ :: _, [], h, _, _ => by simp at h
  | f :: fs, d :: ds, h, p, hp => by
    rw [List.map_cons, List.map_cons, List.cons.injEq] at h
    rcases List.mem_cons.1 hp with rfl | hp
    · exact h.1
    · exact apply_of_mem_zip h.2 p hp

/-- Where an assignment that keeps to the rules turns the terms into the types of a call, the
signature is bound to these types, and the result is what the assignment makes of it. -/
theorem bind?_exact_of_apply {c : Assignment} {fs : List TypeTerm} {ds : List SqlType}
    (hfs : s.formals? ds.length = some fs) (hargs : fs.map c.apply = ds.map SqlType.toTerm)
    (hadm : ∀ f ∈ fs, ∀ v ∈ f.vars, ∃ u, c.get? v = some u ∧ s.rules.admits v u = true)
    (hret : ∀ v ∈ s.ret.vars, ∃ f ∈ fs, v ∈ f.vars) :
    s.bind? .exact (ds.map SqlType.toTerm) =
      some ⟨s.name, s.kind, ds.map SqlType.toTerm, c.apply s.ret⟩ := by
  obtain ⟨a, ha, hac⟩ := BindingRules.exists_solve?_exact
    (fun p hp => hadm p.1 (List.of_mem_zip hp).1) (apply_of_mem_zip hargs)
  have hfs' : s.formals? (ds.map SqlType.toTerm).length = some fs := by rwa [List.length_map]
  have ha' : s.solve? .exact (ds.map SqlType.toTerm) = some a :=
    solve?_eq_some_iff.2 ⟨fs, ds, hfs', TypeTerm.types?_map_toTerm ds, ha⟩
  -- the run gives types to the variables of the terms, and these are the types of the assignment
  have hsome : ∀ f ∈ fs, ∀ v ∈ f.vars, (a.get? v).isSome = true := fun f hf v hv =>
    (isSome_get?_of_solve? hfs' ha' v).2 ⟨f, hf, hv⟩
  have happly : fs.map a.apply = fs.map c.apply := List.map_congr_left fun f hf =>
    Assignment.apply_congr fun v hv => hac.get?_eq_of_exact (hsome f hf v hv)
  have hsome' : ∀ v ∈ s.ret.vars, (a.get? v).isSome = true := fun v hv => by
    obtain ⟨f, hf, hvf⟩ := hret v hv
    exact hsome f hf v hvf
  have hresult : a.apply s.ret = c.apply s.ret :=
    Assignment.apply_congr fun v hv => hac.get?_eq_of_exact (hsome' v hv)
  refine bind?_eq_some_iff.2
    ⟨fs, a, hfs', ha', Assignment.isOpen_apply_eq_false_iff.2 hsome', ?_⟩
  rw [happly, hargs, hresult]

/-- Without conversions the arguments of a bound signature bind to the same again. -/
theorem bind?_exact_args (h : s.bind? m actual = some b) : s.bind? .exact b.args = some b := by
  obtain ⟨ds, hargs, hlen⟩ := exists_types_of_bind? h
  obtain ⟨fs, c, hfs, hc, hret, rfl⟩ := bind?_eq_some_iff.1 h
  obtain ⟨_, _, _, _, hsolve⟩ := solve?_eq_some_iff.1 hc
  change fs.map c.apply = ds.map SqlType.toTerm at hargs
  have hdom := isSome_get?_of_solve? hfs hc
  have hadm : ∀ f ∈ fs, ∀ v ∈ f.vars, ∃ u, c.get? v = some u ∧ s.rules.admits v u = true := by
    intro f hf v hv
    obtain ⟨u, hu⟩ := Option.isSome_iff_exists.1 ((hdom v).2 ⟨f, hf, hv⟩)
    exact ⟨u, hu, BindingRules.admitted_of_solve? hsolve v u hu⟩
  have hresult : ∀ v ∈ s.ret.vars, ∃ f ∈ fs, v ∈ f.vars := fun v hv =>
    (hdom v).1 (Assignment.isOpen_apply_eq_false_iff.1 hret v hv)
  have hbind := bind?_exact_of_apply (by rw [hlen, hfs]) hargs hadm hresult
  rwa [← hargs] at hbind

/-- **Binding is idempotent, whatever the two coercions.** What a signature was bound to binds to
the same signature again, so an overload at a call is as narrow as itself. -/
theorem bind?_args (h : s.bind? m actual = some b) (m' : Coercion) :
    s.bind? m' b.args = some b ∧
      ∀ i : Instantiation, i.declared = s → i.bound = b → i.narrower i = true := by
  have hself : ∀ m', s.bind? m' b.args = some b := bind?_of_exact (bind?_exact_args h)
  refine ⟨hself m', fun i hi hb => ?_⟩
  obtain ⟨-, a, -, ha, -⟩ := bind?_eq_some_iff.1 (hself .promotion)
  unfold Instantiation.narrower
  rw [hi, hb, ha, Option.isSome_some, Bool.true_and]
  exact decide_eq_true (Nat.le_refl _)

/-- The array is a blank and the place moves from text to a number, yet what they end as is met
without any conversion. -/
theorem bind?_args_pick :
    (pick .any).bind? .cast ([.undefined, .scalar .text, .scalar .integer].map SqlType.toTerm) =
      some (.ofTypes (pick .any)
        [.array (.scalar .integer), .scalar .integer, .scalar .integer] (.scalar .integer)) ∧
    (pick .any).bind? .exact
        ([.array (.scalar .integer), .scalar .integer, .scalar .integer].map SqlType.toTerm) =
      some (.ofTypes (pick .any)
        [.array (.scalar .integer), .scalar .integer, .scalar .integer] (.scalar .integer)) := by
  have h : (pick .any).bind? .cast
        ([.undefined, .scalar .text, .scalar .integer].map SqlType.toTerm) =
      some (.ofTypes (pick .any)
        [.array (.scalar .integer), .scalar .integer, .scalar .integer] (.scalar .integer)) := by
    decide
  exact ⟨h, (bind?_args h .exact).1⟩

end Signature

end Overloading
