import Overloading.Proofs.Binding.Soundness

/-! # Least solutions

If some assignment solves the terms and types by promotions, then unification finds a solution below
it, for promotions and for casts alike (`BindingRules.exists_solve?_of_solves`): all types that a
variable meets promote to one type, so they can share a place, and the place never leaves the types
below it. For promotions the solution found is therefore the least one
(`BindingRules.solve?_promotion_le`), and the order of the arguments does not matter
(`BindingRules.solve?_promotion_perm`). For casts a solution is found whenever there is one for
promotions, although it may be another one (`Signature.exists_bind?_of_promotion`). -/

namespace Overloading

/-- What a variable may stand for is closed downwards. -/
theorem TypeVariable.admits_of_promotesTo {x : TypeVariable} {t u : SqlType}
    (h : t.promotesTo u = true) (hu : x.admits u = true) : x.admits t = true := by
  unfold TypeVariable.admits at hu ⊢
  cases hk : x.kind with
  | any => rfl
  | numeric =>
    rw [hk] at hu
    match t, u, h with
    | .array _, .array _, _ => cases hu
    | .scalar _, .array _, _ => cases hu
    | .scalar s, .scalar s', h =>
      rcases Scalar.promotesTo_iff.1 h with rfl | rfl | ⟨-, ⟨hs, -⟩ | ⟨-, hs'⟩⟩
      · exact hu
      · rfl
      · exact Bool.or_eq_true_iff.2 (Or.inl hs)
      · rcases Bool.or_eq_true_iff.1 hu with hn | hundef
        · rw [Scalar.isInstant_of_isNumeric hn] at hs'
          cases hs'
        · cases SqlType.isUndefined_iff.1 hundef
          cases hs'

namespace BindingRules

variable {r : BindingRules} {m : Coercion} {c : Assignment}

theorem admits_of_promotesTo {v : String} {t u : SqlType} (h : t.promotesTo u = true)
    (hu : r.admits v u = true) : r.admits v t = true := by
  unfold admits at hu ⊢
  cases hx : r.lookup v with
  | none => rfl
  | some x =>
    rw [hx] at hu
    exact TypeVariable.admits_of_promotesTo h hu

/-- A variable that meets a type below a solution takes it or joins it with the type it has. -/
theorem exists_unifies_var (hm : m.converts = true) {v : String} {t u : SqlType} {a : Assignment}
    (hu : c.get? v = some u) (hadm : r.admits v u = true) (htu : t.promotesTo u = true)
    (ha : a.CoercesTo .promotion c) :
    ∃ b, r.Unifies m (.var v) t a b ∧ b.CoercesTo .promotion c ∧ a.CoercesTo m b ∧
      t.fits m (b.apply (.var v)) = true := by
  have hadmt := admits_of_promotesTo htu hadm
  cases hget : a.get? v with
  | none =>
    have hab : a.CoercesTo m (a.set v t) := Assignment.coercesTo_set (by simp [hget])
    refine ⟨a.set v t, .take hadmt hget, ha.set_left hu htu, hab, ?_⟩
    exact SqlType.fits_iff.2 ⟨t, by simp, SqlType.coercesTo_self m t⟩
  | some held =>
    obtain ⟨u', hu', hheld⟩ := ha v held hget
    obtain rfl := Option.some.inj (hu.symm.trans hu')
    obtain ⟨w, hw, hwu, hheldw, htw⟩ := Coercion.join_of_common hm hheld htu
    have haw : a.CoercesTo m (a.set v w) := Assignment.coercesTo_set (by simpa [hget] using hheldw)
    refine ⟨a.set v w, .join hadmt hget hw, ha.set_left hu hwu, haw, ?_⟩
    exact SqlType.fits_iff.2 ⟨w, by simp, htw⟩

/-- **One step towards a solution.** A term that meets a type below a solution stays below it. -/
theorem exists_unifies (hm : m.converts = true) {f : TypeTerm} {t : SqlType} {a : Assignment}
    (hadm : ∀ v ∈ f.vars, ∃ u, c.get? v = some u ∧ r.admits v u = true)
    (hfit : t.fits .promotion (c.apply f) = true) (ha : a.CoercesTo .promotion c) :
    ∃ b, r.Unifies m f t a b ∧ b.CoercesTo .promotion c ∧ a.CoercesTo m b ∧
      t.fits m (b.apply f) = true := by
  obtain ⟨d, hd, htd⟩ := SqlType.fits_iff.1 hfit
  -- the solution stays, while the type that the term becomes shrinks to that of its elements
  induction f generalizing t a d with
  | var v =>
    obtain ⟨u, hu, hadmu⟩ := hadm v (by simp)
    rw [Assignment.apply_var, hu] at hd
    obtain rfl := SqlType.toTerm_injective hd
    exact exists_unifies_var hm hu hadmu htd ha
  | app n ps ih =>
    cases ho : (TypeTerm.app n ps).isOpen with
    | false =>
      rw [Assignment.apply_of_isOpen_eq_false ho] at hd
      have hself : t.fits m (.app n ps) = true :=
        SqlType.fits_iff.2 ⟨d, hd, SqlType.coercesTo_of_promotesTo hm htd⟩
      refine ⟨a, .closed ho hself, ha, .refl m a, ?_⟩
      rwa [Assignment.apply_of_isOpen_eq_false ho]
    | true =>
      have hvars := Assignment.isSome_get?_of_apply hd
      obtain ⟨p, e, rfl, rfl, rfl, hp, hpe⟩ := Assignment.apply_app_eq_toTerm ho hd
      match t, htd with
      | .scalar s, htd =>
        have hs : s = .undefined := by simpa [SqlType.coercesTo, SqlType.promotesTo] using htd
        subst hs
        exact ⟨_, .blank ho hm, ha.fill_left hvars, Assignment.coercesTo_fill m a _,
          Assignment.undefined_fits_fill hm a hd⟩
      | .array t, htd =>
        rw [SqlType.coercesTo_array] at htd
        obtain ⟨b, hb, hbc, hab, hfitb⟩ := ih p (by simp) (fun v hv => hadm v (by simpa using hv))
          (SqlType.fits_iff.2 ⟨e, hpe, htd⟩) ha e hpe htd
        refine ⟨b, .element hp hb, hbc, hab, ?_⟩
        obtain ⟨x, hx, htx⟩ := SqlType.fits_iff.1 hfitb
        refine SqlType.fits_iff.2 ⟨.array x, ?_, by rwa [SqlType.coercesTo_array]⟩
        rw [Assignment.apply_app, List.map_singleton, hx]
        rfl

/-- **A run towards a solution.** Later arguments move the binding, but not out of reach of the
earlier ones. -/
theorem exists_unifyAll (hm : m.converts = true) {ps : List (TypeTerm × SqlType)} {a : Assignment}
    (hc : r.Solves .promotion ps c) (ha : a.CoercesTo .promotion c) :
    ∃ b, r.unifyAll m ps a = some b ∧ b.CoercesTo .promotion c ∧ a.CoercesTo m b ∧
      ∀ p ∈ ps, p.2.fits m (b.apply p.1) = true := by
  induction ps generalizing a with
  | nil => exact ⟨a, rfl, ha, .refl m a, by simp⟩
  | cons p ps ih =>
    have hfit := hc.fits (List.mem_cons_self (a := p) (l := ps))
    obtain ⟨b, hb, hbc, hab, hp⟩ := exists_unifies hm (hc.admitted p (by simp)) hfit ha
    have htail : r.Solves .promotion ps c :=
      ⟨fun q hq => hc.admitted q (by simp [hq]), fun q hq => hc.accepted q (by simp [hq])⟩
    obtain ⟨d, hd, hdc, hbd, hps⟩ := ih htail hbc
    -- casts do not compose, but all bindings of the run are below the solution, where they do
    refine ⟨d, unifyAll_cons_eq_some_iff.2 ⟨b, hb, hd⟩, hdc,
      .trans_of_common ha hbc hdc hab hbd, fun q hq => ?_⟩
    rcases List.mem_cons.1 hq with rfl | hq
    · exact hbc.fits hdc hbd hfit hp
    · exact hps q hq

/-- **Whatever solves by promotions is above what is found.** -/
theorem exists_solve?_of_solves (hm : m.converts = true) {ps : List (TypeTerm × SqlType)}
    (hc : r.Solves .promotion ps c) :
    ∃ a, r.solve? m ps = some a ∧ a.CoercesTo .promotion c := by
  obtain ⟨a, ha, hac, -, hfit⟩ := exists_unifyAll hm hc (Assignment.empty_coercesTo .promotion c)
  exact ⟨a, solve?_eq_some_iff.2 ⟨ha, hfit⟩, hac⟩

theorem solve?_promotion_le {ps : List (TypeTerm × SqlType)} {a : Assignment}
    (ha : r.solve? .promotion ps = some a) (hc : r.Solves .promotion ps c) :
    a.CoercesTo .promotion c := by
  obtain ⟨b, hb, hbc⟩ := exists_solve?_of_solves (m := .promotion) rfl hc
  obtain rfl := Option.some.inj (ha.symm.trans hb)
  exact hbc

/-- The order of the pairs does not matter. -/
theorem solve?_promotion_perm {ps qs : List (TypeTerm × SqlType)} (hp : qs.Perm ps) {a : Assignment}
    (ha : r.solve? .promotion ps = some a) :
    ∃ b, r.solve? .promotion qs = some b ∧ ∀ v, b.get? v = a.get? v := by
  obtain ⟨b, hb, hba⟩ := exists_solve?_of_solves (m := .promotion) rfl
    ((solves_of_solve? ha).perm hp)
  have hab := solve?_promotion_le ha ((solves_of_solve? hb).perm hp.symm)
  exact ⟨b, hb, hba.antisymm hab⟩

theorem solve?_of_exact {ps : List (TypeTerm × SqlType)} {a : Assignment}
    (h : r.solve? .exact ps = some a) (m : Coercion) : r.solve? m ps = some a := by
  obtain ⟨ha, hfit⟩ := solve?_eq_some_iff.1 h
  refine solve?_eq_some_iff.2 ⟨unifyAll_of_exact ha m, fun p hp => ?_⟩
  obtain ⟨d, hd, htd⟩ := SqlType.fits_iff.1 (hfit p hp)
  exact SqlType.fits_iff.2 ⟨d, hd, SqlType.coercesTo_mono (Nat.zero_le _) htd⟩

end BindingRules

namespace Signature

/-- **Binding by promotions finds the least solution.** It finds one whenever there is one, it lies
below every other, and it is the same in whatever order the arguments are met. -/
theorem solve?_promotion_isLeast {s : Signature} {actual : List TypeTerm} {ts : List SqlType}
    (hts : TypeTerm.types? actual = some ts) :
    ((s.solve? .promotion actual).isSome = true ↔
      ∃ fs c, s.formals? actual.length = some fs ∧
        s.rules.Solves .promotion (fs.zip ts) c) ∧
    ∀ a, s.solve? .promotion actual = some a → ∃ fs, s.formals? actual.length = some fs ∧
      s.rules.Solves .promotion (fs.zip ts) a ∧
      (∀ c, s.rules.Solves .promotion (fs.zip ts) c →
        ∀ v t, a.get? v = some t → ∃ u, c.get? v = some u ∧ t.promotesTo u = true) ∧
      ∀ ps : List (TypeTerm × SqlType), ps.Perm (fs.zip ts) →
        ∃ b, s.rules.solve? .promotion ps = some b ∧ ∀ v, b.get? v = a.get? v := by
  constructor
  · rw [Option.isSome_iff_exists]
    constructor
    · rintro ⟨a, ha⟩
      obtain ⟨fs, hfs, hsolve⟩ := (solve?_eq_some_iff_of_types hts).1 ha
      exact ⟨fs, a, hfs, BindingRules.solves_of_solve? hsolve⟩
    · rintro ⟨fs, c, hfs, hc⟩
      obtain ⟨a, ha, -⟩ := BindingRules.exists_solve?_of_solves (m := .promotion) rfl hc
      exact ⟨a, (solve?_eq_some_iff_of_types hts).2 ⟨fs, hfs, ha⟩⟩
  · intro a ha
    obtain ⟨fs, hfs, hsolve⟩ := (solve?_eq_some_iff_of_types hts).1 ha
    exact ⟨fs, hfs, BindingRules.solves_of_solve? hsolve,
      fun c hc => BindingRules.solve?_promotion_le hsolve hc,
      fun ps hps => BindingRules.solve?_promotion_perm hps hsolve⟩

theorem solve?_promotion_isLeast_pick :
    TypeTerm.types?
        ([.array .undefined, .scalar .integer, .scalar .double].map SqlType.toTerm) =
      some [.array .undefined, .scalar .integer, .scalar .double] ∧
    ∃ fs c, (pick .numeric).formals? 3 = some fs ∧ (pick .numeric).rules.Solves .promotion
      (fs.zip [.array .undefined, .scalar .integer, .scalar .double]) c :=
  ⟨TypeTerm.types?_map_toTerm _,
    (solve?_promotion_isLeast (TypeTerm.types?_map_toTerm
      [.array .undefined, .scalar .integer, .scalar .double])).1.1 (by decide)⟩

theorem bind?_of_exact {s : Signature} {actual : List TypeTerm} {b : BoundSignature}
    (h : s.bind? .exact actual = some b) (m : Coercion) : s.bind? m actual = some b := by
  obtain ⟨fs, a, hfs, ha, hret, rfl⟩ := bind?_eq_some_iff.1 h
  obtain ⟨fs', ts, hfs', hts, hsolve⟩ := solve?_eq_some_iff.1 ha
  have ha' := solve?_eq_some_iff.2 ⟨fs', ts, hfs', hts, BindingRules.solve?_of_exact hsolve m⟩
  exact bind?_eq_some_iff.2 ⟨fs, a, hfs, ha', hret, rfl⟩

theorem exists_bind?_of_promotion {s : Signature} {m : Coercion} (hm : m.converts = true)
    {actual : List TypeTerm} {b : BoundSignature} (h : s.bind? .promotion actual = some b) :
    ∃ b', s.bind? m actual = some b' := by
  obtain ⟨fs, a, hfs, ha, hret, rfl⟩ := bind?_eq_some_iff.1 h
  obtain ⟨fs', ts, hfs', hts, hsolve⟩ := solve?_eq_some_iff.1 ha
  obtain ⟨a', ha', -⟩ :=
    BindingRules.exists_solve?_of_solves hm (BindingRules.solves_of_solve? hsolve)
  have hret' : (a'.apply s.ret).isOpen = false := by
    refine Assignment.isOpen_apply_eq_false_iff.2 fun v hv => ?_
    rw [BindingRules.isSome_get?_of_solve? ha' v, ← BindingRules.isSome_get?_of_solve? hsolve v]
    exact Assignment.isOpen_apply_eq_false_iff.1 hret v hv
  have hsolve' := solve?_eq_some_iff.2 ⟨fs', ts, hfs', hts, ha'⟩
  exact ⟨_, bind?_eq_some_iff.2 ⟨fs, a', hfs, hsolve', hret', rfl⟩⟩

/-- **A looser coercion loses no match.** What binds as it is binds in the same way by promotions,
and what binds by promotions binds by casts. -/
theorem bind?_of_stricter (s : Signature) (actual : List TypeTerm) :
    (∀ b, s.bind? .exact actual = some b → s.bind? .promotion actual = some b) ∧
      ∀ b, s.bind? .promotion actual = some b → ∃ b', s.bind? .cast actual = some b' :=
  ⟨fun _ h => bind?_of_exact h .promotion, fun _ h => exists_bind?_of_promotion rfl h⟩

/-- The two bindings may differ: numbers cast both ways, and arrays of numbers stay as they are
met. -/
theorem bind?_of_stricter_pick :
    ((pick .any).bind? .promotion ([.array (.scalar .real), .scalar .real].map SqlType.toTerm) =
      some (.ofTypes (pick .any) [.array (.scalar .real), .scalar .real] (.scalar .real))) ∧
    (pick .any).bind? .promotion
        ([.array (.array (.scalar .integer)), .array (.scalar .double)].map SqlType.toTerm) =
      some (.ofTypes (pick .any)
        [.array (.array (.scalar .double)), .array (.scalar .double)] (.array (.scalar .double))) ∧
    ∃ b, (pick .any).bind? .cast
        ([.array (.array (.scalar .integer)), .array (.scalar .double)].map SqlType.toTerm) =
      some b :=
  ⟨(bind?_of_stricter (pick .any) _).1 _ (by decide), by decide,
    (bind?_of_stricter (pick .any) _).2
      (.ofTypes (pick .any) [.array (.array (.scalar .double)), .array (.scalar .double)]
        (.array (.scalar .double))) (by decide)⟩

example : (pick .any).bind? .cast
    ([.array (.array (.scalar .integer)), .array (.scalar .double)].map SqlType.toTerm) =
      some (.ofTypes (pick .any)
        [.array (.array (.scalar .integer)), .array (.scalar .integer)]
        (.array (.scalar .integer))) := by
  decide

end Signature

end Overloading
