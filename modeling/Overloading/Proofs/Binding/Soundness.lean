import Mathlib.Data.List.Forall2
import Overloading.Proofs.Binding.Unification

/-! # What a binding promises

An assignment solves a list of terms and types if every variable of the terms may stand for the type
that it gets and every type is accepted by the type that its term becomes (`BindingRules.Solves`).
`solve?` returns solutions only (`solves_of_solve?`), whatever the coercion: casts are not
transitive, so a variable that moves late may spoil what an earlier argument was accepted for, and
it is the second pass over the arguments that rules this out. A bound signature is the signature
under such a solution (`Signature.bind?_eq_some_iff`), and its arguments are the types that accept
those of the call (`Signature.exists_targets`). -/

namespace Overloading

namespace TypeTerm

theorem types?_cons (t : TypeTerm) (ts : List TypeTerm) :
    types? (t :: ts) = t.denote.toOption.bind fun d => (types? ts).map (d :: ·) := by
  rw [types?, List.mapM_cons]
  cases t.denote.toOption with
  | none => rfl
  | some d =>
    show ((types? ts).bind fun ds => some (d :: ds)) = (types? ts).map (d :: ·)
    cases types? ts <;> rfl

/-- **Terms name these types if they are their terms.** -/
theorem types?_eq_some_iff {ts : List TypeTerm} {ds : List SqlType} :
    types? ts = some ds ↔ ts = ds.map SqlType.toTerm := by
  constructor
  · intro h
    induction ts generalizing ds with
    | nil => cases h; rfl
    | cons t ts ih =>
      rw [types?_cons] at h
      obtain ⟨d, hd, h⟩ := Option.bind_eq_some_iff.1 h
      obtain ⟨ds, hds, rfl⟩ := Option.map_eq_some_iff.1 h
      rw [List.map_cons, ← ih hds]
      congr 1
      refine denote_eq_ok_iff.1 ?_
      cases ht : t.denote with
      | error e => rw [ht] at hd; cases hd
      | ok e => rw [ht] at hd; cases hd; rfl
  · rintro rfl
    exact types?_map_toTerm ds

theorem length_of_types? {ts : List TypeTerm} {ds : List SqlType} (h : types? ts = some ds) :
    ds.length = ts.length := by
  rw [types?_eq_some_iff.1 h, List.length_map]

end TypeTerm

theorem SqlType.fits_iff_denote {m : Coercion} {t : SqlType} {target : TypeTerm} :
    t.fits m target = true ↔ ∃ d, target.denote = .ok d ∧ t.coercesTo m d = true := by
  rw [fits_iff]
  simp only [TypeTerm.denote_eq_ok_iff]

namespace BindingRules

/-- The assignment solves the terms and types: every variable of the terms may stand for its type,
and every type is accepted by the type that its term becomes. -/
structure Solves (r : BindingRules) (m : Coercion) (ps : List (TypeTerm × SqlType))
    (a : Assignment) : Prop where
  admitted : ∀ p ∈ ps, ∀ v ∈ p.1.vars, ∃ t, a.get? v = some t ∧ r.admits v t = true
  accepted : ∀ p ∈ ps, ∃ d, (a.apply p.1).denote = .ok d ∧ p.2.coercesTo m d = true

variable {r : BindingRules} {m : Coercion} {ps : List (TypeTerm × SqlType)} {a : Assignment}

theorem Solves.fits (h : r.Solves m ps a) {p : TypeTerm × SqlType} (hp : p ∈ ps) :
    p.2.fits m (a.apply p.1) = true :=
  SqlType.fits_iff_denote.2 (h.accepted p hp)

theorem Solves.perm {qs : List (TypeTerm × SqlType)} (h : r.Solves m ps a) (hp : qs.Perm ps) :
    r.Solves m qs a :=
  ⟨fun p hmem => h.admitted p (hp.subset hmem), fun p hmem => h.accepted p (hp.subset hmem)⟩

theorem solve?_eq_some_iff : r.solve? m ps = some a ↔
    r.unifyAll m ps ∅ = some a ∧ ∀ p ∈ ps, p.2.fits m (a.apply p.1) = true := by
  rw [solve?, Option.filter_eq_some_iff, List.all_eq_true]

theorem admitted_of_solve? (h : r.solve? m ps = some a) : r.Admitted a :=
  admitted_of_unifyAll (solve?_eq_some_iff.1 h).1 fun v t ht => by cases ht

/-- **A solution has types for the variables of the terms and for no others.** -/
theorem isSome_get?_of_solve? (h : r.solve? m ps = some a) (v : String) :
    (a.get? v).isSome = true ↔ ∃ p ∈ ps, v ∈ p.1.vars := by
  rw [isSome_get?_of_unifyAll (solve?_eq_some_iff.1 h).1 v]
  simp

/-- **What is found is a solution.** -/
theorem solves_of_solve? (h : r.solve? m ps = some a) : r.Solves m ps a := by
  refine ⟨fun p hp v hv => ?_, fun p hp => ?_⟩
  · have hsome := (isSome_get?_of_solve? h v).2 ⟨p, hp, hv⟩
    obtain ⟨t, ht⟩ := Option.isSome_iff_exists.1 hsome
    exact ⟨t, ht, admitted_of_solve? h v t ht⟩
  · exact SqlType.fits_iff_denote.1 ((solve?_eq_some_iff.1 h).2 p hp)

end BindingRules

namespace Signature

variable {s : Signature} {m : Coercion} {actual : List TypeTerm}

theorem solve?_eq_some_iff {a : Assignment} : s.solve? m actual = some a ↔
    ∃ fs ts, s.formals? actual.length = some fs ∧ TypeTerm.types? actual = some ts ∧
      s.rules.solve? m (fs.zip ts) = some a := by
  rw [solve?, Option.bind_eq_some_iff]
  refine exists_congr fun fs => ?_
  rw [Option.bind_eq_some_iff, ← exists_and_left]

theorem solve?_eq_some_iff_of_types {ts : List SqlType} (hts : TypeTerm.types? actual = some ts)
    {a : Assignment} : s.solve? m actual = some a ↔
      ∃ fs, s.formals? actual.length = some fs ∧ s.rules.solve? m (fs.zip ts) = some a := by
  rw [solve?_eq_some_iff]
  refine exists_congr fun fs => ?_
  constructor
  · rintro ⟨ts', hfs, hts', h⟩
    obtain rfl := Option.some.inj (hts.symm.trans hts')
    exact ⟨hfs, h⟩
  · rintro ⟨hfs, h⟩
    exact ⟨ts, hfs, hts, h⟩

/-- The variables with a type are those of the terms for the arguments. -/
theorem isSome_get?_of_solve? {a : Assignment} {fs : List TypeTerm}
    (hfs : s.formals? actual.length = some fs) (h : s.solve? m actual = some a) (v : String) :
    (a.get? v).isSome = true ↔ ∃ f ∈ fs, v ∈ f.vars := by
  obtain ⟨fs', ts, hfs', hts, hsolve⟩ := solve?_eq_some_iff.1 h
  obtain rfl : fs = fs' := Option.some.inj (hfs.symm.trans hfs')
  have hlen : fs.length = ts.length := by rw [length_formals? hfs, TypeTerm.length_of_types? hts]
  have hfst : (fs.zip ts).map Prod.fst = fs := List.map_fst_zip (Nat.le_of_eq hlen)
  rw [BindingRules.isSome_get?_of_solve? hsolve v]
  conv_rhs => rw [← hfst]
  simp only [List.mem_map, exists_exists_and_eq_and]

theorem bind?_eq_some_iff {b : BoundSignature} : s.bind? m actual = some b ↔
    ∃ fs a, s.formals? actual.length = some fs ∧ s.solve? m actual = some a ∧
      (a.apply s.ret).isOpen = false ∧
      b = ⟨s.name, s.kind, fs.map a.apply, a.apply s.ret⟩ := by
  rw [bind?, Option.bind_eq_some_iff]
  refine exists_congr fun fs => ?_
  rw [Option.bind_eq_some_iff, ← exists_and_left]
  refine exists_congr fun a => ?_
  refine and_congr_right fun _ => and_congr_right fun _ => ?_
  by_cases h : (a.apply s.ret).isOpen = true
  · simp [h]
  · simp [h, eq_comm]

/-- The types that the terms of an argument list become, one by one. -/
theorem exists_targets {a : Assignment} : ∀ {fs : List TypeTerm} {ts : List SqlType},
    fs.length = ts.length →
    (∀ p ∈ fs.zip ts, ∃ d, (a.apply p.1).denote = .ok d ∧ p.2.coercesTo m d = true) →
    ∃ ds, TypeTerm.types? (fs.map a.apply) = some ds ∧
      List.Forall₂ (fun t d => t.coercesTo m d = true) ts ds
  | [], [], _, _ => ⟨[], rfl, .nil⟩
  | f :: fs, t :: ts, hlen, h => by
    obtain ⟨d, hd, htd⟩ := h (f, t) (by simp)
    obtain ⟨ds, hds, hall⟩ := exists_targets (Nat.succ.inj hlen) fun p hp => h p (by simp [hp])
    refine ⟨d :: ds, ?_, .cons htd hall⟩
    rw [List.map_cons, TypeTerm.types?_cons, hd, hds]
    rfl

/-- The arguments of a bound signature are types that accept those of the call, one by one. -/
theorem exists_forall₂_of_bind? {b : BoundSignature} (h : s.bind? m actual = some b) :
    ∃ ts ds : List SqlType, actual = ts.map SqlType.toTerm ∧ b.args = ds.map SqlType.toTerm ∧
      List.Forall₂ (fun t d => t.coercesTo m d = true) ts ds := by
  obtain ⟨fs, a, hfs, ha, -, rfl⟩ := bind?_eq_some_iff.1 h
  obtain ⟨fs', ts, hfs', hts, hsolve⟩ := solve?_eq_some_iff.1 ha
  obtain rfl : fs = fs' := Option.some.inj (hfs.symm.trans hfs')
  have hlen : fs.length = ts.length := by rw [length_formals? hfs, TypeTerm.length_of_types? hts]
  obtain ⟨ds, hds, hall⟩ := exists_targets hlen (BindingRules.solves_of_solve? hsolve).accepted
  exact ⟨ts, ds, TypeTerm.types?_eq_some_iff.1 hts, TypeTerm.types?_eq_some_iff.1 hds, hall⟩

/-- The arguments of a bound signature are types, one for each argument of the call. -/
theorem exists_types_of_bind? {b : BoundSignature} (h : s.bind? m actual = some b) :
    ∃ ds : List SqlType, b.args = ds.map SqlType.toTerm ∧ ds.length = actual.length := by
  obtain ⟨ts, ds, rfl, hargs, hall⟩ := exists_forall₂_of_bind? h
  exact ⟨ds, hargs, by rw [List.length_map, hall.length_eq]⟩

/-- **Without conversions a signature is bound to the types of the arguments as they are.** -/
theorem args_of_bind?_exact {b : BoundSignature} (h : s.bind? .exact actual = some b) :
    b.args = actual := by
  obtain ⟨ts, ds, rfl, hargs, hall⟩ := exists_forall₂_of_bind? h
  have heq : ts = ds := by
    rw [← List.forall₂_eq_eq_eq]
    exact hall.imp fun t d htd => of_decide_eq_true htd
  rw [hargs, heq]

/-- **A bound signature is the signature under one assignment of types to its variables.** No
variable is left in it, the assignment keeps to the rules, and every argument of the call is
accepted by the type in its place. -/
theorem exists_assignment_of_bind? {b : BoundSignature} (h : s.bind? m actual = some b) :
    b.name = s.name ∧ b.kind = s.kind ∧ b.args.length = actual.length ∧
      ∃ (fs : List TypeTerm) (a : Assignment) (ts ds : List SqlType),
        s.formals? actual.length = some fs ∧ b.args = fs.map a.apply ∧ b.ret = a.apply s.ret ∧
        (∀ t ∈ b.args, t.isOpen = false) ∧ b.ret.isOpen = false ∧
        TypeTerm.types? actual = some ts ∧ TypeTerm.types? b.args = some ds ∧
        List.Forall₂ (fun t d => t.coercesTo m d = true) ts ds ∧
        ∀ v t, a.get? v = some t → s.rules.admits v t = true := by
  obtain ⟨fs, a, hfs, ha, hret, rfl⟩ := bind?_eq_some_iff.1 h
  obtain ⟨fs', ts, hfs', hts, hsolve⟩ := solve?_eq_some_iff.1 ha
  obtain rfl := Option.some.inj (hfs.symm.trans hfs')
  have hlen := length_formals? hfs
  have hlen' : fs.length = ts.length := by rw [hlen, TypeTerm.length_of_types? hts]
  obtain ⟨ds, hds, hall⟩ :=
    exists_targets hlen' (BindingRules.solves_of_solve? hsolve).accepted
  refine ⟨rfl, rfl, by rw [List.length_map, hlen], fs, a, ts, ds, hfs, rfl, rfl, ?_, hret, hts,
    hds, hall, BindingRules.admitted_of_solve? hsolve⟩
  intro t ht
  rw [TypeTerm.types?_eq_some_iff.1 hds] at ht
  obtain ⟨d, -, rfl⟩ := List.mem_map.1 ht
  exact d.isOpen_toTerm

/-- The signature `pick(array(E), E...):E`. -/
def pick (k : VariableKind) : Signature where
  name := { name := "pick" }
  args := [.app arrayName [.var "E"], .var "E"]
  variadic := true
  ret := .var "E"
  rules := { vars := [⟨"E", k⟩] }

theorem exists_assignment_of_bind?_pick :
    (pick .numeric).bind? .cast
        ([.array (.scalar .double), .scalar .integer, .undefined].map SqlType.toTerm) =
      some (.ofTypes (pick .numeric)
        [.array (.scalar .double), .scalar .double, .scalar .double] (.scalar .double)) ∧
    ∃ a : Assignment, (SqlType.scalar .double).toTerm = a.apply (.var "E") ∧
      ∀ v t, a.get? v = some t → (pick .numeric).rules.admits v t = true := by
  have h : (pick .numeric).bind? .cast
        ([.array (.scalar .double), .scalar .integer, .undefined].map SqlType.toTerm) =
      some (.ofTypes (pick .numeric)
        [.array (.scalar .double), .scalar .double, .scalar .double] (.scalar .double)) := by
    decide
  obtain ⟨-, -, -, fs, a, ts, ds, -, -, hret, -, -, -, -, -, hadm⟩ := exists_assignment_of_bind? h
  exact ⟨h, a, hret, hadm⟩

end Signature

end Overloading
