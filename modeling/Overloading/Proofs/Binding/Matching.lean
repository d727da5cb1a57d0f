import Mathlib.Data.Set.List
import Overloading.Proofs.Binding.Idempotence

/-! # Binding without conversions is matching

A substitution matches terms with arguments if it turns every term into the very tree of the
argument in its place (`BindingRules.Matches`). Binding knows types only, and of the constructors of
terms only that of arrays, while a substitution may replace a variable by any tree. On the arguments
of a call this makes no difference: they are terms of types, and every part of such a term is the
term of a type (`TypeTerm.exists_eq_toTerm_of_replace`). So a match is an assignment, and without
conversions a signature is bound exactly to what it matches (`Signature.bind?_exact_eq_some_iff`).
-/

namespace Overloading

namespace TypeTerm

variable {f : TypeTerm} {d : SqlType} {σ : String → TypeTerm}

/-- The term with every variable replaced. -/
def replace (σ : String → TypeTerm) (f : TypeTerm) : TypeTerm := f.subst fun v => some (σ v)

@[simp] theorem replace_var (σ : String → TypeTerm) (v : String) :
    (var v).replace σ = σ v := rfl

@[simp] theorem replace_app (σ : String → TypeTerm) (n : String) (ps : List TypeTerm) :
    (app n ps).replace σ = app n (ps.map (replace σ)) :=
  subst_app _ n ps

/-- A variable that is left as it is is replaced by itself. -/
theorem replace_getD (g : String → Option TypeTerm) (f : TypeTerm) :
    f.replace (fun v => (g v).getD (var v)) = f.subst g :=
  subst_eq_subst_iff.2 fun _ _ => rfl

/-- **Every part of the term of a type is the term of a type.** -/
theorem exists_eq_toTerm_of_replace (h : f.replace σ = d.toTerm) :
    ∀ v ∈ f.vars, ∃ e : SqlType, σ v = e.toTerm := by
  induction f generalizing d with
  | var w =>
    intro v hv
    obtain rfl : v = w := by simpa using hv
    exact ⟨d, h⟩
  | app n ps ih =>
    intro v hv
    rw [vars_app, List.mem_flatMap] at hv
    obtain ⟨p, hp, hvp⟩ := hv
    rw [replace_app] at h
    cases d with
    | scalar s =>
      obtain ⟨-, hps⟩ := app.inj h
      rw [List.map_eq_nil_iff.1 hps] at hp
      cases hp
    | array e =>
      obtain ⟨-, hps⟩ := app.inj h
      obtain ⟨q, rfl, hq⟩ := List.map_eq_singleton_iff.1 hps
      obtain rfl := List.mem_singleton.1 hp
      exact ih p hp hq v hvp

end TypeTerm

namespace Assignment

/-- The assignment with these types for the variables of the list. -/
def tabulate (g : String → SqlType) : List String → Assignment
  | [] => ∅
  | v :: vs => (tabulate g vs).set v (g v)

theorem get?_tabulate {g : String → SqlType} {v : String} {vs : List String} (hv : v ∈ vs) :
    (tabulate g vs).get? v = some (g v) := by
  induction vs with
  | nil => cases hv
  | cons w vs ih =>
    rw [tabulate, get?_set]
    by_cases h : v = w
    · rw [if_pos h, h]
    · rw [if_neg h, ih ((List.mem_cons.1 hv).resolve_left h)]

/-- Where the types stand for the replacements of a substitution, both do the same. -/
theorem apply_tabulate {g : String → SqlType} {σ : String → TypeTerm} {vs : List String}
    {f : TypeTerm} (hvs : ∀ v ∈ f.vars, v ∈ vs) (hg : ∀ v ∈ f.vars, σ v = (g v).toTerm) :
    (tabulate g vs).apply f = f.replace σ := by
  refine TypeTerm.subst_congr fun v hv => ?_
  rw [get?_tabulate (hvs v hv), Option.map_some, hg v hv]

end Assignment

/-- The substitution turns the terms into the arguments, tree by tree, and keeps to the rules: a
variable of the terms that there is a rule for becomes a type that the rule admits. -/
structure BindingRules.Matches (r : BindingRules) (fs actual : List TypeTerm)
    (σ : String → TypeTerm) : Prop where
  instances : fs.map (TypeTerm.replace σ) = actual
  admitted : ∀ f ∈ fs, ∀ v ∈ f.vars, ∀ x, r.lookup v = some x →
    ∃ d : SqlType, (σ v).denote = .ok d ∧ x.admits d = true

namespace BindingRules.Matches

variable {r : BindingRules} {fs : List TypeTerm} {ds : List SqlType} {σ : String → TypeTerm}

/-- **A match of types is an assignment of types.** -/
theorem exists_types (h : r.Matches fs (ds.map SqlType.toTerm) σ) :
    ∃ g : String → SqlType, ∀ f ∈ fs, ∀ v ∈ f.vars, σ v = (g v).toTerm ∧
      r.admits v (g v) = true := by
  have htype : ∀ v, ∃ d : SqlType, ∀ f ∈ fs, v ∈ f.vars → σ v = d.toTerm := by
    intro v
    by_cases hv : ∃ f ∈ fs, v ∈ f.vars
    · obtain ⟨f, hf, hvf⟩ := hv
      have hmem : f.replace σ ∈ ds.map SqlType.toTerm :=
        h.instances ▸ List.mem_map_of_mem hf
      obtain ⟨d, -, hd⟩ := List.mem_map.1 hmem
      obtain ⟨e, he⟩ := TypeTerm.exists_eq_toTerm_of_replace hd.symm v hvf
      exact ⟨e, fun _ _ _ => he⟩
    · exact ⟨.undefined, fun f hf hvf => absurd ⟨f, hf, hvf⟩ hv⟩
  choose g hg using htype
  refine ⟨g, fun f hf v hv => ⟨hg v f hf hv, ?_⟩⟩
  unfold BindingRules.admits
  cases hx : r.lookup v with
  | none => rfl
  | some x =>
    obtain ⟨d, hd, hadm⟩ := h.admitted f hf v hv x hx
    rw [hg v f hf hv, TypeTerm.denote_toTerm, Except.ok.injEq] at hd
    rw [hd]
    exact hadm

end BindingRules.Matches

namespace Signature

variable {s : Signature} {actual : List TypeTerm} {b : BoundSignature}

/-- What is bound without conversions is matched. -/
theorem exists_matches_of_bind?_exact (h : s.bind? .exact actual = some b) :
    ∃ fs σ, s.formals? actual.length = some fs ∧ s.rules.Matches fs actual σ ∧
      (∀ v ∈ s.ret.vars, ∃ f ∈ fs, v ∈ f.vars) ∧
      b = ⟨s.name, s.kind, actual, s.ret.replace σ⟩ := by
  have hargs : b.args = actual := args_of_bind?_exact h
  obtain ⟨fs, a, hfs, ha, hret, rfl⟩ := bind?_eq_some_iff.1 h
  obtain ⟨_, _, _, _, hsolve⟩ := solve?_eq_some_iff.1 ha
  change fs.map a.apply = actual at hargs
  have hdom := isSome_get?_of_solve? hfs ha
  -- the substitution of the assignment, which leaves the other variables as they are
  set σ : String → TypeTerm := fun v => ((a.get? v).map SqlType.toTerm).getD (.var v)
  have hσ : ∀ f : TypeTerm, f.replace σ = a.apply f := TypeTerm.replace_getD _
  refine ⟨fs, σ, hfs, ⟨?_, fun f hf v hv x hx => ?_⟩, fun v hv => ?_, ?_⟩
  · rw [← hargs, funext hσ]
  · obtain ⟨u, hu⟩ := Option.isSome_iff_exists.1 ((hdom v).2 ⟨f, hf, hv⟩)
    have hadm : s.rules.admits v u = true := BindingRules.admitted_of_solve? hsolve v u hu
    have hv' : σ v = u.toTerm := by simp [σ, hu]
    unfold BindingRules.admits at hadm
    rw [hx] at hadm
    exact ⟨u, by rw [hv', TypeTerm.denote_toTerm], hadm⟩
  · exact (hdom v).1 (Assignment.isOpen_apply_eq_false_iff.1 hret v hv)
  · rw [hargs, hσ]

/-- What is matched with types is bound to them without conversions. -/
theorem bind?_exact_of_matches {ds : List SqlType} {fs : List TypeTerm} {σ : String → TypeTerm}
    (hfs : s.formals? ds.length = some fs) (h : s.rules.Matches fs (ds.map SqlType.toTerm) σ)
    (hret : ∀ v ∈ s.ret.vars, ∃ f ∈ fs, v ∈ f.vars) :
    s.bind? .exact (ds.map SqlType.toTerm) =
      some ⟨s.name, s.kind, ds.map SqlType.toTerm, s.ret.replace σ⟩ := by
  obtain ⟨g, hg⟩ := h.exists_types
  set c := Assignment.tabulate g (fs.flatMap TypeTerm.vars)
  have hmem : ∀ f ∈ fs, ∀ v ∈ f.vars, v ∈ fs.flatMap TypeTerm.vars := fun f hf v hv =>
    List.mem_flatMap.2 ⟨f, hf, hv⟩
  have happly : ∀ f ∈ fs, c.apply f = f.replace σ := fun f hf =>
    Assignment.apply_tabulate (hmem f hf) fun v hv => (hg f hf v hv).1
  have hargs : fs.map c.apply = ds.map SqlType.toTerm := by
    rw [List.map_congr_left happly, h.instances]
  have hresult : c.apply s.ret = s.ret.replace σ := by
    refine Assignment.apply_tabulate (fun v hv => ?_) fun v hv => ?_
    · obtain ⟨f, hf, hvf⟩ := hret v hv
      exact hmem f hf v hvf
    · obtain ⟨f, hf, hvf⟩ := hret v hv
      exact (hg f hf v hvf).1
  rw [← hresult]
  refine bind?_exact_of_apply hfs hargs (fun f hf v hv => ?_) hret
  exact ⟨g v, Assignment.get?_tabulate (hmem f hf v hv), (hg f hf v hv).2⟩

/-- **Without conversions a signature is bound exactly to what it matches.** The arguments are types
and as many as the signature admits, one substitution turns each term into the tree of the argument
in its place and keeps to the rules, and no variable is in the result that is not in the terms. Then
the arguments stay as they are, and the result is what the substitution makes of it. -/
theorem bind?_exact_eq_some_iff : s.bind? .exact actual = some b ↔
    (∀ t ∈ actual, ∃ d : SqlType, t.denote = .ok d) ∧
      ∃ fs σ, s.formals? actual.length = some fs ∧ s.rules.Matches fs actual σ ∧
        (∀ v ∈ s.ret.vars, ∃ f ∈ fs, v ∈ f.vars) ∧
        b = ⟨s.name, s.kind, actual, s.ret.replace σ⟩ := by
  constructor
  · intro h
    refine ⟨fun t ht => ?_, exists_matches_of_bind?_exact h⟩
    obtain ⟨ts, ds, rfl, -, -⟩ := exists_forall₂_of_bind? h
    obtain ⟨d, -, rfl⟩ := List.mem_map.1 ht
    exact ⟨d, TypeTerm.denote_toTerm d⟩
  · rintro ⟨htypes, fs, σ, hfs, hmatch, hret, rfl⟩
    have hrange : actual ∈ Set.range (List.map SqlType.toTerm) := by
      rw [Set.range_list_map]
      intro t ht
      obtain ⟨d, hd⟩ := htypes t ht
      exact ⟨d, (TypeTerm.denote_eq_ok_iff.1 hd).symm⟩
    obtain ⟨ds, rfl⟩ := hrange
    rw [List.length_map] at hfs
    exact bind?_exact_of_matches hfs hmatch hret

end Signature

end Overloading
