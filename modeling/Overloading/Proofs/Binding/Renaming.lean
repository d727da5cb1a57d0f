import Mathlib.Data.List.Find
import Mathlib.Data.Set.Function
import Overloading.Proofs.Binding.Matching
import Overloading.Proofs.Binding.Scope
import Overloading.Signature.Declaration

/-! # The names of type variables

The variables of a signature may be named as one likes, as long as different variables keep
different names. A renaming `ρ` acts on terms, on rules and on a signature as a whole
(`Signature.rename`), and an assignment is renamed to another if that one has the same types under
the new names and no others (`Assignment.Renamed`).

A step of unification under the old names is a step under the new ones, from renamed assignments to
renamed assignments (`BindingRules.Unifies.rename`), and so is a whole run
(`BindingRules.exists_unifyAll_rename`). That the new names bring no further solution needs no
second proof: the renaming can be undone (`Signature.rename_rename`), and what can be solved under
the new names can be solved under the old ones again (`Signature.bind?_rename`). -/

namespace Overloading

theorem map_map_eq_self {α β : Type} {f : α → β} {g : β → α} {xs : List α}
    (h : ∀ x ∈ xs, g (f x) = x) : (xs.map f).map g = xs := by
  rw [List.map_map]
  exact (List.map_congr_left h).trans (List.map_id xs)

variable {ρ σ : String → String}

namespace TypeTerm

variable {f : TypeTerm}

/-- The term with its variables renamed. -/
def rename (ρ : String → String) (f : TypeTerm) : TypeTerm := f.replace fun v => var (ρ v)

@[simp] theorem rename_var (ρ : String → String) (v : String) :
    (var v).rename ρ = var (ρ v) := rfl

@[simp] theorem rename_app (ρ : String → String) (n : String) (ps : List TypeTerm) :
    (app n ps).rename ρ = app n (ps.map (rename ρ)) :=
  replace_app _ n ps

@[simp] theorem vars_rename (ρ : String → String) (f : TypeTerm) :
    (f.rename ρ).vars = f.vars.map ρ := by
  rw [rename, replace, vars_subst, List.map_eq_flatMap]
  rfl

@[simp] theorem isOpen_rename (ρ : String → String) (f : TypeTerm) :
    (f.rename ρ).isOpen = f.isOpen := by
  rw [Bool.eq_iff_iff, ← Bool.not_eq_false, ← Bool.not_eq_false, isOpen_eq_false_iff,
    isOpen_eq_false_iff, vars_rename, List.map_eq_nil_iff]

theorem rename_of_isOpen_eq_false (h : f.isOpen = false) : f.rename ρ = f :=
  subst_of_isOpen_eq_false h

theorem rename_rename (h : ∀ v ∈ f.vars, σ (ρ v) = v) : (f.rename ρ).rename σ = f := by
  rw [rename, rename, replace, replace, subst_subst]
  refine (subst_eq_subst_iff.2 fun v hv => ?_).trans (subst_none f)
  exact congrArg var (h v hv)

/-- A renamed term names a type only if it was the term of that type before. -/
theorem rename_eq_toTerm_iff {d : SqlType} : f.rename ρ = d.toTerm ↔ f = d.toTerm := by
  constructor
  · intro h
    have hclosed : f.isOpen = false := by rw [← isOpen_rename ρ, h, SqlType.isOpen_toTerm]
    rw [← h, rename_of_isOpen_eq_false hclosed]
  · rintro rfl
    exact rename_of_isOpen_eq_false d.isOpen_toTerm

end TypeTerm

theorem SqlType.fits_rename (m : Coercion) (t : SqlType) (f : TypeTerm) :
    t.fits m (f.rename ρ) = t.fits m f := by
  rw [Bool.eq_iff_iff, fits_iff, fits_iff]
  simp only [TypeTerm.rename_eq_toTerm_iff]

/-- The variable under its new name. -/
def TypeVariable.rename (ρ : String → String) (x : TypeVariable) : TypeVariable :=
  { x with name := ρ x.name }

/-- The rules under the new names. -/
def BindingRules.rename (ρ : String → String) (r : BindingRules) : BindingRules :=
  { r with vars := r.vars.map (TypeVariable.rename ρ) }

namespace Assignment

/-- The assignment `b` has the types of `a` under the new names and no others; `N` holds the names
that `a` may have types for. -/
structure Renamed (ρ : String → String) (N : Set String) (a b : Assignment) : Prop where
  get?_eq : ∀ v ∈ N, b.get? (ρ v) = a.get? v
  mem_of_get? : ∀ v t, a.get? v = some t → v ∈ N
  exists_of_get? : ∀ w t, b.get? w = some t → ∃ v ∈ N, ρ v = w

namespace Renamed

variable {N : Set String} {a b : Assignment} {v : String}

theorem empty (ρ : String → String) (N : Set String) : Renamed ρ N ∅ ∅ where
  get?_eq _ _ := rfl
  mem_of_get? v t h := by simp at h
  exists_of_get? w t h := by simp at h

/-- A renamed assignment makes the renamed term of every term. -/
theorem apply_rename (h : Renamed ρ N a b) {f : TypeTerm} (hf : ∀ v ∈ f.vars, v ∈ N) :
    b.apply (f.rename ρ) = (a.apply f).rename ρ := by
  rw [TypeTerm.rename, TypeTerm.rename, TypeTerm.replace, TypeTerm.replace, apply, apply,
    TypeTerm.subst_subst, TypeTerm.subst_subst]
  refine TypeTerm.subst_eq_subst_iff.2 fun v hv => ?_
  rw [TypeTerm.getD_andThen, TypeTerm.getD_andThen, Option.getD_some, TypeTerm.subst_var,
    h.get?_eq v (hf v hv)]
  cases a.get? v with
  | none => rfl
  | some t => exact (TypeTerm.rename_of_isOpen_eq_false t.isOpen_toTerm).symm

/-- What the assignment closes is closed by the renamed one in the same way. -/
theorem apply_rename_of_isOpen_eq_false (h : Renamed ρ N a b) {f : TypeTerm}
    (hf : ∀ v ∈ f.vars, v ∈ N) (hclosed : (a.apply f).isOpen = false) :
    b.apply (f.rename ρ) = a.apply f := by
  rw [h.apply_rename hf, TypeTerm.rename_of_isOpen_eq_false hclosed]

section
variable (hρ : Set.InjOn ρ N)
include hρ

theorem set (h : Renamed ρ N a b) (hv : v ∈ N) (t : SqlType) :
    Renamed ρ N (a.set v t) (b.set (ρ v) t) where
  get?_eq w hw := by
    rw [get?_set, get?_set, h.get?_eq w hw]
    simp only [hρ.eq_iff hw hv]
  mem_of_get? w u hu := by
    rw [get?_set] at hu
    split_ifs at hu with hw
    · exact hw ▸ hv
    · exact h.mem_of_get? w u hu
  exists_of_get? w u hu := by
    rw [get?_set] at hu
    split_ifs at hu with hw
    · exact ⟨v, hv, hw.symm⟩
    · exact h.exists_of_get? w u hu

theorem fillStep (h : Renamed ρ N a b) (hv : v ∈ N) :
    Renamed ρ N (a.fillStep v) (b.fillStep (ρ v)) := by
  unfold Assignment.fillStep
  rw [h.get?_eq v hv]
  split
  · exact h.set hρ hv .undefined
  · exact h

theorem fill {vs : List String} (h : Renamed ρ N a b) (hvs : ∀ v ∈ vs, v ∈ N) :
    Renamed ρ N (a.fill vs) (b.fill (vs.map ρ)) := by
  unfold Assignment.fill
  induction vs generalizing a b with
  | nil => exact h
  | cons v vs ih =>
    obtain ⟨hv, hvs⟩ := List.forall_mem_cons.1 hvs
    exact ih (h.fillStep hρ hv) hvs

end

end Renamed

end Assignment

/-! ### Two runs side by side -/

namespace BindingRules

open Assignment (Renamed)

variable {r : BindingRules} {N : Set String} {m : Coercion} {a a' b : Assignment}

section
variable (hρ : Set.InjOn ρ N) (hr : ∀ x ∈ r.vars, x.name ∈ N)
include hρ hr

/-- The first rule for a variable stays the first rule for it. -/
theorem lookup_rename {v : String} (hv : v ∈ N) :
    (r.rename ρ).lookup (ρ v) = (r.lookup v).map (TypeVariable.rename ρ) := by
  rw [lookup, lookup, rename, List.find?_map]
  refine congrArg (Option.map _) (List.find?_congr fun x hx => ?_)
  exact decide_eq_decide.2 (hρ.eq_iff (hr x hx) hv)

theorem admits_rename {v : String} (hv : v ∈ N) (t : SqlType) :
    (r.rename ρ).admits (ρ v) t = r.admits v t := by
  rw [admits, admits, lookup_rename hρ hr hv, Option.all_map]
  rfl

/-- **A step under the old names is a step under the new ones.** -/
theorem Unifies.rename {f : TypeTerm} {t : SqlType} (h : r.Unifies m f t a b)
    (hf : ∀ v ∈ f.vars, v ∈ N) (ha : Renamed ρ N a a') :
    ∃ b', (r.rename ρ).Unifies m (f.rename ρ) t a' b' ∧ Renamed ρ N b b' := by
  induction h generalizing a' with
  | @take v t a hadm hget =>
    have hv : v ∈ N := hf v (by simp)
    refine ⟨a'.set (ρ v) t, .take ?_ ?_, ha.set hρ hv t⟩
    · rw [admits_rename hρ hr hv, hadm]
    · rw [ha.get?_eq v hv, hget]
  | @join v t a held u hadm hget hu =>
    have hv : v ∈ N := hf v (by simp)
    refine ⟨a'.set (ρ v) u, .join ?_ ?_ hu, ha.set hρ hv u⟩
    · rw [admits_rename hρ hr hv, hadm]
    · rw [ha.get?_eq v hv, hget]
  | closed ho hfit =>
    rw [TypeTerm.rename_of_isOpen_eq_false ho]
    exact ⟨a', .closed ho hfit, ha⟩
  | @blank n ps a ho hm =>
    have hfill := ha.fill hρ hf
    rw [← TypeTerm.isOpen_rename ρ] at ho
    rw [← TypeTerm.vars_rename] at hfill
    rw [TypeTerm.rename_app] at ho hfill ⊢
    exact ⟨_, .blank ho hm, hfill⟩
  | element ho _ ih =>
    obtain ⟨b', hb', hb⟩ := ih (fun v hv => hf v (by simpa using hv)) ha
    refine ⟨b', ?_, hb⟩
    rw [TypeTerm.rename_app, List.map_singleton]
    exact .element (by rw [TypeTerm.isOpen_rename, ho]) hb'

variable {ps : List (TypeTerm × SqlType)} (hps : ∀ p ∈ ps, ∀ v ∈ p.1.vars, v ∈ N)
include hps

/-- **A run under the old names is a run under the new ones.** -/
theorem exists_unifyAll_rename (h : r.unifyAll m ps a = some b) (ha : Renamed ρ N a a') :
    ∃ b', (r.rename ρ).unifyAll m (ps.map (Prod.map (TypeTerm.rename ρ) id)) a' = some b' ∧
      Renamed ρ N b b' := by
  induction ps generalizing a a' with
  | nil =>
    cases h
    exact ⟨a', rfl, ha⟩
  | cons p ps ih =>
    obtain ⟨hp, hps⟩ := List.forall_mem_cons.1 hps
    obtain ⟨c, hc, h⟩ := unifyAll_cons_eq_some_iff.1 h
    obtain ⟨c', hc', hcc'⟩ := hc.rename hρ hr hp ha
    obtain ⟨b', hb', hbb'⟩ := ih hps h hcc'
    exact ⟨b', unifyAll_cons_eq_some_iff.2 ⟨c', hc', hb'⟩, hbb'⟩

theorem exists_solve?_rename (h : r.solve? m ps = some a) :
    ∃ b, (r.rename ρ).solve? m (ps.map (Prod.map (TypeTerm.rename ρ) id)) = some b ∧
      Renamed ρ N a b := by
  obtain ⟨hrun, hfits⟩ := solve?_eq_some_iff.1 h
  obtain ⟨b, hb, hab⟩ := exists_unifyAll_rename hρ hr hps hrun (Renamed.empty ρ N)
  refine ⟨b, solve?_eq_some_iff.2 ⟨hb, List.forall_mem_map.2 fun p hp => ?_⟩, hab⟩
  rw [Prod.map_fst, Prod.map_snd, hab.apply_rename (hps p hp), SqlType.fits_rename]
  exact hfits p hp

end

end BindingRules

/-! ### Signatures under other names -/

namespace Signature

open Assignment (Renamed)

variable {s : Signature} {m : Coercion} {actual : List TypeTerm} {v : String}

/-- The names of type variables in the arguments, the result and the rules. -/
def names (s : Signature) : List String := s.vars ++ s.rules.vars.map (·.name)

/-- The signature with its type variables renamed, in its terms and in its rules. -/
def rename (ρ : String → String) (s : Signature) : Signature :=
  { s with
    args := s.args.map (TypeTerm.rename ρ)
    ret := s.ret.rename ρ
    rules := s.rules.rename ρ }

theorem mem_names_iff : v ∈ s.names ↔
    (∃ f ∈ s.args, v ∈ f.vars) ∨ v ∈ s.ret.vars ∨ ∃ x ∈ s.rules.vars, x.name = v := by
  rw [names, vars, List.mem_append, List.mem_append, List.mem_flatMap, List.mem_map, or_assoc]

theorem mem_names_of_formals? {n : Nat} {fs : List TypeTerm} (hfs : s.formals? n = some fs)
    {f : TypeTerm} (hf : f ∈ fs) (hv : v ∈ f.vars) : v ∈ s.names :=
  mem_names_iff.2 (.inl ⟨f, mem_args_of_mem_formals? hfs hf, hv⟩)

theorem names_rename (ρ : String → String) (s : Signature) :
    (s.rename ρ).names = s.names.map ρ := by
  simp [names, vars, rename, BindingRules.rename, TypeVariable.rename, List.map_flatMap,
    List.flatMap_map, Function.comp_def]

theorem formals?_rename (ρ : String → String) (s : Signature) (n : Nat) :
    (s.rename ρ).formals? n = (s.formals? n).map (List.map (TypeTerm.rename ρ)) := by
  have htail : (s.rename ρ).tail? = s.tail?.map (TypeTerm.rename ρ) := by
    simp only [tail?, rename, List.getLast?_map]
    split <;> rfl
  unfold formals?
  rw [htail]
  cases s.tail? with
  | none => simp [rename, apply_ite]
  | some t => simp [rename, apply_ite, List.map_dropLast]

theorem rename_rename (h : ∀ v ∈ s.names, σ (ρ v) = v) : (s.rename ρ).rename σ = s := by
  simp only [mem_names_iff] at h
  have hargs : (s.args.map (TypeTerm.rename ρ)).map (TypeTerm.rename σ) = s.args :=
    map_map_eq_self fun f hf => TypeTerm.rename_rename fun v hv => h v (.inl ⟨f, hf, hv⟩)
  have hret : (s.ret.rename ρ).rename σ = s.ret :=
    TypeTerm.rename_rename fun v hv => h v (.inr (.inl hv))
  have hvars : (s.rules.vars.map (TypeVariable.rename ρ)).map (TypeVariable.rename σ) =
      s.rules.vars := by
    refine map_map_eq_self fun x hx => ?_
    rw [TypeVariable.rename, TypeVariable.rename, h x.name (.inr (.inr ⟨x, hx, rfl⟩))]
  simp only [rename, BindingRules.rename, hargs, hret, hvars]

section
variable (hρ : Set.InjOn ρ {v | v ∈ s.names})
include hρ

/-- **A renaming that keeps names apart is undone by another one.** -/
theorem exists_rename_rename_eq :
    ∃ σ, Set.InjOn σ {v | v ∈ (s.rename ρ).names} ∧ (s.rename ρ).rename σ = s := by
  have himage : {v | v ∈ (s.rename ρ).names} = ρ '' {v | v ∈ s.names} := by
    ext v
    simp [names_rename]
  refine ⟨Function.invFunOn ρ {v | v ∈ s.names}, ?_, rename_rename hρ.leftInvOn_invFunOn⟩
  rw [himage]
  exact Function.invFunOn_injOn_image ρ _

theorem exists_solve?_rename {a : Assignment} (h : s.solve? m actual = some a) :
    ∃ b, (s.rename ρ).solve? m actual = some b ∧ Renamed ρ {v | v ∈ s.names} a b := by
  obtain ⟨fs, ts, hfs, hts, hsolve⟩ := solve?_eq_some_iff.1 h
  have hrules : ∀ x ∈ s.rules.vars, x.name ∈ s.names := fun x hx =>
    mem_names_iff.2 (.inr (.inr ⟨x, hx, rfl⟩))
  have hterms : ∀ p ∈ fs.zip ts, ∀ v ∈ p.1.vars, v ∈ s.names := fun p hp v hv =>
    mem_names_of_formals? hfs (List.of_mem_zip hp).1 hv
  obtain ⟨b, hb, hab⟩ := BindingRules.exists_solve?_rename hρ hrules hterms hsolve
  have hfs' : (s.rename ρ).formals? actual.length = some (fs.map (TypeTerm.rename ρ)) := by
    rw [formals?_rename, hfs, Option.map_some]
  rw [← List.zip_map_left] at hb
  exact ⟨b, solve?_eq_some_iff.2 ⟨_, ts, hfs', hts, hb⟩, hab⟩

theorem bind?_rename_of_eq_some {b : BoundSignature} (h : s.bind? m actual = some b) :
    (s.rename ρ).bind? m actual = some b := by
  obtain ⟨fs, a, hfs, ha, hret, rfl⟩ := bind?_eq_some_iff.1 h
  obtain ⟨a', ha', haa'⟩ := exists_solve?_rename hρ ha
  have hargs : (fs.map (TypeTerm.rename ρ)).map a'.apply = fs.map a.apply := by
    rw [List.map_map]
    refine List.map_congr_left fun f hf => ?_
    have hclosed : (a.apply f).isOpen = false :=
      Assignment.isOpen_apply_eq_false_iff.2 fun v hv =>
        (isSome_get?_of_solve? hfs ha v).2 ⟨f, hf, hv⟩
    exact haa'.apply_rename_of_isOpen_eq_false (fun v hv => mem_names_of_formals? hfs hf hv) hclosed
  have hret' : a'.apply (s.ret.rename ρ) = a.apply s.ret :=
    haa'.apply_rename_of_isOpen_eq_false (fun v hv => mem_names_iff.2 (.inr (.inl hv))) hret
  refine bind?_eq_some_iff.2 ⟨fs.map (TypeTerm.rename ρ), a', ?_, ha', ?_, ?_⟩
  · rw [formals?_rename, hfs, Option.map_some]
  · rw [rename, hret', hret]
  · rw [hargs]
    simp only [rename, hret']

/-- **Binding does not depend on the names of type variables.** If a signature is renamed in its
terms and its rules, and no two of its names become one, then it is bound to the same arguments with
the same outcome as before. It is solved if it was solved before, and then the variables have under
their new names the types that they had under the old ones. -/
theorem bind?_rename (m : Coercion) (actual : List TypeTerm) :
    (s.rename ρ).bind? m actual = s.bind? m actual ∧
      Option.Rel (Renamed ρ {v | v ∈ s.names}) (s.solve? m actual)
        ((s.rename ρ).solve? m actual) := by
  obtain ⟨σ, hσ, hundo⟩ := exists_rename_rename_eq hρ
  constructor
  · refine Option.ext fun b => ⟨fun h => ?_, bind?_rename_of_eq_some hρ⟩
    rw [← hundo]
    exact bind?_rename_of_eq_some hσ h
  · cases ha : s.solve? m actual with
    | some a =>
      obtain ⟨b, hb, hab⟩ := exists_solve?_rename hρ ha
      rw [hb]
      exact .some hab
    | none =>
      cases hb : (s.rename ρ).solve? m actual with
      | none => exact .none
      | some b =>
        obtain ⟨a, ha', -⟩ := exists_solve?_rename hσ hb
        rw [hundo, ha] at ha'
        cases ha'

end

/-- The signature `search(array(K), K, V):V`, with two rules for `V`. -/
def search : Signature where
  name := { name := "search" }
  args := [.app arrayName [.var "K"], .var "K", .var "V"]
  ret := .var "V"
  rules := { vars := [⟨"K", .any⟩, ⟨"V", .numeric⟩, ⟨"V", .any⟩] }

/-- The names `K` and `V` exchanged. -/
def exchange (v : String) : String :=
  if v = "K" then "V" else if v = "V" then "K" else v

theorem bind?_rename_exchange :
    Set.InjOn exchange {v | v ∈ search.names} ∧
      (search.rename exchange).bind? .promotion
          ([.undefined, .scalar .integer, .scalar .bigint].map SqlType.toTerm) =
        some (.ofTypes search [.array (.scalar .integer), .scalar .integer, .scalar .bigint]
          (.scalar .bigint)) := by
  have hinj : ∀ v ∈ search.names, ∀ w ∈ search.names, exchange v = exchange w → v = w := by decide
  have hinj : Set.InjOn exchange {v | v ∈ search.names} := fun v hv w hw => hinj v hv w hw
  refine ⟨hinj, ?_⟩
  rw [(bind?_rename hinj .promotion _).1]
  decide

end Signature

end Overloading
