import Overloading.Proofs.Binding.Soundness

/-! # Signatures without type variables

The terms of a signature without type variables name types, one for each argument of a call
(`Signature.types?`), and such terms meet the types of the arguments without giving types to
anything (`BindingRules.solve?_of_closed`). So the signature fits a call if every argument coerces
to the type in its place, and what it becomes there depends on the number of the arguments only
(`Signature.bind?_eq_some_iff_of_types?`). -/

namespace Overloading

namespace BindingRules

variable {r : BindingRules} {m : Coercion} {ps : List (TypeTerm × SqlType)} {a : Assignment}

/-- Terms without variables that accept their types are met without a trace. -/
theorem unifyAll_of_closed (hc : ∀ p ∈ ps, p.1.isOpen = false)
    (hfit : ∀ p ∈ ps, p.2.fits m p.1 = true) : r.unifyAll m ps a = some a := by
  induction ps with
  | nil => rfl
  | cons p ps ih =>
    obtain ⟨f, t⟩ := p
    rw [List.forall_mem_cons] at hc hfit
    have hstep : r.Unifies m f t a a := by
      cases f with
      | var v => cases hc.1
      | app n fs => exact .closed hc.1 hfit.1
    exact unifyAll_cons_eq_some_iff.2 ⟨a, hstep, ih hc.2 hfit.2⟩

theorem solve?_of_closed (hc : ∀ p ∈ ps, p.1.isOpen = false)
    (hfit : ∀ p ∈ ps, p.2.fits m p.1 = true) : r.solve? m ps = some ∅ := by
  refine solve?_eq_some_iff.2 ⟨unifyAll_of_closed hc hfit, fun p hp => ?_⟩
  rw [Assignment.apply_of_isOpen_eq_false (hc p hp)]
  exact hfit p hp

end BindingRules

namespace Signature

variable {s : Signature} {m : Coercion} {n : Nat} {actual : List TypeTerm} {b : BoundSignature}
  {ts es : List SqlType}

/-- The types for the arguments of a call with `n` arguments, if the signature admits that many and
its terms name types. -/
def types? (s : Signature) (n : Nat) : Option (List SqlType) := (s.formals? n).bind TypeTerm.types?

theorem types?_eq_some_iff :
    s.types? n = some es ↔ s.formals? n = some (es.map SqlType.toTerm) := by
  unfold types?
  rw [Option.bind_eq_some_iff]
  simp only [TypeTerm.types?_eq_some_iff, exists_eq_right]

theorem map_apply_toTerm (a : Assignment) (es : List SqlType) :
    (es.map SqlType.toTerm).map a.apply = es.map SqlType.toTerm := by
  rw [List.map_map]
  exact List.map_congr_left fun e _ => Assignment.apply_of_isOpen_eq_false e.isOpen_toTerm

/-- A signature is bound to the types that its terms name. -/
theorem args_of_types? (h : s.types? actual.length = some es) (hb : s.bind? m actual = some b) :
    b.args = es.map SqlType.toTerm := by
  obtain ⟨fs, a, hfs, -, -, rfl⟩ := bind?_eq_some_iff.1 hb
  obtain rfl : fs = es.map SqlType.toTerm :=
    Option.some.inj (hfs.symm.trans (types?_eq_some_iff.1 h))
  exact map_apply_toTerm a es

theorem forall_mem_zip_iff {R : TypeTerm → SqlType → Prop} :
    ∀ {ts es : List SqlType}, ts.length = es.length →
      ((∀ p ∈ (es.map SqlType.toTerm).zip ts, R p.1 p.2) ↔
        List.Forall₂ (fun t e => R e.toTerm t) ts es)
  | [], [], _ => by simp
  | t :: ts, e :: es, hlen => by
    have ih := forall_mem_zip_iff (R := R) (Nat.succ.inj hlen)
    rw [List.map_cons, List.zip_cons_cons, List.forall_mem_cons, ih, List.forall₂_cons]

/-- **A signature without type variables fits if every argument coerces to the type in its place.**
It becomes the types that it declares and the result that it declares. -/
theorem bind?_eq_some_iff_of_types? (h : s.types? ts.length = some es)
    (hret : s.ret.isOpen = false) :
    s.bind? m (ts.map SqlType.toTerm) = some b ↔
      List.Forall₂ (fun t e => t.coercesTo m e = true) ts es ∧
        b = ⟨s.name, s.kind, es.map SqlType.toTerm, s.ret⟩ := by
  have hfs : s.formals? (ts.map SqlType.toTerm).length = some (es.map SqlType.toTerm) := by
    rw [List.length_map]
    exact types?_eq_some_iff.1 h
  have hlen : ts.length = es.length := by
    have hformals := length_formals? hfs
    rwa [List.length_map, List.length_map, eq_comm] at hformals
  have hfit : (∀ p ∈ (es.map SqlType.toTerm).zip ts, p.2.fits m p.1 = true) ↔
      List.Forall₂ (fun t e => t.coercesTo m e = true) ts es := by
    rw [forall_mem_zip_iff (R := fun f t => t.fits m f = true) hlen]
    simp only [SqlType.fits, TypeTerm.denote_toTerm]
  have hclosed : ∀ p ∈ (es.map SqlType.toTerm).zip ts, p.1.isOpen = false := by
    intro p hp
    obtain ⟨e, -, he⟩ := List.mem_map.1 (List.of_mem_zip hp).1
    rw [← he, e.isOpen_toTerm]
  have happly : ∀ a : Assignment, a.apply s.ret = s.ret := fun a =>
    Assignment.apply_of_isOpen_eq_false hret
  constructor
  · intro hb
    obtain ⟨fs, a, hfs', ha, -, rfl⟩ := bind?_eq_some_iff.1 hb
    obtain ⟨fs', hfs'', hsolve⟩ :=
      (solve?_eq_some_iff_of_types (TypeTerm.types?_map_toTerm ts)).1 ha
    obtain rfl : fs = es.map SqlType.toTerm := Option.some.inj (hfs'.symm.trans hfs)
    obtain rfl : fs' = es.map SqlType.toTerm := Option.some.inj (hfs''.symm.trans hfs)
    refine ⟨hfit.1 fun p hp => ?_, by rw [map_apply_toTerm, happly]⟩
    have hmet := (BindingRules.solve?_eq_some_iff.1 hsolve).2 p hp
    rwa [Assignment.apply_of_isOpen_eq_false (hclosed p hp)] at hmet
  · rintro ⟨hall, rfl⟩
    have hsolve : s.solve? m (ts.map SqlType.toTerm) = some ∅ :=
      (solve?_eq_some_iff_of_types (TypeTerm.types?_map_toTerm ts)).2
        ⟨es.map SqlType.toTerm, hfs, BindingRules.solve?_of_closed hclosed (hfit.2 hall)⟩
    exact bind?_eq_some_iff.2 ⟨es.map SqlType.toTerm, ∅, hfs, hsolve, by rw [happly, hret],
      by rw [map_apply_toTerm, happly]⟩

/-- What fits a call fits it with the types that it names only, so another signature that names the
same types fits it too. -/
theorem bind?_of_same_types {s' : Signature} {m' : Coercion} {ts' : List SqlType}
    {b' : BoundSignature} (h : s.types? ts.length = some es) (h' : s'.types? ts.length = some es)
    (hret : s.ret.isOpen = false) (hret' : s'.ret.isOpen = false) (hlen : ts'.length = ts.length)
    (hb : s.bind? m (ts.map SqlType.toTerm) = some b)
    (hb' : s'.bind? m' (ts'.map SqlType.toTerm) = some b') :
    s'.bind? m (ts.map SqlType.toTerm) = some b' := by
  have hall := ((bind?_eq_some_iff_of_types? h hret).1 hb).1
  have hbound := ((bind?_eq_some_iff_of_types? (hlen ▸ h') hret').1 hb').2
  exact (bind?_eq_some_iff_of_types? h' hret').2 ⟨hall, hbound⟩

end Signature

end Overloading
