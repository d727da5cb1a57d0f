import Overloading.Binding.Assignment
import Overloading.Signature.Bound
import Overloading.SqlType.Coercion

/-! # Binding a signature to arguments

A signature is bound to a call by giving types to its variables. The argument terms meet the types
of the arguments from left to right (`unify`): a variable takes the type that it meets, or one that
serves both this and the one it holds; a term without variables accepts what coerces to its type; an
array term passes on to the elements. A variable may move to another type after it has met an
argument, so at the end every argument is checked again (`solve?`). `Signature.bind?` puts the types
that were found into the signature. -/

namespace Overloading

/-- Whether a value of type `t` is accepted where the term is expected. -/
def SqlType.fits (m : Coercion) (t : SqlType) (target : TypeTerm) : Bool :=
  match target.denote with
  | .ok d => t.coercesTo m d
  | .error _ => false

theorem SqlType.fits_iff {m : Coercion} {t : SqlType} {target : TypeTerm} :
    t.fits m target = true ↔ ∃ d, target = d.toTerm ∧ t.coercesTo m d = true := by
  unfold fits
  constructor
  · intro h
    split at h
    · rename_i d hd
      exact ⟨d, TypeTerm.denote_eq_ok_iff.1 hd, h⟩
    · cases h
  · rintro ⟨d, rfl, h⟩
    rw [TypeTerm.denote_toTerm]
    exact h

/-- The types that the terms name, if each of them names one. -/
def TypeTerm.types? (ts : List TypeTerm) : Option (List SqlType) :=
  ts.mapM fun t => t.denote.toOption

@[simp] theorem TypeTerm.types?_map_toTerm (ds : List SqlType) :
    types? (ds.map SqlType.toTerm) = some ds := by
  induction ds with
  | nil => rfl
  | cons d ds ih =>
    rw [types?] at ih
    rw [types?, List.map_cons, List.mapM_cons, ih, denote_toTerm]
    rfl

namespace BindingRules

/-- The variable `v` meets the type `t`. -/
def meet (r : BindingRules) (m : Coercion) (v : String) (t : SqlType) (a : Assignment) :
    Option Assignment :=
  if r.admits v t then
    match a.get? v with
    | none => some (a.set v t)
    | some held => (m.join held t).map (a.set v)
  else none

/-- The argument term meets the type of an argument. A literal without a type meets every parameter
of an open term, so it gives `undefined` to the variables that have no type yet. -/
def unify (r : BindingRules) (m : Coercion) : TypeTerm → SqlType → Assignment → Option Assignment
  | .var v, t, a => r.meet m v t a
  | .app n ps, t, a =>
    if (TypeTerm.app n ps).isOpen then
      match t with
      | .scalar s =>
        if s = .undefined && m.converts then some (a.fill (TypeTerm.app n ps).vars) else none
      | .array e =>
        match ps with
        | [p] => if n = arrayName then r.unify m p e a else none
        | _ => none
    else if t.fits m (.app n ps) then some a else none

/-- The argument terms meet the types of the arguments, from left to right. -/
def unifyAll (r : BindingRules) (m : Coercion) (pairs : List (TypeTerm × SqlType))
    (a : Assignment) : Option Assignment :=
  pairs.foldlM (fun a p => r.unify m p.1 p.2 a) a

/-- The types for the variables under which every argument is accepted by its term. -/
def solve? (r : BindingRules) (m : Coercion) (pairs : List (TypeTerm × SqlType)) :
    Option Assignment :=
  (r.unifyAll m pairs ∅).filter fun a => pairs.all fun p => p.2.fits m (a.apply p.1)

end BindingRules

namespace Signature

/-- The types for the variables of the argument terms at a call with these arguments. -/
def solve? (s : Signature) (m : Coercion) (actual : List TypeTerm) : Option Assignment :=
  (s.formals? actual.length).bind fun formals =>
    (TypeTerm.types? actual).bind fun types => s.rules.solve? m (formals.zip types)

/-- The signature at a call with these arguments; none if the result is left with a variable. The
rules are taken as they come, as where assertions are switched off: a variable that none of them is
for may stand for any type. Declared signatures have a rule for each of their variables. -/
def bind? (s : Signature) (m : Coercion) (actual : List TypeTerm) : Option BoundSignature :=
  (s.formals? actual.length).bind fun formals =>
    (s.solve? m actual).bind fun a =>
      if (a.apply s.ret).isOpen then none
      else some ⟨s.name, s.kind, formals.map a.apply, a.apply s.ret⟩

end Signature

end Overloading
