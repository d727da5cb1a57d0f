import Overloading.Proofs.Catalog.Calls
import Overloading.Proofs.Resolution.Arity

/-! # Calls of `concat`

The catalog has two overloads of `concat` for texts, one for two arguments and one for any number
(`Catalog.concatFor`), and a third one for two arrays. Arguments that cast to `text` are no arrays,
so the third one takes part only if all arguments are blanks. For any number of arguments but two
the variadic overload is alone; for two arguments both fit, have the same types and give the same
result, and the one that declares more arguments goes first. So the call is resolved to it whatever
the arguments are, at the latest after casts (`Catalog.resolve_concat`). -/

namespace Overloading

namespace Catalog

open Overload (admitsArity IsUniform)

variable {types : List SqlType}

/-- The overload `concat(text, text)`. -/
def concatTwo : Overload :=
  { signature := function .scalar "concat"
      [.arguments [type .text, type .text], .returns (type .text)] }

/-- The overload `concat(text...)`. -/
def concatMany : Overload :=
  { signature := function .scalar "concat"
      [.arguments [type .text], .variadic, .returns (type .text)] }

/-- The overload for `n` texts. -/
def concatFor (n : Nat) : Overload := if n = 2 then concatTwo else concatMany

theorem candidates_concat (p : SearchPath) :
    registry.candidates concatName p = group concatName := by
  have hgroup : registry.builtins.group concatName ≠ [] := by decide +kernel
  exact Registry.candidates_eq_group_of_ne_nil p hgroup

/-! ### The types of the overloads -/

theorem types?_concatMany (n : Nat) :
    concatMany.signature.types? n = some (List.replicate n (.scalar .text)) := by
  have htail : concatMany.signature.tail? = some (type .text) := rfl
  have hargs : concatMany.signature.args = [type .text] := rfl
  rw [Signature.types?_eq_some_iff, List.map_replicate, Signature.formals?, htail, hargs]
  simp [type]

/-- The overload for any number of texts has no rival but for two arguments. -/
theorem filter_admitsArity_concat {n : Nat} (hn : n ≠ 2) :
    (group concatName).filter (admitsArity n) = [concatMany] := by
  have hgroup : group concatName = [concatTwo, concatMany, ⟨scalars[2], .builtin⟩] := by
    decide +kernel
  have hmany : admitsArity n concatMany = true := by
    unfold admitsArity
    rw [Signature.types?_eq_some_iff.1 (types?_concatMany n), Option.isSome_some]
  have hfixed : ∀ o : Overload, o.signature.tail? = none → o.signature.args.length = 2 →
      ¬ admitsArity n o = true := fun o htail htwo => by
    rw [Overload.admitsArity_of_fixed htail, htwo, decide_eq_true_eq]
    exact hn.symm
  rw [hgroup, List.filter_cons_of_neg (hfixed _ rfl rfl), List.filter_cons_of_pos hmany,
    List.filter_cons_of_neg (hfixed _ rfl rfl), List.filter_nil]

theorem isUniform_concatMany (types : List SqlType) :
    IsUniform types.length (types.map fun _ => .scalar .text) [concatMany] := by
  constructor
  · intro o ho
    rw [List.mem_singleton.1 ho]
    decide
  · intro o ho
    rw [List.mem_singleton.1 ho, types?_concatMany, List.map_const']

theorem texts_eq : texts = [concatTwo, concatMany] := by decide +kernel

theorem isUniform_texts : IsUniform 2 [.scalar .text, .scalar .text] texts :=
  ⟨isLadder_texts.plain, fun o ho => (types?_texts o ho).1⟩

/-! ### Calls with texts -/

/-- Only scalar types cast to `text`. -/
theorem exists_scalar_of_castsTo_text {t : SqlType} (h : t.castsTo (.scalar .text) = true) :
    ∃ s, t = .scalar s := by
  cases t with
  | scalar s => exact ⟨s, rfl⟩
  | array e => simp [SqlType.castsTo] at h

theorem select?_concat_of_ne_two
    (hall : List.Forall₂ (fun t e => t.castsTo e = true) types (types.map fun _ => .scalar .text))
    (hn : types.length ≠ 2) :
    Overload.select? types (group concatName) =
      some (concatMany.verbatim ((types.map fun _ => .scalar .text).map SqlType.toTerm)) := by
  have hdrop : ∀ o ∈ group concatName, admitsArity types.length o = false →
      o.signature.bind? .cast (types.map SqlType.toTerm) = none := fun o _ ho =>
    Overload.bind?_eq_none_of_admitsArity (by rwa [List.length_map])
  rw [← Overload.select?_filter hdrop, filter_admitsArity_concat hn]
  exact (isUniform_concatMany types).select?_singleton hall

/-- Two arguments go to the overload that declares two. -/
theorem select?_concat_of_two {t u : SqlType} (ht : t.castsTo (.scalar .text) = true)
    (hu : u.castsTo (.scalar .text) = true) (hblank : [t, u] ≠ [.undefined, .undefined]) :
    Overload.select? [t, u] (group concatName) =
      some (concatTwo.verbatim ([SqlType.scalar .text, .scalar .text].map SqlType.toTerm)) := by
  have hscalar : ∃ s, s ≠ Scalar.undefined ∧ SqlType.scalar s ∈ [t, u] := by
    obtain ⟨s, rfl⟩ := exists_scalar_of_castsTo_text ht
    obtain ⟨s', rfl⟩ := exists_scalar_of_castsTo_text hu
    by_cases hs : s = .undefined
    · refine ⟨s', fun hs' => hblank ?_, by simp⟩
      rw [hs, hs']
    · exact ⟨s, hs, by simp⟩
  have hdrop : ∀ o ∈ group concatName, o.signature.rules.isExact = false →
      o.signature.bind? .cast ([t, u].map SqlType.toTerm) = none := fun o ho hq =>
    bind?_arrays_of_scalar hscalar (List.mem_filter.2 ⟨ho, by simp [hq]⟩)
  rw [← Overload.select?_filter hdrop]
  have huniform : IsUniform [t, u].length [.scalar .text, .scalar .text] texts := isUniform_texts
  have hlonger : concatMany.signature.args.length < concatTwo.signature.args.length := by decide
  exact huniform.select?_of_longer (.cons ht (.cons hu .nil)) (.of_eq texts_eq) hlonger

/-- **`concat` renders arguments as texts.** If all arguments cast to `text` and are not just two
blanks, the call is resolved under every search path, with `text` for each argument and for the
result, to the overload for two texts if there are two arguments and to the one for any number of
texts otherwise. -/
theorem resolve_concat (p : SearchPath) (htext : ∀ t ∈ types, t.castsTo (.scalar .text) = true)
    (hblank : types ≠ [.undefined, .undefined]) :
    registry.resolve concatName types p =
      .ok ((concatFor types.length).instantiate (types.map fun _ => .scalar .text)
        (.scalar .text)) := by
  rw [Registry.resolve_eq_ok_iff, candidates_concat]
  by_cases hn : types.length = 2
  · obtain ⟨t, u, rfl⟩ := List.length_eq_two.1 hn
    exact select?_concat_of_two (htext t (by simp)) (htext u (by simp)) hblank
  · have hall : List.Forall₂ (fun t e => t.castsTo e = true) types
        (types.map fun _ => .scalar .text) :=
      List.forall₂_map_right_iff.2 (List.forall₂_same.2 htext)
    rw [concatFor, if_neg hn]
    exact select?_concat_of_ne_two hall hn

/-- A truth value and a blank under a search path, two blanks with a date between them, and no
argument at all. -/
theorem resolve_concat_mixture :
    registry.resolve concatName [.scalar .boolean, .undefined] (.ofList ["doc"]) =
        .ok (concatTwo.instantiate [.scalar .text, .scalar .text] (.scalar .text)) ∧
      registry.resolve concatName [.undefined, .scalar .date, .undefined] {} =
        .ok (concatMany.instantiate [.scalar .text, .scalar .text, .scalar .text]
          (.scalar .text)) ∧
      registry.resolve concatName [] {} = .ok (concatMany.instantiate [] (.scalar .text)) :=
  ⟨resolve_concat (.ofList ["doc"]) (by decide) (by decide),
    resolve_concat {} (by decide) (by decide), resolve_concat {} (by simp) (by decide)⟩

example : (concatFor 2).signature.render = "concat(text, text):text" ∧
    (concatFor 3).signature.render = "concat(text...):text" := by
  decide +kernel

/-- Two blanks are the one exception: they become arrays. -/
example : registry.resolve concatName [.undefined, .undefined] {} =
    .ok ((Overload.mk scalars[2] .builtin).instantiate [.array .undefined, .array .undefined]
      (.array .undefined)) := by
  decide +kernel

end Catalog

end Overloading
