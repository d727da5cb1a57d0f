import Overloading.Proofs.Binding.Substitution
import Overloading.Proofs.TypeTerm.RoundTrip

/-! # Terms and texts of types

A type has one term, and whatever is wrong with another term (a variable in it, a name that is not
known, parameters where none belong, an array without its element type), it names no type
(`TypeTerm.denote_eq_ok_iff`). A type has one text too, which is the written form of its term
(`SqlType.render_toTerm`). The names that types are made of are names of the grammar and none of
them consists of the letters `A` to `Z` (`Scalar.isName_name`, `Scalar.not_isUpper_name`), so the
term of a type is well-formed at every depth of arrays (`SqlType.wellFormed_toTerm`). So its text is
read back, and no two types share one (`SqlType.render_injective`). -/

namespace Overloading

/-- The name of a scalar type is a name of the grammar, even where blanks stand in it. -/
theorem Scalar.isName_name (s : Scalar) : Token.IsName s.name.toList := by
  cases s <;> decide +kernel

theorem Scalar.not_isUpper_name (s : Scalar) : ¬ TypeTerm.IsUpper s.name := by
  cases s <;> decide +kernel

theorem isName_arrayName : Token.IsName arrayName.toList := by decide +kernel

namespace SqlType

variable {d e : SqlType}

/-- **The term of a type is well-formed.** -/
theorem wellFormed_toTerm (d : SqlType) : d.toTerm.WellFormed := by
  induction d with
  | scalar s => exact .app s.isName_name (fun _ => s.not_isUpper_name) (List.forall_mem_nil _)
  | array t ih =>
    have hparams : ∀ p ∈ [t.toTerm], p.WellFormed := List.forall_mem_singleton.2 ih
    exact .app isName_arrayName (fun h => absurd h (List.cons_ne_nil _ _)) hparams

/-- The text of a type is read as its term. -/
theorem parse_render (d : SqlType) : TypeTerm.parse d.render = .ok d.toTerm := by
  rw [← render_toTerm]
  exact d.wellFormed_toTerm.parse_render

/-- **No two types share a text.** -/
theorem render_injective (h : d.render = e.render) : d = e := by
  have hparse : Except.ok d.toTerm = Except.ok (ε := TypeError) e.toTerm := by
    rw [← parse_render d, h, parse_render e]
  exact toTerm_injective (Except.ok.inj hparse)

end SqlType

namespace TypeTerm

/-- **Types, their terms and their texts correspond one to one.** A term names a type exactly if it
is the term of that type. The text of a type is the written form of its term and is read as this
term, and no other type has it. -/
theorem denote_eq_ok_iff_and_parse_render :
    (∀ (t : TypeTerm) (d : SqlType), t.denote = .ok d ↔ t = d.toTerm) ∧
      ∀ d : SqlType, d.render = d.toTerm.render ∧ parse d.render = .ok d.toTerm ∧
        ∀ e : SqlType, e.render = d.render ↔ e = d := by
  refine ⟨fun t d => denote_eq_ok_iff, fun d => ?_⟩
  have htext : d.render = d.toTerm.render := d.render_toTerm.symm
  have hread : parse d.render = .ok d.toTerm := d.parse_render
  have hsame : ∀ e : SqlType, e.render = d.render ↔ e = d := fun e =>
    ⟨SqlType.render_injective, congrArg SqlType.render⟩
  exact ⟨htext, hread, hsame⟩

end TypeTerm

end Overloading
