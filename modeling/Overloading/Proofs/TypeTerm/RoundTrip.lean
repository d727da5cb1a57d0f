import Overloading.Proofs.TypeTerm.Grammar
import Overloading.TypeTerm.Printer

/-! # Printing and parsing type terms

The written form of a term can be read back only if its names survive it: each has to be a name of
the grammar, and one without parameters has to be a variable exactly if its letters say so
(`WellFormed`). The written form of a well-formed term writes that term (`WellFormed.derives`), and
a text writes well-formed terms only (`Derives.wellFormed`). So printing and parsing are inverse on
the well-formed terms and on no others (`parse_render_eq_ok_iff`). -/

namespace Overloading

open Text (AllBlank)

namespace TypeTerm

/-- The name consists of the letters `A` to `Z`. -/
def IsUpper (n : String) : Prop := ∀ c ∈ n.toList, c.isUpper = true

instance (n : String) : Decidable (IsUpper n) :=
  decidable_of_iff (n.toList.all Char.isUpper = true) List.all_eq_true

/-- A term is well-formed if its names are names of the grammar, its variables consist of the letters
`A` to `Z`, and no name without parameters does so but a variable. -/
inductive WellFormed : TypeTerm → Prop
  | var {v : String} : Token.IsName v.toList → IsUpper v → WellFormed (var v)
  | app {n : String} {ps : List TypeTerm} : Token.IsName n.toList → (ps = [] → ¬ IsUpper n) →
      (∀ p ∈ ps, WellFormed p) → WellFormed (app n ps)

variable {cs l : List Char} {t : TypeTerm} {ps : List TypeTerm} {n : String}

theorem ofName_of_isUpper (h : IsUpper n) : ofName n = var n :=
  if_pos (List.all_eq_true.2 h)

theorem ofName_of_not_isUpper (h : ¬ IsUpper n) : ofName n = base n :=
  if_neg fun hall => h (List.all_eq_true.1 hall)

/-! ### What is written can be read -/

theorem Derives.append_blank (hl : AllBlank l) (h : Derives cs t) : Derives (l ++ cs) t := by
  cases h with
  | name hl' hn hr => simpa using Derives.name (hl.append hl') hn hr
  | app hl' hn hm hps hr => simpa using Derives.app (hl.append hl') hn hm hps hr

theorem DerivesAll.append_blank (hl : AllBlank l) (h : DerivesAll cs ps) :
    DerivesAll (l ++ cs) ps := by
  cases h with
  | one h => exact .one (h.append_blank hl)
  | cons h hs =>
    rw [← List.append_assoc]
    exact .cons (h.append_blank hl) hs

theorem derives_ofName (hn : Token.IsName n.toList) : Derives n.toList (ofName n) := by
  have h := Derives.name (l := []) (r := []) (List.forall_mem_nil _) hn (List.forall_mem_nil _)
  rwa [List.nil_append, List.append_nil, String.ofList_toList] at h

/-- Terms that are written with a comma and blanks between two of them. -/
theorem derivesAll_intercalate (hl : AllBlank l) (hne : ps ≠ [])
    (hps : ∀ p ∈ ps, Derives p.render.toList p) :
    DerivesAll (List.intercalate (',' :: l) (ps.map fun p => p.render.toList)) ps := by
  induction ps with
  | nil => exact absurd rfl hne
  | cons p ps ih =>
    rw [List.forall_mem_cons] at hps
    cases ps with
    | nil => exact .one (by simpa using hps.1)
    | cons q qs =>
      have hrest := (ih (by simp) hps.2).append_blank hl
      simpa [List.intercalate_cons_cons] using DerivesAll.cons hps.1 hrest

/-- **The written form of a well-formed term writes the term.** -/
theorem WellFormed.derives (ht : t.WellFormed) : Derives t.render.toList t := by
  induction ht with
  | var hn hupper =>
    have hderives := derives_ofName hn
    rwa [ofName_of_isUpper hupper] at hderives
  | @app n ps hn hupper _ ih =>
    by_cases hps : ps = []
    · subst hps
      have hderives := derives_ofName hn
      rwa [ofName_of_not_isUpper (hupper rfl)] at hderives
    · have hblank : AllBlank [] := List.forall_mem_nil _
      have hspace : AllBlank [' '] := List.forall_mem_singleton.2 (by decide)
      have h := Derives.app hblank hn hblank (derivesAll_intercalate hspace hps ih) hblank
      rw [String.ofList_toList] at h
      rw [render_app n hps]
      simpa [String.toList_intercalate, Function.comp_def] using h

/-! ### What is read can be written -/

theorem wellFormed_ofName (hn : Token.IsName n.toList) : (ofName n).WellFormed := by
  by_cases h : IsUpper n
  · rw [ofName_of_isUpper h]
    exact .var hn h
  · rw [ofName_of_not_isUpper h]
    exact .app hn (fun _ => h) (List.forall_mem_nil _)

mutual

/-- **A text writes well-formed terms only.** -/
theorem Derives.wellFormed {cs : List Char} {t : TypeTerm} : Derives cs t → t.WellFormed
  | .name _ hn _ => wellFormed_ofName (by rwa [String.toList_ofList])
  | .app _ hn _ hps _ =>
    .app (by rwa [String.toList_ofList]) (fun h => absurd h hps.ne_nil) hps.wellFormed

theorem DerivesAll.wellFormed {cs : List Char} {ps : List TypeTerm} :
    DerivesAll cs ps → ∀ p ∈ ps, p.WellFormed
  | .one h => List.forall_mem_cons.2 ⟨h.wellFormed, List.forall_mem_nil _⟩
  | .cons h hs => List.forall_mem_cons.2 ⟨h.wellFormed, hs.wellFormed⟩

end

theorem wellFormed_of_parse {s : String} (h : parse s = .ok t) : t.WellFormed :=
  (parse_eq_ok_iff.1 h).wellFormed

theorem WellFormed.parse_render (ht : t.WellFormed) : parse t.render = .ok t :=
  parse_eq_ok_iff.2 ht.derives

/-- **Printing and parsing are inverse on the well-formed terms and on no others.** A term is the one
that is read from its written form exactly if it is well-formed. Whatever is read from any text is
well-formed, so it is read again from its own written form. -/
theorem parse_render_eq_ok_iff (t : TypeTerm) :
    (parse t.render = .ok t ↔ t.WellFormed) ∧
      ∀ s : String, parse s = .ok t → t.WellFormed ∧ parse t.render = .ok t := by
  refine ⟨⟨wellFormed_of_parse, WellFormed.parse_render⟩, fun s h => ?_⟩
  have hwell : t.WellFormed := wellFormed_of_parse h
  exact ⟨hwell, hwell.parse_render⟩

/-- Blanks are lost in a round trip and the term is kept; a type named `E` comes back as a
variable. -/
theorem parse_render_eq_ok_iff_map :
    parse " map( E,double precision )" = .ok (app "map" [var "E", base "double precision"]) ∧
      parse "map(E, double precision)" = .ok (app "map" [var "E", base "double precision"]) ∧
      (app "map" [var "E", base "double precision"]).WellFormed ∧
      parse (base "E").render ≠ .ok (base "E") ∧ ¬ (base "E").WellFormed := by
  have hread : parse " map( E,double precision )" =
      .ok (app "map" [var "E", base "double precision"]) := by decide +kernel
  obtain ⟨hwell, hagain⟩ := (parse_render_eq_ok_iff _).2 _ hread
  have hbase : parse (base "E").render ≠ .ok (base "E") := by decide +kernel
  exact ⟨hread, hagain, hwell, hbase, fun h => hbase ((parse_render_eq_ok_iff _).1.2 h)⟩

end TypeTerm

end Overloading
