import Overloading.Proofs.Resolution.Ladder

/-! # Calls of catalog functions

The catalog settles every call. Of most names at most one overload admits any given number of
arguments, and the others are ladders (`Catalog.few_or_ladder`); with four arguments or more only
variadic overloads are left, and no name has two of these (`Catalog.few_of_four_le`).

The exception is `concat` with two arguments, which admits texts, any number of texts, and arrays.
There the arguments keep the texts and the arrays apart: what is neither an array nor a blank goes
into no array, and an array becomes no text. Two blanks fit all three, and the arrays are taken
because they are written first (`Catalog.settled_concat`).

So a call of a catalog function is resolved whenever it fits any of its candidates
(`Catalog.exists_resolve_iff_exists_fits`), and once its arguments are coerced it is resolved to the
same (`Catalog.resolve_bound_args`). -/

namespace Overloading

namespace Catalog

open Overload (Settled IsLadder admitsArity)

/-- The overloads of a name. -/
abbrev group (n : FunctionName) : List Overload := registry.builtins.group n

/-- A call chooses among the overloads of one name of the catalog, or finds none. -/
theorem candidates_eq (n : FunctionName) (p : SearchPath) :
    registry.candidates n p = [] ∨
      ∃ o ∈ registry.builtins.overloads, registry.candidates n p = group o.name := by
  rw [Registry.candidates_eq]
  split
  · exact Or.inl (Table.candidates_eq_nil_iff.2 fun k _ => rfl)
  · rename_i hne
    obtain ⟨k, hk⟩ := Table.exists_candidates_eq_group hne
    obtain ⟨o, ho⟩ := List.exists_mem_of_ne_nil _ (hk ▸ hne)
    obtain ⟨hmem, rfl⟩ := Table.mem_group.1 ho
    exact Or.inr ⟨o, hmem, hk⟩

/-! ### Numbers of arguments -/

/-- `concat`, the one name whose overloads compete in more than one way. -/
def concatName : FunctionName := { name := "concat" }

/-- Up to three arguments at most one overload of a name counts, or those that count form a
ladder. -/
theorem few_or_ladder : ∀ o ∈ registry.builtins.overloads, ∀ n < 4,
    o.name = concatName ∧ n = 2 ∨ ((group o.name).filter (admitsArity n)).length ≤ 1 ∨
      IsLadder n ((group o.name).filter (admitsArity n)) := by
  decide +kernel

/-- From four arguments on at most one overload of a name counts. -/
theorem few_of_four_le {o : Overload} (ho : o ∈ registry.builtins.overloads) {n : Nat}
    (hn : 4 ≤ n) : ((group o.name).filter (admitsArity n)).length ≤ 1 := by
  have hfour : ∀ o ∈ registry.builtins.overloads, o.signature.args.length < 4 ∧
      ((group o.name).filter (admitsArity 4)).length ≤ 1 := by
    decide +kernel
  have hsame : (group o.name).filter (admitsArity n) = (group o.name).filter (admitsArity 4) := by
    refine List.filter_congr fun o' ho' => ?_
    have hlt : o'.signature.args.length < 4 := (hfour o' (Table.mem_group.1 ho').1).1
    rw [Overload.admitsArity_of_lt (hlt.trans_le hn), Overload.admitsArity_of_lt hlt]
  rw [hsame]
  exact (hfour o ho).2

/-! ### Two arguments of `concat` -/

section Concat

variable {t u : SqlType} {o : Overload} {m : Coercion}

/-- The overloads for texts. -/
def texts : List Overload := (group concatName).filter (·.signature.rules.isExact)

/-- The overloads for arrays. -/
def arrays : List Overload := (group concatName).filter fun o => !o.signature.rules.isExact

theorem types?_texts : ∀ o ∈ texts, o.signature.types? 2 = some [.scalar .text, .scalar .text] ∧
    o.signature.ret.isOpen = false := by
  decide +kernel

theorem isLadder_texts : IsLadder 2 texts := by decide +kernel

theorem arrays_eq : arrays = [⟨scalars[2], .builtin⟩] := by decide +kernel

/-- What goes into texts casts to `text`. -/
theorem castsTo_of_bind?_texts (ho : o ∈ texts) {b : BoundSignature}
    (h : o.signature.bind? .cast ([t, u].map SqlType.toTerm) = some b) :
    ∀ x ∈ [t, u], x.castsTo (.scalar .text) = true := by
  obtain ⟨htypes, hret⟩ := types?_texts o ho
  have hall := ((Signature.bind?_eq_some_iff_of_types? htypes hret).1 h).1
  rw [List.forall₂_cons, List.forall₂_cons] at hall
  have ht : t.castsTo (.scalar .text) = true := hall.1
  have hu : u.castsTo (.scalar .text) = true := hall.2.1
  simp [ht, hu]

/-- What goes into arrays becomes two arrays. -/
theorem exists_arrays_of_bind?_arrays (ho : o ∈ arrays) {b : BoundSignature}
    (h : o.signature.bind? m ([t, u].map SqlType.toTerm) = some b) :
    ∃ d e : SqlType, b.args = [SqlType.array d, .array e].map SqlType.toTerm ∧
      t.coercesTo m (.array d) = true ∧ u.coercesTo m (.array e) = true := by
  rw [arrays_eq, List.mem_singleton] at ho
  subst ho
  obtain ⟨ts, ds, hts, hargs, hall⟩ := Signature.exists_forall₂_of_bind? h
  obtain rfl := SqlType.map_toTerm_injective hts
  obtain ⟨fs, a, hfs, -, -, rfl⟩ := Signature.bind?_eq_some_iff.1 h
  have hformals : scalars[2].formals? 2 = some [arrayOf (.var "E"), arrayOf (.var "E")] := by
    decide
  obtain rfl := Option.some.inj (hfs.symm.trans hformals)
  match ds, hall with
  | [d, e], .cons htd (.cons hue .nil) =>
    have hboth : a.apply (arrayOf (.var "E")) = d.toTerm ∧
        a.apply (arrayOf (.var "E")) = e.toTerm := by
      simpa only [List.map_cons, List.map_nil, List.cons.injEq, and_true] using hargs
    obtain ⟨-, d, -, -, rfl, -⟩ := Assignment.apply_app_eq_toTerm rfl hboth.1
    obtain ⟨-, e, -, -, rfl, -⟩ := Assignment.apply_app_eq_toTerm rfl hboth.2
    exact ⟨d, e, hargs, htd, hue⟩

/-- An array becomes no text. -/
theorem bind?_texts_of_array (h : ∃ e, SqlType.array e ∈ [t, u]) (ho : o ∈ texts) :
    o.signature.bind? .cast ([t, u].map SqlType.toTerm) = none := by
  refine Option.eq_none_iff_forall_ne_some.2 fun b hb => ?_
  obtain ⟨e, he⟩ := h
  have hcast := castsTo_of_bind?_texts ho hb _ he
  simp [SqlType.castsTo] at hcast

/-- What is neither an array nor a blank goes into no array. -/
theorem bind?_arrays_of_scalar (h : ∃ s, s ≠ Scalar.undefined ∧ SqlType.scalar s ∈ [t, u])
    (ho : o ∈ arrays) : o.signature.bind? .cast ([t, u].map SqlType.toTerm) = none := by
  refine Option.eq_none_iff_forall_ne_some.2 fun b hb => ?_
  obtain ⟨s, hs, hmem⟩ := h
  obtain ⟨d, e, -, ht, hu⟩ := exists_arrays_of_bind?_arrays ho hb
  simp only [List.mem_cons, List.not_mem_nil, or_false] at hmem
  rcases hmem with rfl | rfl
  · exact hs (of_decide_eq_true ht)
  · exact hs (of_decide_eq_true hu)

theorem settled_concat_of_array (h : ∃ e, SqlType.array e ∈ [t, u]) :
    Settled (group concatName) [t, u] := by
  have hrest : ∀ o ∈ group concatName, (!o.signature.rules.isExact) = false → o ∈ texts :=
    fun o ho hq => List.mem_filter.2 ⟨ho, by simpa using hq⟩
  have hsettled : Settled arrays [t, u] := by
    rw [arrays_eq]
    exact Overload.settled_singleton _ _
  refine hsettled.of_filter (fun o ho hq => bind?_texts_of_array h (hrest o ho hq)) ?_
  intro i hi ds hds o ho hq
  obtain ⟨tier, -, hbest⟩ := Overload.exists_isBest_of_select? hi
  obtain ⟨d, e, hargs, -, -⟩ := exists_arrays_of_bind?_arrays hbest.mem hbest.bound
  obtain rfl := SqlType.map_toTerm_injective (hds.symm.trans hargs)
  exact bind?_texts_of_array ⟨d, List.mem_cons_self⟩ (hrest o ho hq)

theorem settled_concat_of_scalar (h : ∃ s, s ≠ Scalar.undefined ∧ SqlType.scalar s ∈ [t, u]) :
    Settled (group concatName) [t, u] := by
  have hrest : ∀ o ∈ group concatName, o.signature.rules.isExact = false → o ∈ arrays :=
    fun o ho hq => List.mem_filter.2 ⟨ho, by simp [hq]⟩
  have hsettled : Settled texts [t, u] := Overload.settled_of_isLadder isLadder_texts
  refine hsettled.of_filter (fun o ho hq => bind?_arrays_of_scalar h (hrest o ho hq)) ?_
  intro i hi ds hds o ho hq
  obtain ⟨tier, -, hbest⟩ := Overload.exists_isBest_of_select? hi
  have hargs := Signature.args_of_types? (types?_texts _ hbest.mem).1 hbest.bound
  obtain rfl := SqlType.map_toTerm_injective (hds.symm.trans hargs)
  exact bind?_arrays_of_scalar ⟨.text, by decide, List.mem_cons_self⟩ (hrest o ho hq)

/-- Two blanks become arrays, and these stay arrays. -/
theorem settled_concat_blanks : Settled (group concatName) [.undefined, .undefined] := by
  have hselect : ∀ types ∈
      [[SqlType.undefined, .undefined], [.array .undefined, .array .undefined]],
      Overload.select? types (group concatName) =
        some ((Overload.mk scalars[2] .builtin).instantiate [.array .undefined, .array .undefined]
          (.array .undefined)) := by
    decide +kernel
  refine ⟨fun _ => ⟨_, hselect _ List.mem_cons_self⟩, fun i hi ds hds => ?_⟩
  obtain rfl := Option.some.inj ((hselect _ List.mem_cons_self).symm.trans hi)
  obtain rfl := SqlType.map_toTerm_injective hds
  exact hselect _ (List.mem_cons_of_mem _ List.mem_cons_self)

/-- **Texts and arrays do not compete,** but for two blanks. -/
theorem settled_concat (t u : SqlType) : Settled (group concatName) [t, u] := by
  by_cases harray : ∃ e, SqlType.array e ∈ [t, u]
  · exact settled_concat_of_array harray
  by_cases hscalar : ∃ s, s ≠ Scalar.undefined ∧ SqlType.scalar s ∈ [t, u]
  · exact settled_concat_of_scalar hscalar
  have hblank : ∀ x ∈ [t, u], x = .undefined := by
    intro x hx
    cases x with
    | array e => exact absurd ⟨e, hx⟩ harray
    | scalar s => exact congrArg SqlType.scalar (by_contra fun hs => hscalar ⟨s, hs, hx⟩)
  rw [hblank t (by simp), hblank u (by simp)]
  exact settled_concat_blanks

end Concat

/-! ### All calls -/

theorem settled_group {o : Overload} (ho : o ∈ registry.builtins.overloads)
    (types : List SqlType) : Settled (group o.name) types := by
  rcases Nat.lt_or_ge types.length 4 with hn | hn
  · rcases few_or_ladder o ho types.length hn with ⟨hname, htwo⟩ | hfew | hladder
    · obtain ⟨t, u, rfl⟩ := List.length_eq_two.1 htwo
      rw [hname]
      exact settled_concat t u
    · exact (Overload.settled_of_length_le_one hfew types).of_admitting
    · exact (Overload.settled_of_isLadder hladder).of_admitting
  · exact (Overload.settled_of_length_le_one (few_of_four_le ho hn) types).of_admitting

/-- **The catalog settles every call.** -/
theorem settled_candidates (n : FunctionName) (p : SearchPath) (types : List SqlType) :
    Settled (registry.candidates n p) types := by
  rcases candidates_eq n p with hnil | ⟨o, ho, hgroup⟩
  · rw [hnil]
    exact Overload.settled_nil types
  · rw [hgroup]
    exact settled_group ho types

variable {n : FunctionName} {types : List SqlType} {p : SearchPath} {i : Instantiation}

/-- **The catalog is never ambiguous.** A call of a catalog function is resolved exactly if one of
its candidates takes the arguments as they are, or admits coercion and takes them with casts. -/
theorem exists_resolve_iff_exists_fits (n : FunctionName) (types : List SqlType) (p : SearchPath) :
    (∃ i, registry.resolve n types p = .ok i) ↔ ∃ o ∈ registry.candidates n p, o.Fits types := by
  simp only [Registry.resolve_eq_ok_iff]
  constructor
  · rintro ⟨i, hi⟩
    exact ⟨i.overload, Overload.fits_of_select? hi⟩
  · intro h
    exact (settled_candidates n p types).decided h

/-- Two blanks fit as texts and as arrays, and the arrays are taken. -/
example : registry.resolve { name := "concat" } [.undefined, .undefined] {} =
    .ok ((Overload.mk scalars[2] .builtin).instantiate [.array .undefined, .array .undefined]
      (.array .undefined)) := by
  decide +kernel

/-- A text and an array fit neither as texts nor as arrays. -/
example : registry.resolve { name := "concat" } [.scalar .text, .array (.scalar .text)] {} =
    .error (.unknownFunction { name := "concat" } [.scalar .text, .array (.scalar .text)]
      [scalars[0], scalars[1], scalars[2]]) := by
  decide +kernel

/-- **A resolved call of a catalog function stays what it is when its arguments are coerced.** With
the types that it gives to its arguments it is resolved to the same function with the same types. -/
theorem resolve_bound_args (h : registry.resolve n types p = .ok i) :
    ∃ ds : List SqlType, TypeTerm.types? i.bound.args = some ds ∧
      registry.resolve n ds p = .ok i := by
  rw [Registry.resolve_eq_ok_iff] at h
  obtain ⟨tier, -, hbest⟩ := Overload.exists_isBest_of_select? h
  obtain ⟨ds, hds, -⟩ := Signature.exists_types_of_bind? hbest.bound
  refine ⟨ds, TypeTerm.types?_eq_some_iff.2 hds, ?_⟩
  rw [Registry.resolve_eq_ok_iff]
  exact (settled_candidates n p types).stable i h ds hds

/-- A number and a text become two texts, which fit the variadic overload as they are too. -/
theorem resolve_bound_args_concat :
    registry.resolve { name := "concat" } [.scalar .integer, .undefined] {} =
        .ok ((Overload.mk scalars[0] .builtin).instantiate [.scalar .text, .scalar .text]
          (.scalar .text)) ∧
      registry.resolve { name := "concat" } [.scalar .text, .scalar .text] {} =
        .ok ((Overload.mk scalars[0] .builtin).instantiate [.scalar .text, .scalar .text]
          (.scalar .text)) := by
  have h : registry.resolve { name := "concat" } [.scalar .integer, .undefined] {} =
      .ok ((Overload.mk scalars[0] .builtin).instantiate [.scalar .text, .scalar .text]
        (.scalar .text)) := by
    decide +kernel
  obtain ⟨ds, hds, hagain⟩ := resolve_bound_args h
  obtain rfl : ds = [.scalar .text, .scalar .text] := by
    cases hds
    rfl
  exact ⟨h, hagain⟩

end Catalog

end Overloading
