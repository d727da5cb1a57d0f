import Mathlib.Data.List.Nodup
import Overloading.Proofs.Registry.Reachable
import Overloading.Resolution.Basic

/-! # The order of registration

A call is resolved in several steps, and each of them looks at the candidates as a whole: the tiers
and the undominated ones are filters, whether the results agree does not depend on which result they
are compared with, and the tie is broken by the written forms. Only overloads that read the same can
change places with the order of the candidates (`Overload.select?_perm`). The order of registration
changes at most the order of the candidates (`Registry.candidates_perm`), so a call means the same
in whatever order the overloads were registered. -/

namespace Overloading

namespace Instantiation

variable {is js : List Instantiation} {i j : Instantiation}

/-- The two are written in the same way. -/
def ReadsAs (i j : Instantiation) : Prop :=
  i.declared.render = j.declared.render ∧ i.bound.render = j.bound.render

theorem readsAs_of_compareTexts (h : compareTexts i j = .eq) : i.ReadsAs j := by
  have h' : compare i.declared.render j.declared.render = .eq ∧
      compare i.bound.render j.bound.render = .eq := by
    simpa only [compareTexts, compareLex, compareOn, Ordering.then_eq_eq] using h
  exact ⟨Std.LawfulEqOrd.eq_of_compare h'.1, Std.LawfulEqOrd.eq_of_compare h'.2⟩

theorem exists_foremost? (h : is ≠ []) : ∃ i, foremost? is = some i := by
  cases is with
  | nil => exact absurd rfl h
  | cons i is => exact ⟨_, rfl⟩

/-- **The foremost ones of two orders read the same.** -/
theorem readsAs_of_foremost? (hp : is.Perm js) (hi : foremost? is = some i)
    (hj : foremost? js = some j) : i.ReadsAs j := by
  have hij := isLE_of_foremost? hi (hp.symm.subset (mem_of_foremost? hj))
  have hji := isLE_of_foremost? hj (hp.subset (mem_of_foremost? hi))
  exact readsAs_of_compareTexts (Std.OrientedCmp.isLE_antisymm hij hji)

theorem undominated_perm {α : Type} (ahead : α → α → Bool) {xs ys : List α} (hp : xs.Perm ys) :
    (undominated ahead xs).Perm (undominated ahead ys) := by
  have hany : (fun x => !xs.any fun y => ahead y x && !ahead x y) =
      fun x => !ys.any fun y => ahead y x && !ahead x y := by
    funext x
    rw [hp.any_eq]
  unfold undominated
  rw [hany]
  exact hp.filter _

theorem reduce_perm (actual : List TypeTerm) (hp : is.Perm js) :
    (reduce actual is).Perm (reduce actual js) :=
  undominated_perm _ (undominated_perm _ hp)

theorem sameResult_iff :
    sameResult is = true ↔ is ≠ [] ∧ ∃ t, ∀ i ∈ is, i.bound.ret.denote = .ok t := by
  cases is with
  | nil => simp [sameResult]
  | cons i is =>
    cases hi : i.bound.ret.denote with
    | error e =>
      have hfalse : sameResult (i :: is) = false := by simp only [sameResult, hi]
      rw [hfalse]
      refine ⟨fun h => (by cases h), ?_⟩
      rintro ⟨-, t, ht⟩
      rw [ht i List.mem_cons_self] at hi
      cases hi
    | ok t =>
      have hall : sameResult (i :: is) = is.all fun j => j.bound.ret.denote.toOption = some t := by
        simp only [sameResult, hi]
      rw [hall, List.all_eq_true]
      constructor
      · intro h
        refine ⟨List.cons_ne_nil i is, t, fun j hj => ?_⟩
        rcases List.mem_cons.1 hj with rfl | hj
        · exact hi
        · cases hd : j.bound.ret.denote with
          | ok u => simpa [hd, Except.toOption] using h j hj
          | error e => simpa [hd, Except.toOption] using h j hj
      · rintro ⟨-, u, hu⟩ j hj
        rw [hu i List.mem_cons_self] at hi
        cases hi
        rw [hu j (List.mem_cons_of_mem i hj)]
        exact decide_eq_true rfl

/-- Whether the results agree does not depend on the one they are compared with. -/
theorem sameResult_perm (hp : is.Perm js) : sameResult is = sameResult js := by
  have hnil : is = [] ↔ js = [] := by
    rw [← List.isEmpty_iff, ← List.isEmpty_iff, hp.isEmpty_eq]
  rw [Bool.eq_iff_iff, sameResult_iff, sameResult_iff]
  refine and_congr (not_congr hnil) (exists_congr fun t => ?_)
  exact forall_congr' fun i => imp_congr_left hp.mem_iff

/-- Up to their order the same are left, or one on either side and these read the same. -/
theorem breakTie_perm (types : List SqlType) (hp : is.Perm js) :
    (breakTie types is).Perm (breakTie types js) ∨
      ∃ i j, breakTie types is = [i] ∧ breakTie types js = [j] ∧ i.ReadsAs j := by
  unfold breakTie
  rw [sameResult_perm hp]
  split
  · by_cases hnil : is = []
    · subst hnil
      rw [hp.nil_eq]
      exact Or.inl (.refl _)
    · obtain ⟨i, hi⟩ := exists_foremost? hnil
      have hnil' : js ≠ [] := by
        rintro rfl
        exact hnil hp.eq_nil
      obtain ⟨j, hj⟩ := exists_foremost? hnil'
      rw [hi, hj]
      exact Or.inr ⟨i, j, rfl, rfl, readsAs_of_foremost? hp hi hj⟩
  · exact Or.inl hp

end Instantiation

namespace Tier

variable {os os' : List Overload} (t : Tier) (types : List SqlType)

theorem mem_applicable {i : Instantiation} : i ∈ t.applicable types os ↔
    i.overload ∈ os ∧ t.admits i.declared.rules = true ∧
      i.declared.bind? t.coercion (types.map SqlType.toTerm) = some i.bound := by
  unfold applicable
  rw [List.mem_filterMap]
  constructor
  · rintro ⟨o, ho, h⟩
    obtain ⟨b, hb, rfl⟩ := Option.map_eq_some_iff.1 h
    obtain ⟨ho, hadm⟩ := List.mem_filter.1 ho
    exact ⟨ho, hadm, hb⟩
  · rintro ⟨ho, hadm, hb⟩
    exact ⟨i.overload, List.mem_filter.2 ⟨ho, hadm⟩, Option.map_eq_some_iff.2 ⟨i.bound, hb, rfl⟩⟩

theorem applicable_perm (hp : os.Perm os') :
    (t.applicable types os).Perm (t.applicable types os') :=
  (hp.filter _).filterMap _

theorem mem_of_mem_finalists {i : Instantiation} (h : i ∈ t.finalists types os) :
    i ∈ t.applicable types os := by
  unfold finalists at h
  split at h
  · exact Instantiation.mem_of_mem_mostSpecific h
  · exact h

theorem finalists_perm (hp : os.Perm os') :
    (t.finalists types os).Perm (t.finalists types os') ∨
      ∃ i j, t.finalists types os = [i] ∧ t.finalists types os' = [j] ∧ i.ReadsAs j := by
  have happ := t.applicable_perm types hp
  unfold finalists
  split
  · exact Instantiation.breakTie_perm types (Instantiation.reduce_perm _ happ)
  · exact Or.inl happ

theorem winner?_eq_some_iff {i : Instantiation} :
    t.winner? types os = some i ↔ t.finalists types os = [i] := by
  unfold winner?
  split
  · rename_i j hj
    rw [hj, Option.some.injEq, List.cons.injEq, and_iff_left rfl]
  · rename_i hne
    refine ⟨fun h => (by cases h), fun h => absurd h (hne i)⟩

/-- **Both orders have no winner, or winners that read the same.** If no two overloads read the
same, the winners are the same. -/
theorem winner?_perm (hp : os.Perm os') :
    Option.Rel (fun i j => i.ReadsAs j ∧ ((os.map (·.signature.render)).Nodup → i = j))
      (t.winner? types os) (t.winner? types os') := by
  rcases t.finalists_perm types hp with h | ⟨i, j, hi, hj, hij⟩
  · have heq : t.winner? types os = t.winner? types os' := by
      refine Option.ext fun i => ?_
      rw [winner?_eq_some_iff, winner?_eq_some_iff]
      constructor
      · intro hi
        rw [hi] at h
        exact (List.singleton_perm.1 h).symm
      · intro hi
        rw [hi] at h
        exact List.perm_singleton.1 h
    rw [heq]
    cases t.winner? types os' with
    | none => exact .none
    | some i => exact .some ⟨⟨rfl, rfl⟩, fun _ => rfl⟩
  · rw [(t.winner?_eq_some_iff types).2 hi, (t.winner?_eq_some_iff types).2 hj]
    refine .some ⟨hij, fun hd => ?_⟩
    obtain ⟨hio, -, hib⟩ :=
      (t.mem_applicable types).1 (t.mem_of_mem_finalists types (hi ▸ List.mem_singleton_self i))
    obtain ⟨hjo, -, hjb⟩ :=
      (t.mem_applicable types).1 (t.mem_of_mem_finalists types (hj ▸ List.mem_singleton_self j))
    have ho : i.overload = j.overload :=
      List.inj_on_of_nodup_map hd hio (hp.symm.subset hjo) hij.1
    -- the bound signature is computed from the overload and the types
    cases i
    cases j
    cases ho
    rw [hib] at hjb
    cases hjb
    rfl

end Tier

theorem findSome?_rel {α β : Type} {R : β → β → Prop} {f g : α → Option β} : ∀ {l : List α},
    (∀ x ∈ l, Option.Rel R (f x) (g x)) → Option.Rel R (l.findSome? f) (l.findSome? g)
  | [], _ => .none
  | x :: l, h => by
    have hl := findSome?_rel fun y hy => h y (List.mem_cons_of_mem x hy)
    have hx := h x List.mem_cons_self
    rw [List.findSome?_cons, List.findSome?_cons]
    generalize f x = a, g x = b at hx
    cases hx with
    | none => exact hl
    | some hR => exact .some hR

/-- **The order of the candidates does not matter but for overloads that read the same.** -/
theorem Overload.select?_perm {os os' : List Overload} (hp : os.Perm os') (types : List SqlType) :
    Option.Rel (fun i j => i.ReadsAs j ∧ ((os.map (·.signature.render)).Nodup → i = j))
      (select? types os) (select? types os') :=
  findSome?_rel fun t _ => t.winner?_perm types hp

/-! ### Groups of candidates -/

theorem Table.group_perm {t t' : Table} (hp : t.overloads.Perm t'.overloads) (n : FunctionName) :
    (t.group n).Perm (t'.group n) :=
  hp.filter _

theorem Table.candidates_perm {t t' : Table} (hp : t.overloads.Perm t'.overloads)
    (n : FunctionName) (p : SearchPath) : (t.candidates n p).Perm (t'.candidates n p) := by
  unfold Table.candidates
  induction n.lookups p with
  | nil => exact .refl _
  | cons k ks ih =>
    have hk := Table.group_perm hp k
    rw [List.map_cons, List.map_cons, List.find?_cons, List.find?_cons, ← hk.isEmpty_eq]
    cases (t.group k).isEmpty with
    | true => exact ih
    | false => exact hk

namespace Registry

theorem candidates_perm {r r' : Registry} (hb : r.builtins.overloads.Perm r'.builtins.overloads)
    (hu : r.userDefined.overloads.Perm r'.userDefined.overloads) (n : FunctionName)
    (p : SearchPath) : (r.candidates n p).Perm (r'.candidates n p) := by
  have hbp := Table.candidates_perm hb n p
  have hup := Table.candidates_perm hu n p
  unfold candidates
  cases h : r.builtins.candidates n p with
  | nil =>
    rw [h] at hbp
    rw [← hbp.nil_eq]
    exact hup
  | cons o os =>
    cases h' : r'.builtins.candidates n p with
    | nil =>
      rw [h, h'] at hbp
      cases hbp.eq_nil
    | cons o' os' => rwa [h, h'] at hbp

/-- The registries agree on a call: both report it, with the same candidates up to their order, or
both resolve it, to functions that read the same, and to the same function if no two candidates read
the same. -/
def AgreeOn (r r' : Registry) (n : FunctionName) (types : List SqlType) (p : SearchPath) : Prop :=
  (∃ ss ss', r.resolve n types p = .error (.unknownFunction n types ss) ∧
    r'.resolve n types p = .error (.unknownFunction n types ss') ∧ ss.Perm ss') ∨
  ∃ i i', r.resolve n types p = .ok i ∧ r'.resolve n types p = .ok i' ∧
    i.declared.render = i'.declared.render ∧ i.bound.render = i'.bound.render ∧
    (((r.candidates n p).map (·.signature.render)).Nodup → i = i')

theorem agreeOn_of_perm (r r' : Registry) (hb : r.builtins.overloads.Perm r'.builtins.overloads)
    (hu : r.userDefined.overloads.Perm r'.userDefined.overloads) (n : FunctionName)
    (types : List SqlType) (p : SearchPath) : AgreeOn r r' n types p := by
  have hc := candidates_perm hb hu n p
  have hrel := Overload.select?_perm hc types
  unfold AgreeOn resolve
  generalize hi : Overload.select? types (r.candidates n p) = o,
    hi' : Overload.select? types (r'.candidates n p) = o' at hrel
  cases hrel with
  | none =>
    exact Or.inl ⟨(r.candidates n p).map (·.signature), (r'.candidates n p).map (·.signature),
      by simp only [hi], by simp only [hi'], hc.map _⟩
  | @some i i' h =>
    exact Or.inr ⟨i, i', by simp only [hi], by simp only [hi'], h.1.1, h.1.2, h.2⟩

/-- **The order of registration does not matter.** Overloads with distinct signatures may be built
in, or registered for a schema, in any order. -/
theorem resolve_perm {os os' : List Overload} (hp : os.Perm os')
    (hd : (os.map (·.signature)).Nodup) (n : FunctionName) (types : List SqlType) (p : SearchPath) :
    (∀ (bs : List Overload) (u : Table),
      AgreeOn { builtins := .ofList (bs ++ os), userDefined := u }
        { builtins := .ofList (bs ++ os'), userDefined := u } n types p) ∧
    ∀ (r : Registry) (s : String), r.Reachable →
      AgreeOn (r.registerSchema s os) (r.registerSchema s os') n types p := by
  constructor
  · intro bs u
    refine agreeOn_of_perm _ _ ?_ (.refl u.overloads) n types p
    rw [Table.ofList_append, Table.ofList_append]
    exact Table.insertAll_perm_insertAll (Table.distinct_ofList bs) hp hd
  · intro r s hr
    refine agreeOn_of_perm (r.registerSchema s os) (r.registerSchema s os')
      (.refl r.builtins.overloads) ?_ n types p
    exact Table.insertAll_perm_insertAll (hr.distinct_userDefined.dropSchema s) hp hd

/-- Two overloads that differ in their kinds only, which their written forms do not show. -/
def twins : List Overload :=
  [.scalar, .aggregate].map fun kind => { signature :=
    { name := { name := "size" }, kind, args := [(SqlType.scalar .text).toTerm],
      ret := (SqlType.scalar .bigint).toTerm } }

theorem resolve_perm_twins :
    twins.Perm twins.reverse ∧ (twins.map (·.signature)).Nodup ∧
      AgreeOn { builtins := .ofList twins } { builtins := .ofList twins.reverse }
        { name := "size" } [.scalar .text] {} ∧
      AgreeOn (registerSchema { builtins := .ofList [] } "doc" twins)
        (registerSchema { builtins := .ofList [] } "doc" twins.reverse)
        { name := "size" } [.undefined] {} := by
  have hp : twins.Perm twins.reverse := (List.reverse_perm twins).symm
  have hd : (twins.map (·.signature)).Nodup := by decide
  exact ⟨hp, hd, (resolve_perm hp hd _ _ _).1 [] ∅, (resolve_perm hp hd _ _ _).2 _ "doc" (.build [])⟩

example : (resolve { builtins := .ofList twins } { name := "size" } [.scalar .text] {}).toOption.map
    (·.declared.kind) = some .scalar := by
  decide +kernel

example : (resolve { builtins := .ofList twins.reverse } { name := "size" } [.scalar .text]
    {}).toOption.map (·.declared.kind) = some .aggregate := by
  decide +kernel

end Registry

end Overloading
