import Mathlib.Data.Finset.Card
import Overloading.Proofs.Registry.History

/-! # Building a table

A table is built by inserting overloads one after the other. In the end each signature stands where
it was inserted first, together with the overload that was inserted last for it (`Overload.IsLast`,
`Table.isLast_of_mem_ofList`). What is counted and listed agrees with this: there are as many
overloads as signatures (`Table.size_ofList`), the groups of the listed names make up the table
(`Table.Distinct.flatMap_group_perm`), and the names are in ascending order without repeats
(`Table.pairwise_names`). -/

namespace Overloading

theorem nodup_eraseDups {α : Type} [BEq α] [LawfulBEq α] : ∀ xs : List α, xs.eraseDups.Nodup
  | [] => List.nodup_nil
  | x :: xs => by
    rw [List.eraseDups_cons, List.nodup_cons]
    refine ⟨fun hx => ?_, nodup_eraseDups (xs.filter fun y => !y == x)⟩
    have hmem := List.mem_filter.1 (List.mem_eraseDups.1 hx)
    simp at hmem
  termination_by xs => xs.length
  decreasing_by exact Nat.lt_succ_of_le (List.length_filter_le _ xs)

/-- In a sorted list without repeats each name stands strictly before the next ones. -/
theorem FunctionName.pairwise_lt_sort {ns : List FunctionName} (h : ns.Nodup) :
    (sort ns).Pairwise fun m n => compare m n = .lt := by
  have hnodup : (sort ns).Nodup := (sort_perm ns).nodup_iff.2 h
  refine ((pairwise_sort ns).and hnodup).imp fun {m n} hmn => ?_
  have hne : compare m n ≠ .eq := fun heq => hmn.2 (Std.LawfulEqOrd.eq_of_compare heq)
  have hle : (compare m n).isLE = true := hmn.1
  cases hcmp : compare m n with
  | lt => rfl
  | eq => exact absurd hcmp hne
  | gt => simp [hcmp] at hle

/-- The overload is in the list, and after it no other one has its signature. -/
def Overload.IsLast (os : List Overload) (o : Overload) : Prop :=
  ∃ before after, os = before ++ o :: after ∧ ∀ x ∈ after, x.signature ≠ o.signature

theorem Overload.isLast_iff {os : List Overload} {o : Overload} :
    IsLast os o ↔ os.reverse.find? (·.signature = o.signature) = some o := by
  rw [List.find?_eq_some_iff_append]
  constructor
  · rintro ⟨before, after, rfl, hafter⟩
    refine ⟨decide_eq_true rfl, after.reverse, before.reverse, by simp, fun x hx => ?_⟩
    simpa using hafter x (List.mem_reverse.1 hx)
  · rintro ⟨-, after, before, hsplit, hafter⟩
    refine ⟨before.reverse, after.reverse, ?_, fun x hx => ?_⟩
    · have hrev := congrArg List.reverse hsplit
      simpa using hrev
    · simpa using hafter x (List.mem_reverse.1 hx)

namespace Table

variable {t : Table} {n : FunctionName} {o : Overload}

/-! ### What is in the table -/

/-- The signatures in the order in which they were first inserted. -/
theorem signatures_ofList (os : List Overload) :
    (ofList os).overloads.map (·.signature) = (os.map (·.signature)).eraseDups := by
  have hempty : (∅ : Table).overloads = [] := rfl
  rw [ofList, signatures_insertAll, hempty]
  simp

theorem signatures_group_ofList (os : List Overload) (n : FunctionName) :
    ((ofList os).group n).map (·.signature) =
      ((os.filter (·.name = n)).map (·.signature)).eraseDups := by
  have hgroup : (ofList os).group n = (ofList (os.filter (·.name = n))).overloads :=
    group_insertAll ∅ os n
  rw [hgroup, signatures_ofList]

/-- **Each signature comes with the overload that was inserted last for it.** -/
theorem isLast_of_mem_ofList {os : List Overload} (ho : o ∈ (ofList os).overloads) :
    Overload.IsLast os o := by
  have hfind : (ofList os).find? o.signature = some o :=
    (distinct_ofList os).find?_eq_some_iff.2 ⟨ho, rfl⟩
  have hnone : (∅ : Table).find? o.signature = none := rfl
  rw [ofList, find?_insertAll, hnone, Option.or_none] at hfind
  exact Overload.isLast_iff.2 hfind

/-! ### What is counted and listed -/

/-- **There are as many overloads as signatures have been inserted.** -/
theorem size_ofList (os : List Overload) :
    (ofList os).size = (os.map (·.signature)).toFinset.card := by
  have hsame : ((ofList os).overloads.map (·.signature)).toFinset =
      (os.map (·.signature)).toFinset := by
    ext s
    rw [List.mem_toFinset, List.mem_toFinset, signatures_ofList, List.mem_eraseDups]
  have hnodup : ((ofList os).overloads.map (·.signature)).Nodup := distinct_ofList os
  rw [← hsame, List.toFinset_card_of_nodup hnodup, List.length_map, size]

theorem isEmpty_ofList_iff (os : List Overload) : (ofList os).isEmpty = true ↔ os = [] := by
  have hempty : (ofList os).overloads = [] ↔ (os.map (·.signature)).eraseDups = [] := by
    rw [← signatures_ofList, List.map_eq_nil_iff]
  rw [isEmpty, List.isEmpty_iff, hempty]
  cases os with
  | nil => simp
  | cons o os => simp [List.eraseDups_cons]

theorem mem_names : n ∈ t.names ↔ ∃ o ∈ t.overloads, o.name = n := by
  rw [names, (FunctionName.sort_perm _).mem_iff, List.mem_eraseDups, List.mem_map]

theorem nodup_names (t : Table) : t.names.Nodup :=
  (FunctionName.sort_perm _).nodup_iff.2 (nodup_eraseDups _)

theorem pairwise_names (t : Table) : t.names.Pairwise fun m n => compare m n = .lt :=
  FunctionName.pairwise_lt_sort (nodup_eraseDups _)

/-- **The groups of the listed names make up the table,** apart from the order. -/
theorem Distinct.flatMap_group_perm (ht : t.Distinct) :
    (t.names.flatMap t.group).Perm t.overloads := by
  have hoverloads : t.overloads.Nodup := List.Nodup.of_map _ ht
  have hgroups : (t.names.flatMap t.group).Nodup := by
    refine List.nodup_flatMap.2 ⟨fun n _ => hoverloads.filter _, ?_⟩
    refine (nodup_names t).imp fun {m n} hmn o hm hn => hmn ?_
    rw [← (mem_group.1 hm).2, (mem_group.1 hn).2]
  refine (List.perm_ext_iff_of_nodup hgroups hoverloads).2 fun o => ?_
  simp only [List.mem_flatMap, mem_group, mem_names]
  constructor
  · rintro ⟨n, -, ho, -⟩
    exact ho
  · intro ho
    exact ⟨o.name, ⟨o, ho, rfl⟩, ho, rfl⟩

theorem mem_names_ofList {os : List Overload} :
    n ∈ (ofList os).names ↔ ∃ o ∈ os, o.name = n := by
  have hsignature : ∀ s, s ∈ (ofList os).overloads.map (·.signature) ↔
      s ∈ os.map (·.signature) := fun s => by rw [signatures_ofList, List.mem_eraseDups]
  have hnames : ∀ xs : List Overload,
      (∃ o ∈ xs, o.name = n) ↔ ∃ s ∈ xs.map (·.signature), s.name = n := by
    simp [Overload.name]
  rw [mem_names, hnames, hnames]
  simp only [hsignature]

/-- **A table keeps the last overload at the first place.** Under each name are the signatures that
have been inserted with it, in the order in which they came first, and each of them comes with the
overload that came last. The table counts the signatures that have been inserted, at once or name by
name, is empty only if nothing has been inserted, and lists in ascending order the names that have
been inserted. -/
theorem contents_ofList (os : List Overload) :
    (∀ n, ((ofList os).group n).map (·.signature) =
        ((os.filter (·.name = n)).map (·.signature)).eraseDups ∧
      ∀ o ∈ (ofList os).group n, Overload.IsLast os o) ∧
    ((ofList os).size = (os.map (·.signature)).toFinset.card ∧
      (ofList os).size = ((ofList os).names.flatMap (ofList os).group).length) ∧
    ((ofList os).isEmpty = true ↔ os = []) ∧
    ((ofList os).names.Pairwise fun m n => compare m n = .lt) ∧
      ∀ n, n ∈ (ofList os).names ↔ ∃ o ∈ os, o.name = n := by
  refine ⟨fun n => ⟨signatures_group_ofList os n, fun o ho => ?_⟩,
    ⟨size_ofList os, (distinct_ofList os).flatMap_group_perm.length_eq.symm⟩,
    isEmpty_ofList_iff os, pairwise_names _, fun n => mem_names_ofList⟩
  exact isLast_of_mem_ofList (mem_group.1 ho).1

/-- `a.f(integer)` is inserted twice, with two other overloads in between. -/
def repeated : List Overload :=
  [Registry.script "a" "f" .integer "1", Registry.script "a" "g" .text "2",
    Registry.script "a" "f" .bigint "3", Registry.script "a" "f" .integer "4"]

theorem contents_ofList_repeated :
    Registry.script "a" "f" .integer "4" ∈ (ofList repeated).group ⟨some "a", "f"⟩ ∧
      Overload.IsLast repeated (Registry.script "a" "f" .integer "4") ∧
      ((ofList repeated).group ⟨some "a", "f"⟩).map (·.signature) =
        [repeated[0], repeated[2]].map (·.signature) ∧
      (ofList repeated).size = 3 := by
  obtain ⟨hgroup, ⟨hsize, -⟩, -⟩ := contents_ofList repeated
  have hmem : Registry.script "a" "f" .integer "4" ∈ (ofList repeated).group ⟨some "a", "f"⟩ := by
    decide +kernel
  obtain ⟨hsignatures, hlast⟩ := hgroup ⟨some "a", "f"⟩
  exact ⟨hmem, hlast _ hmem, hsignatures.trans (by decide +kernel), hsize.trans (by decide +kernel)⟩

end Table

end Overloading
