import Mathlib.Data.List.Induction
import Mathlib.Data.List.Nodup
import Overloading.Proofs.Registry.Reachable

/-! # What a table holds

A table in which no two overloads have the same signature is known by its signatures, in order, and
by the overload that it finds for each of them (`Table.Distinct.overloads_eq`). Inserting an overload
changes what is found for one signature only (`Table.find?_insert`). So each signature of the table
stays where it is, new ones follow at their first places, and each has the overload that is inserted
last for it (`Table.Distinct.overloads_insertAll`); to insert the same overloads again changes nothing
(`Table.Distinct.insertAll_insertAll`). What is inserted into the group of one name does not depend
on the other groups (`Table.group_insertAll`). -/

namespace Overloading

/-- The list with overloads of one signature collapsed: the signature stays where it is first, and
of the overloads that have it the last one is kept. -/
def Overload.collapse (os : List Overload) : List Overload :=
  (os.map (·.signature)).eraseDups.filterMap fun s => os.reverse.find? (·.signature = s)

/-- The overloads after others have come in. One whose signature recurs gives its place to the last
overload that has it, and the overloads whose signatures are new follow, collapsed. -/
def Overload.merge (xs os : List Overload) : List Overload :=
  xs.map (fun x => (os.reverse.find? (·.signature = x.signature)).getD x) ++
    collapse (os.filter (·.signature ∉ xs.map (·.signature)))

@[simp] theorem Overload.merge_nil_left (os : List Overload) : merge [] os = collapse os := by
  simp [merge]

namespace Table

variable {t : Table} {o : Overload} {os : List Overload} {s : Signature} {n : FunctionName}

/-! ### What is found -/

/-- **An overload is found by its signature.** -/
theorem Distinct.find?_eq_some_iff (ht : t.Distinct) :
    t.find? s = some o ↔ o ∈ t.overloads ∧ o.signature = s := by
  constructor
  · intro h
    exact ⟨List.mem_of_find?_eq_some h, by simpa using List.find?_some h⟩
  · rintro ⟨ho, rfl⟩
    have hsome : (t.find? o.signature).isSome = true :=
      List.find?_isSome.2 ⟨o, ho, decide_eq_true rfl⟩
    obtain ⟨x, hx⟩ := Option.isSome_iff_exists.1 hsome
    have hsig : x.signature = o.signature := by simpa using List.find?_some hx
    rw [hx, List.inj_on_of_nodup_map ht (List.mem_of_find?_eq_some hx) ho hsig]

/-- The signatures and what is found for them make up the table. -/
theorem Distinct.overloads_eq (ht : t.Distinct) :
    (t.overloads.map (·.signature)).filterMap t.find? = t.overloads := by
  rw [List.filterMap_map]
  refine (List.filterMap_congr fun o ho => ?_).trans List.filterMap_some
  exact ht.find?_eq_some_iff.2 ⟨ho, rfl⟩

/-- **Insertion changes what is found for one signature only.** -/
theorem find?_insert (t : Table) (o : Overload) (s : Signature) :
    (t.insert o).find? s = if o.signature = s then some o else t.find? s := by
  obtain ⟨xs⟩ := t
  unfold find? insert
  induction xs with
  | nil => by_cases hs : o.signature = s <;> simp [place, hs]
  | cons x xs ih =>
    unfold place
    split
    · rename_i hx
      by_cases hs : o.signature = s <;> simp [hx, hs]
    · rename_i hx
      by_cases hs : x.signature = s
      · have ho : o.signature ≠ s := fun h => hx (hs.trans h.symm)
        simp [hs, ho]
      · simpa [hs] using ih

theorem find?_insertAll (t : Table) (os : List Overload) (s : Signature) :
    (t.insertAll os).find? s = (os.reverse.find? (·.signature = s)).or (t.find? s) := by
  induction os generalizing t with
  | nil => rfl
  | cons o os ih =>
    have hstep : (t.insertAll (o :: os)).find? s = ((t.insert o).insertAll os).find? s := rfl
    rw [hstep, ih, find?_insert, List.reverse_cons, List.find?_append, Option.or_assoc]
    by_cases hs : o.signature = s <;> simp [hs]

/-! ### What is inserted -/

theorem insertAll_concat (t : Table) (os : List Overload) (o : Overload) :
    t.insertAll (os ++ [o]) = (t.insertAll os).insert o :=
  List.foldl_concat insert t o os

/-- The new signatures follow those of the table, each at its first place. -/
theorem signatures_insertAll (t : Table) (os : List Overload) :
    (t.insertAll os).overloads.map (·.signature) =
      t.overloads.map (·.signature) ++
        ((os.filter (·.signature ∉ t.overloads.map (·.signature))).map (·.signature)).eraseDups := by
  induction os using List.reverseRecOn with
  | nil => simp [insertAll]
  | append_singleton os o ih =>
    rw [insertAll_concat, insert, signatures_place, ih, List.filter_append, List.map_append,
      List.eraseDups_append]
    generalize t.overloads.map (·.signature) = ss
    by_cases ho : o.signature ∈ ss
    · simp [ho]
    · have hone : [o].filter (·.signature ∉ ss) = [o] := by simp [ho]
      rw [hone, List.map_singleton]
      generalize (os.filter (·.signature ∉ ss)).map (·.signature) = us
      by_cases hu : o.signature ∈ us <;> simp [ho, hu, List.removeAll, List.eraseDups_cons]

/-- What is inserted is there, by its signature. -/
theorem mem_signatures_insertAll (ho : o ∈ os) :
    o.signature ∈ (t.insertAll os).overloads.map (·.signature) := by
  rw [signatures_insertAll, List.mem_append, List.mem_eraseDups]
  by_cases ht : o.signature ∈ t.overloads.map (·.signature)
  · exact .inl ht
  · exact .inr (List.mem_map_of_mem (List.mem_filter.2 ⟨ho, decide_eq_true ht⟩))

theorem find?_reverse_filter_notMem {ss : List Signature} (hs : s ∉ ss) (os : List Overload) :
    (os.filter (·.signature ∉ ss)).reverse.find? (·.signature = s) =
      os.reverse.find? (·.signature = s) := by
  rw [← List.filter_reverse, List.find?_filter]
  congr 1
  funext o
  by_cases ho : o.signature = s <;> simp [ho, hs]

/-- **Insertion merges.** -/
theorem Distinct.overloads_insertAll (ht : t.Distinct) (os : List Overload) :
    (t.insertAll os).overloads = Overload.merge t.overloads os := by
  rw [← (ht.insertAll os).overloads_eq, signatures_insertAll, List.filterMap_append,
    Overload.merge]
  congr 1
  · rw [List.filterMap_map, ← List.filterMap_eq_map]
    refine List.filterMap_congr fun x hx => ?_
    have hfind : t.find? x.signature = some x := ht.find?_eq_some_iff.2 ⟨hx, rfl⟩
    rw [Function.comp_apply, find?_insertAll, hfind]
    exact Option.or_some
  · refine List.filterMap_congr fun s hs => ?_
    obtain ⟨o, ho, rfl⟩ := List.mem_map.1 (List.mem_eraseDups.1 hs)
    have hnew : o.signature ∉ t.overloads.map (·.signature) := by
      simpa using (List.mem_filter.1 ho).2
    have hnone : t.find? o.signature = none := by
      simpa [find?] using hnew
    rw [find?_insertAll, hnone, Option.or_none, find?_reverse_filter_notMem hnew]

/-- **Inserting the same overloads again changes nothing.** -/
theorem Distinct.insertAll_insertAll (ht : t.Distinct) (os : List Overload) :
    (t.insertAll os).insertAll os = t.insertAll os := by
  have hu := ht.insertAll os
  have hsigs : ((t.insertAll os).insertAll os).overloads.map (·.signature) =
      (t.insertAll os).overloads.map (·.signature) := by
    have hnone : os.filter (·.signature ∉ (t.insertAll os).overloads.map (·.signature)) = [] := by
      refine List.filter_eq_nil_iff.2 fun o ho => ?_
      rw [decide_eq_true_eq, not_not]
      exact mem_signatures_insertAll ho
    rw [signatures_insertAll, hnone]
    exact List.append_nil _
  have hfind : ((t.insertAll os).insertAll os).find? = (t.insertAll os).find? := by
    funext s
    rw [find?_insertAll, find?_insertAll, ← Option.or_assoc, Option.or_self]
  have h := (hu.insertAll os).overloads_eq
  rw [hsigs, hfind, hu.overloads_eq] at h
  exact congrArg Table.mk h.symm

theorem merge_merge {xs : List Overload} (hxs : (xs.map (·.signature)).Nodup) (os : List Overload) :
    Overload.merge (Overload.merge xs os) os = Overload.merge xs os := by
  have hdistinct : Distinct ⟨xs⟩ := hxs
  have htwice := congrArg overloads (hdistinct.insertAll_insertAll os)
  rwa [(hdistinct.insertAll os).overloads_insertAll, hdistinct.overloads_insertAll] at htwice

/-- **A table of a list holds the list collapsed.** -/
theorem overloads_ofList (os : List Overload) : (ofList os).overloads = Overload.collapse os := by
  have hempty : (∅ : Table).Distinct := List.nodup_nil
  exact (hempty.overloads_insertAll os).trans (Overload.merge_nil_left os)

/-! ### One group of a table -/

theorem filter_place (o : Overload) (n : FunctionName) (xs : List Overload) :
    (place o xs).filter (·.name = n) =
      if o.name = n then place o (xs.filter (·.name = n)) else xs.filter (·.name = n) := by
  split
  · rename_i ho
    induction xs with
    | nil => simp [place, ho]
    | cons x xs ih =>
      by_cases hx : x.signature = o.signature
      · have hxn : x.name = n := by rw [Overload.name, hx, ← ho]
        simp [place, hx, ho, hxn]
      · by_cases hxn : x.name = n <;> simp [place, hx, hxn, ih]
  · rename_i ho
    exact group_place_of_ne ho xs

/-- **A group takes in the overloads of its name and no others.** -/
theorem group_insertAll (t : Table) (os : List Overload) (n : FunctionName) :
    (t.insertAll os).group n =
      (insertAll ⟨t.group n⟩ (os.filter (·.name = n))).overloads := by
  induction os generalizing t with
  | nil => rfl
  | cons o os ih =>
    have hstep : (t.insertAll (o :: os)).group n = ((t.insert o).insertAll os).group n := rfl
    have hgroup : (t.insert o).group n = if o.name = n then place o (t.group n) else t.group n :=
      filter_place o n t.overloads
    rw [hstep, ih, hgroup]
    by_cases ho : o.name = n
    · rw [if_pos ho, List.filter_cons_of_pos (by simpa using ho)]
      rfl
    · rw [if_neg ho, List.filter_cons_of_neg (by simpa using ho)]

/-- The overloads of its name are merged into a group. -/
theorem Distinct.group_insertAll (ht : t.Distinct) (os : List Overload) (n : FunctionName) :
    (t.insertAll os).group n = Overload.merge (t.group n) (os.filter (·.name = n)) := by
  have hgroup : Distinct ⟨t.group n⟩ := ht.sublist (List.filter_sublist.map _)
  rw [Table.group_insertAll, hgroup.overloads_insertAll]

/-- A group that is empty holds in the end what is inserted into it. -/
theorem group_insertAll_of_group_eq_nil (h : t.group n = []) (os : List Overload) :
    (t.insertAll os).group n = Overload.collapse (os.filter (·.name = n)) := by
  rw [group_insertAll, h]
  exact overloads_ofList _

theorem group_insertAll_of_forall_ne (t : Table) (h : ∀ o ∈ os, o.name ≠ n) :
    (t.insertAll os).group n = t.group n := by
  have hnone : os.filter (·.name = n) = [] := by simpa using h
  rw [group_insertAll, hnone]
  rfl

end Table

end Overloading
