import Overloading.Registry.Basic

/-! # Registries that arise from registrations

A registry starts with the overloads that are built in, and its user-defined overloads change by the
registration of schemas only (`Registry.Reachable`). So no two overloads of a table have the same
signature (`Registry.Reachable.distinct_userDefined`). Inserting overloads with distinct signatures
into such a table removes those that had one of these signatures and adds the new ones; apart from
the order of the table this is all that happens (`Table.insertAll_perm`). -/

namespace Overloading

namespace Table

/-- No two overloads have the same signature. -/
def Distinct (t : Table) : Prop := (t.overloads.map (·.signature)).Nodup

theorem Distinct.insertAll {t : Table} (h : t.Distinct) (os : List Overload) :
    (t.insertAll os).Distinct := by
  induction os generalizing t with
  | nil => exact h
  | cons o os ih => exact ih (nodup_signatures_insert h o)

theorem distinct_ofList (os : List Overload) : (ofList os).Distinct :=
  Distinct.insertAll (t := ∅) List.nodup_nil os

theorem Distinct.dropSchema {t : Table} (h : t.Distinct) (s : String) : (t.dropSchema s).Distinct :=
  h.sublist (List.filter_sublist.map _)

theorem ofList_append (os os' : List Overload) : ofList (os ++ os') = (ofList os).insertAll os' :=
  List.foldl_append

theorem place_perm {o : Overload} {xs : List Overload} (h : (xs.map (·.signature)).Nodup) :
    (place o xs).Perm (o :: xs.filter (·.signature ≠ o.signature)) := by
  induction xs with
  | nil => exact .refl _
  | cons x xs ih =>
    obtain ⟨hx, hxs⟩ := List.nodup_cons.1 h
    unfold place
    split
    · rename_i heq
      have hall : ∀ y ∈ xs, decide (y.signature ≠ o.signature) = true := by
        intro y hy
        rw [decide_eq_true_eq, ← heq]
        intro hyx
        exact hx (List.mem_map.2 ⟨y, hy, hyx⟩)
      rw [List.filter_cons_of_neg (by simp [heq]), List.filter_eq_self.2 hall]
    · rename_i hne
      rw [List.filter_cons_of_pos (by simp [hne])]
      exact ((ih hxs).cons x).trans (.swap o x _)

/-- **New overloads take the place of those that have their signatures.** -/
theorem insertAll_perm {t : Table} (ht : t.Distinct) {os : List Overload}
    (hos : (os.map (·.signature)).Nodup) :
    (t.insertAll os).overloads.Perm
      (os ++ t.overloads.filter fun x => x.signature ∉ os.map (·.signature)) := by
  induction os generalizing t with
  | nil =>
    have hall : ∀ x ∈ t.overloads, decide (x.signature ∉ [].map Overload.signature) = true := by simp
    rw [List.filter_eq_self.2 hall]
    exact .refl _
  | cons o os ih =>
    obtain ⟨ho, hos⟩ := List.nodup_cons.1 hos
    -- `o` is inserted before the rest of the list, and none of the rest has its signature
    refine (ih (nodup_signatures_insert ht o) hos).trans ?_
    have hkept := (place_perm (o := o) ht).filter fun x => x.signature ∉ os.map (·.signature)
    rw [List.filter_cons_of_pos (by simpa using ho), List.filter_filter] at hkept
    refine (hkept.append_left os).trans (List.perm_middle.trans (.cons o ?_))
    refine List.Perm.append_left os (.of_eq (List.filter_congr fun x _ => ?_))
    by_cases hx : x.signature = o.signature <;> simp [hx]

/-- The order in which overloads with distinct signatures are inserted changes at most the order of
the table. -/
theorem insertAll_perm_insertAll {t : Table} (ht : t.Distinct) {os os' : List Overload}
    (hp : os.Perm os') (hos : (os.map (·.signature)).Nodup) :
    (t.insertAll os).overloads.Perm (t.insertAll os').overloads := by
  have hos' : (os'.map (·.signature)).Nodup := (hp.map _).nodup_iff.1 hos
  refine (insertAll_perm ht hos).trans (.trans ?_ (insertAll_perm ht hos').symm)
  refine hp.append (.of_eq (List.filter_congr fun x _ => ?_))
  simp only [(hp.map _).mem_iff]

end Table

namespace Registry

/-- The registries that arise from a list of built-in overloads by registering schemas. -/
inductive Reachable : Registry → Prop
  | build (os : List Overload) : Reachable { builtins := .ofList os }
  | register {r : Registry} (s : String) (os : List Overload) :
      Reachable r → Reachable (r.registerSchema s os)

theorem Reachable.deregister {r : Registry} (h : r.Reachable) (s : String) :
    (r.deregisterSchema s).Reachable :=
  h.register s []

theorem Reachable.distinct_builtins {r : Registry} (h : r.Reachable) : r.builtins.Distinct := by
  induction h with
  | build os => exact Table.distinct_ofList os
  | register s os _ ih => exact ih

/-- **No two user-defined overloads have the same signature.** -/
theorem Reachable.distinct_userDefined {r : Registry} (h : r.Reachable) :
    r.userDefined.Distinct := by
  induction h with
  | build os => exact List.nodup_nil
  | register s os _ ih => exact (ih.dropSchema s).insertAll os

end Registry

end Overloading
