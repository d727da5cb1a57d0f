import Overloading.Registry.Overload
import Overloading.SearchPath.Basic

/-! # Tables of overloads

A table holds overloads in the order in which their signatures were first inserted. An overload
whose signature is already there takes the place of the one before it (`insert`). The overloads of
one name are a group (`group`), and a call looks at one group only: that of the first name that has
any (`candidates`). -/

namespace Overloading

/-- The overloads that are known, in order. -/
structure Table where
  overloads : List Overload := []
  deriving DecidableEq

namespace Table

instance : EmptyCollection Table := ⟨{}⟩

/-- The list with the overload in the place of the one with the same signature, or at the end. -/
def place (o : Overload) : List Overload → List Overload
  | [] => [o]
  | x :: xs => if x.signature = o.signature then o :: xs else x :: place o xs

/-- The table with one more overload. -/
def insert (t : Table) (o : Overload) : Table := ⟨place o t.overloads⟩

/-- The table with more overloads, inserted from left to right. -/
def insertAll (t : Table) (os : List Overload) : Table := os.foldl insert t

/-- The table of these overloads. -/
def ofList (os : List Overload) : Table := insertAll ∅ os

/-- The table without the overloads whose names are in the schema. -/
def dropSchema (t : Table) (s : String) : Table :=
  ⟨t.overloads.filter fun o => o.name.schema ≠ some s⟩

/-- The overloads of the name, in order. -/
def group (t : Table) (n : FunctionName) : List Overload := t.overloads.filter fun o => o.name = n

/-- The number of overloads. -/
def size (t : Table) : Nat := t.overloads.length

/-- Whether the table holds no overload. -/
def isEmpty (t : Table) : Bool := t.overloads.isEmpty

/-- The names that have overloads, each once and in their order. -/
def names (t : Table) : List FunctionName := FunctionName.sort (t.overloads.map (·.name)).eraseDups

/-- The overload with this signature. -/
def find? (t : Table) (s : Signature) : Option Overload := t.overloads.find? (·.signature = s)

/-- The overloads that a call of `n` chooses from: the first group that is not empty. -/
def candidates (t : Table) (n : FunctionName) (p : SearchPath) : List Overload :=
  (((n.lookups p).map t.group).find? (!·.isEmpty)).getD []

theorem signatures_place (o : Overload) : ∀ xs : List Overload,
    (place o xs).map (·.signature) =
      if o.signature ∈ xs.map (·.signature) then xs.map (·.signature)
      else xs.map (·.signature) ++ [o.signature]
  | [] => rfl
  | x :: xs => by
    unfold place
    by_cases h : x.signature = o.signature
    · simp [h]
    · have ih := signatures_place o xs
      simp only [h, if_false, List.map_cons, ih, List.mem_cons, Ne.symm h, false_or]
      split <;> simp

/-- **Insertion keeps the signatures distinct.** -/
theorem nodup_signatures_insert {t : Table} (h : (t.overloads.map (·.signature)).Nodup)
    (o : Overload) : ((t.insert o).overloads.map (·.signature)).Nodup := by
  rw [insert, signatures_place]
  split
  · exact h
  · rename_i ho
    rw [List.nodup_append]
    refine ⟨h, by simp, ?_⟩
    rintro s hs _ ht rfl
    exact ho (List.mem_singleton.1 ht ▸ hs)

theorem group_place_of_ne {o : Overload} {n : FunctionName} (h : o.name ≠ n) :
    ∀ xs : List Overload,
      (place o xs).filter (fun x => x.name = n) = xs.filter (fun x => x.name = n)
  | [] => by simp [place, h]
  | x :: xs => by
    unfold place
    split
    · rename_i hx
      have hx' : x.name ≠ n := by
        rw [Overload.name, hx]
        exact h
      rw [List.filter_cons_of_neg (by simpa using h), List.filter_cons_of_neg (by simpa using hx')]
    · rw [List.filter_cons, List.filter_cons, group_place_of_ne h xs]

theorem mem_group {t : Table} {n : FunctionName} {o : Overload} :
    o ∈ t.group n ↔ o ∈ t.overloads ∧ o.name = n := by
  simp [group]

theorem group_dropSchema (t : Table) (s : String) (n : FunctionName) :
    (t.dropSchema s).group n = if n.schema = some s then [] else t.group n := by
  rw [group, dropSchema, List.filter_filter, group]
  split
  · rename_i h
    refine List.filter_eq_nil_iff.2 fun o _ ho => ?_
    simp only [Bool.and_eq_true, decide_eq_true_eq] at ho
    exact ho.2 (ho.1 ▸ h)
  · rename_i h
    refine List.filter_congr fun o _ => ?_
    by_cases ho : o.name = n
    · simp [ho, h]
    · simp [ho]

end Table

end Overloading
