import Mathlib.Logic.Function.Basic
import Overloading.Proofs.Registry.History

/-! # Tables by name

A table can also be kept as a map from each name to the overloads of that name (`Index`). To insert an
overload into a map is to look at one key, and a change drops the keys of its schema before it inserts
(`Index.apply`).

* `Index.Valid`: no key is without overloads, every overload is under its own name, and no two under
  one key have the same signature. Every operation preserves this (`Index.Valid.insert`,
  `Index.Valid.dropSchema`), and so does every history (`Index.Valid.run`).
* `Table.index`: the map of a table. The operations on tables are those on maps
  (`Table.index_insert`, `Table.index_dropSchema`), and so are histories
  (`Registry.index_userDefined_run`).
* `Registry.lookup_congr`: what is found depends on the maps alone.
* `Registry.index_registerSchema`: what a registration leaves under each key. -/

namespace Overloading

namespace Table

variable {o x : Overload} {xs : List Overload}

theorem place_ne_nil (o : Overload) (xs : List Overload) : place o xs ≠ [] := by
  cases xs with
  | nil => exact List.cons_ne_nil o []
  | cons x xs =>
    unfold place
    split <;> exact List.cons_ne_nil _ _

theorem eq_or_mem_of_mem_place (h : x ∈ place o xs) : x = o ∨ x ∈ xs := by
  induction xs with
  | nil => exact .inl (List.mem_singleton.1 h)
  | cons y ys ih =>
    unfold place at h
    split at h
    · exact (List.mem_cons.1 h).imp_right (List.mem_cons_of_mem y)
    · rcases List.mem_cons.1 h with rfl | h
      · exact .inr (.head ys)
      · exact (ih h).imp_right (List.mem_cons_of_mem y)

end Table

/-- The overloads of every name that has any, in order. -/
abbrev Index := FunctionName → Option (List Overload)

namespace Index

instance : EmptyCollection Index := ⟨fun _ => none⟩

/-- What a key with these overloads maps to. A key without any is not in the map. -/
def entry (os : List Overload) : Option (List Overload) := if os = [] then none else some os

/-- The map with the overload under its name, in the place of the one with the same signature or at
the end. -/
def insert (m : Index) (o : Overload) : Index :=
  Function.update m o.name (some (Table.place o ((m o.name).getD [])))

/-- The map with more overloads, inserted from left to right. -/
def insertAll (m : Index) (os : List Overload) : Index := os.foldl insert m

/-- The map without the keys of the schema. -/
def dropSchema (m : Index) (s : String) : Index := fun k => if k.schema = some s then none else m k

/-- The map after a change. -/
def apply (m : Index) (c : Change) : Index := (m.dropSchema c.schema).insertAll c.overloads

/-- The map after a history. -/
def run (m : Index) (cs : List Change) : Index := cs.foldl apply m

variable {m : Index} {k : FunctionName} {o : Overload} {os : List Overload}

theorem getD_entry (os : List Overload) : (entry os).getD [] = os := by
  unfold entry
  split
  · rename_i h
    exact h.symm
  · rfl

theorem entry_of_ne_nil (h : os ≠ []) : entry os = some os := if_neg h

theorem bind_entry_find? (os : List Overload) (f : Overload → Bool) :
    (entry os).bind (fun xs => xs.find? f) = os.find? f := by
  unfold entry
  split
  · rename_i h
    rw [h]
    rfl
  · rfl

theorem insert_self (m : Index) (o : Overload) :
    m.insert o o.name = some (Table.place o ((m o.name).getD [])) :=
  Function.update_self ..

/-- **Insertion touches one key only.** -/
theorem insert_of_ne (m : Index) (h : o.name ≠ k) : m.insert o k = m k :=
  Function.update_of_ne h.symm ..

/-! ### What holds of every map that arises -/

/-- Every key has overloads, those of its name, and no two of them have the same signature. -/
structure Valid (m : Index) : Prop where
  ne_nil : ∀ {k os}, m k = some os → os ≠ []
  name_eq : ∀ {k os}, m k = some os → ∀ o ∈ os, o.name = k
  nodup : ∀ {k os}, m k = some os → (os.map (·.signature)).Nodup

theorem Valid.empty : (∅ : Index).Valid where
  ne_nil h := nomatch h
  name_eq h := nomatch h
  nodup h := nomatch h

theorem Valid.name_eq_of_mem_getD (hm : m.Valid) (ho : o ∈ (m k).getD []) : o.name = k := by
  cases hk : m k with
  | none =>
    rw [hk] at ho
    cases ho
  | some os =>
    rw [hk] at ho
    exact hm.name_eq hk o ho

theorem Valid.nodup_getD (hm : m.Valid) (k : FunctionName) :
    (((m k).getD []).map (·.signature)).Nodup := by
  cases hk : m k with
  | none => exact List.nodup_nil
  | some os => exact hm.nodup hk

/-- **Insertion keeps a map well formed.** -/
theorem Valid.insert (hm : m.Valid) (o : Overload) : (m.insert o).Valid := by
  -- only the key of the overload has changed, and it has what `place` makes of the old list
  have hcases : ∀ {k os}, m.insert o k = some os →
      k = o.name ∧ os = Table.place o ((m o.name).getD []) ∨ m k = some os := by
    intro k os h
    by_cases hk : o.name = k
    · subst hk
      rw [insert_self] at h
      exact .inl ⟨rfl, (Option.some.inj h).symm⟩
    · rw [insert_of_ne m hk] at h
      exact .inr h
  constructor
  case ne_nil =>
    intro k os h
    rcases hcases h with ⟨rfl, rfl⟩ | h
    · exact Table.place_ne_nil o _
    · exact hm.ne_nil h
  case name_eq =>
    intro k os h x hx
    rcases hcases h with ⟨rfl, rfl⟩ | h
    · rcases Table.eq_or_mem_of_mem_place hx with rfl | hx
      · rfl
      · exact hm.name_eq_of_mem_getD hx
    · exact hm.name_eq h x hx
  case nodup =>
    intro k os h
    rcases hcases h with ⟨rfl, rfl⟩ | h
    · exact Table.nodup_signatures_insert (t := ⟨_⟩) (hm.nodup_getD o.name) o
    · exact hm.nodup h

theorem Valid.insertAll (hm : m.Valid) (os : List Overload) : (m.insertAll os).Valid := by
  induction os generalizing m with
  | nil => exact hm
  | cons o os ih => exact ih (hm.insert o)

theorem Valid.dropSchema (hm : m.Valid) (s : String) : (m.dropSchema s).Valid := by
  have hkept : ∀ {k os}, m.dropSchema s k = some os → m k = some os := by
    intro k os h
    unfold Index.dropSchema at h
    split at h
    · cases h
    · exact h
  exact ⟨fun h => hm.ne_nil (hkept h), fun h => hm.name_eq (hkept h), fun h => hm.nodup (hkept h)⟩

/-- **Every history keeps a map well formed.** -/
theorem Valid.run (hm : m.Valid) (cs : List Change) : (m.run cs).Valid := by
  induction cs generalizing m with
  | nil => exact hm
  | cons c cs ih => exact ih ((hm.dropSchema c.schema).insertAll c.overloads)

end Index

/-! ### The map of a table -/

namespace Table

variable {t : Table}

/-- The groups of the table, under their names. -/
def index (t : Table) : Index := fun k => Index.entry (t.group k)

theorem getD_index (t : Table) (k : FunctionName) : (t.index k).getD [] = t.group k :=
  Index.getD_entry _

/-- **To insert into a table is to insert into its map.** -/
theorem index_insert (t : Table) (o : Overload) : (t.insert o).index = t.index.insert o := by
  funext k
  have hgroup : (t.insert o).group k = if o.name = k then place o (t.group k) else t.group k :=
    filter_place o k t.overloads
  show Index.entry ((t.insert o).group k) = t.index.insert o k
  rw [hgroup]
  by_cases hk : o.name = k
  · subst hk
    rw [if_pos rfl, Index.insert_self, getD_index]
    exact Index.entry_of_ne_nil (place_ne_nil o _)
  · rw [if_neg hk, Index.insert_of_ne _ hk]
    rfl

theorem index_insertAll (t : Table) (os : List Overload) :
    (t.insertAll os).index = t.index.insertAll os := by
  induction os generalizing t with
  | nil => rfl
  | cons o os ih =>
    refine (ih (t.insert o)).trans ?_
    rw [index_insert]
    rfl

theorem index_dropSchema (t : Table) (s : String) :
    (t.dropSchema s).index = t.index.dropSchema s := by
  funext k
  unfold index Index.dropSchema
  rw [group_dropSchema]
  split <;> rfl

/-- An overload is found among those under the name of its signature. -/
theorem bind_index_find? (t : Table) (s : Signature) :
    (t.index s.name).bind (fun os => os.find? (·.signature = s)) = t.find? s := by
  have hgroup : (t.group s.name).find? (·.signature = s) = t.find? s := by
    rw [group, List.find?_filter, find?]
    congr 1
    funext o
    by_cases ho : o.signature = s <;> simp [Overload.name, ho]
  rw [← hgroup, index]
  exact Index.bind_entry_find? _ _

end Table

namespace Registry

variable {r r' : Registry} {k : FunctionName}

/-- **What is found depends on the maps of the two tables alone**, not on the order of the names. -/
theorem lookup_congr (hb : r.builtins.index = r'.builtins.index)
    (hu : r.userDefined.index = r'.userDefined.index) :
    r.group = r'.group ∧ r.candidates = r'.candidates ∧ r.find? = r'.find? := by
  have hbuiltins : r.builtins.group = r'.builtins.group := by
    funext n
    rw [← Table.getD_index, hb, Table.getD_index]
  have huser : r.userDefined.group = r'.userDefined.group := by
    funext n
    rw [← Table.getD_index, hu, Table.getD_index]
  refine ⟨?_, ?_, ?_⟩
  · funext n
    rw [group, group, hbuiltins, huser]
  · funext n p
    simp only [candidates, Table.candidates, hbuiltins, huser]
  · funext s
    simp only [find?, ← Table.bind_index_find?, hb, hu]

theorem index_userDefined_apply (r : Registry) (c : Change) :
    (r.apply c).userDefined.index = r.userDefined.index.apply c := by
  rw [userDefined_apply, Table.index_insertAll, Table.index_dropSchema]
  rfl

theorem index_userDefined_run (r : Registry) (cs : List Change) :
    (r.run cs).userDefined.index = r.userDefined.index.run cs := by
  induction cs generalizing r with
  | nil => rfl
  | cons c cs ih =>
    refine (ih (r.apply c)).trans ?_
    rw [index_userDefined_apply]
    rfl

/-- **What a registration leaves under a key**: in the schema, what is registered there; in any other
schema, what has been there, with what is registered merged into it. -/
theorem index_registerSchema (hr : r.Reachable) (s : String) (es : List Overload)
    (k : FunctionName) :
    (r.registerSchema s es).userDefined.index k =
      Index.entry (if k.schema = some s then Overload.collapse (es.filter (·.name = k))
        else Overload.merge ((r.userDefined.index k).getD []) (es.filter (·.name = k))) := by
  have hdistinct : (r.userDefined.dropSchema s).Distinct := hr.distinct_userDefined.dropSchema s
  show Index.entry (((r.userDefined.dropSchema s).insertAll es).group k) = _
  rw [hdistinct.group_insertAll, Table.group_dropSchema, Table.getD_index]
  split
  · rw [Overload.merge_nil_left]
  · rfl

/-- Overloads of another schema come in, and one of them is known there. -/
example :
    ((registerSchema {} "a" [script "a" "f" .integer "1", script "a" "f" .text "2"]).registerSchema
        "b" [script "a" "f" .bigint "3", script "a" "f" .integer "4"]).userDefined.group
        ⟨some "a", "f"⟩ =
      [script "a" "f" .integer "4", script "a" "f" .text "2", script "a" "f" .bigint "3"] := by
  decide

/-- To register the same overloads again changes nothing. -/
theorem index_registerSchema_registerSchema (hr : r.Reachable) (s : String) (es : List Overload) :
    ((r.registerSchema s es).registerSchema s es).userDefined.index =
      (r.registerSchema s es).userDefined.index := by
  funext k
  rw [index_registerSchema (hr.register s es), index_registerSchema hr]
  split
  · rfl
  · have hnodup : ((r.userDefined.group k).map (·.signature)).Nodup :=
      hr.distinct_userDefined.sublist (List.filter_sublist.map _)
    rw [Index.getD_entry, Table.getD_index, Table.merge_merge hnodup]

/-- **What a registry holds under each name.** Both tables are maps that insertions and changes have
built, and they are well formed. A registration touches nothing that is built in. It leaves under the
names of its schema what it registers there, and under every other name what has been there, with
what it registers merged into it; to register the same again changes nothing. -/
theorem index_run (os : List Overload) (cs : List Change) :
    let r := run { builtins := .ofList os } cs
    (r.builtins.index = Index.insertAll ∅ os ∧ r.builtins.index.Valid) ∧
      (r.userDefined.index = Index.run ∅ cs ∧ r.userDefined.index.Valid) ∧
      ∀ (s : String) (es : List Overload),
        (r.registerSchema s es).builtins = r.builtins ∧
        (∀ k, (r.registerSchema s es).userDefined.index k =
          Index.entry (if k.schema = some s then Overload.collapse (es.filter (·.name = k))
            else Overload.merge ((r.userDefined.index k).getD []) (es.filter (·.name = k)))) ∧
        ((r.registerSchema s es).registerSchema s es).userDefined.index =
          (r.registerSchema s es).userDefined.index := by
  intro r
  have hr : r.Reachable := (Reachable.build os).run cs
  have hbuiltins : r.builtins.index = Index.insertAll ∅ os := by
    rw [builtins_run]
    exact Table.index_insertAll ∅ os
  have huser : r.userDefined.index = Index.run ∅ cs := index_userDefined_run _ cs
  refine ⟨⟨hbuiltins, ?_⟩, ⟨huser, ?_⟩, fun s es => ⟨rfl, fun k => ?_, ?_⟩⟩
  · rw [hbuiltins]
    exact Index.Valid.empty.insertAll os
  · rw [huser]
    exact Index.Valid.empty.run cs
  · exact index_registerSchema hr s es k
  · exact index_registerSchema_registerSchema hr s es

end Registry

end Overloading
