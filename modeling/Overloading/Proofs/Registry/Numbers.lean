import Mathlib.Data.List.Dedup
import Overloading.Proofs.Registry.Index

/-! # Functions by number

A number is looked up in the two maps of the registry, the user-defined one first, and a map is gone
through name by name in an order that is left open (`Index.Lists`). Several signatures may have one
number, so the answer depends on that order. Whatever it is, the answer is registered, it is
user-defined if that is possible, and it comes first among the overloads of its name
(`Registry.Answers`); there is no answer only if no signature has the number
(`Registry.scanByOid?_eq_none_iff`). Every such answer is that of some order
(`Registry.exists_scanByOid?_iff`), the one that the registry gives by itself among them
(`Registry.exists_findByOid?_eq`). -/

namespace Overloading

namespace Index

variable {m : Index} {k : FunctionName} {ks ks' : List FunctionName}

/-- An order of the names in the map: each of them is listed once. -/
structure Lists (m : Index) (ks : List FunctionName) : Prop where
  nodup : ks.Nodup
  mem_iff : ∀ k, k ∈ ks ↔ (m k).isSome = true

/-- The overloads in the map if its names come in this order. -/
def values (m : Index) (ks : List FunctionName) : List Overload := ks.flatMap fun k => (m k).getD []

theorem Lists.perm (h : m.Lists ks) (hp : ks'.Perm ks) : m.Lists ks' :=
  ⟨hp.nodup_iff.2 h.nodup, fun k => hp.mem_iff.trans (h.mem_iff k)⟩

/-- Any name may come first. -/
theorem Lists.exists_cons (h : m.Lists ks) (hk : k ∈ ks) : ∃ ks', m.Lists (k :: ks') :=
  ⟨ks.erase k, h.perm (List.perm_cons_erase hk).symm⟩

end Index

namespace Table

variable {t : Table} {s : Signature} {oid : Int32} {n : FunctionName} {ks : List FunctionName}

/-- The signatures in the table, in order. -/
def signatures (t : Table) : List Signature := t.overloads.map (·.signature)

/-- Of the overloads of its name, this is the first with the number. -/
def IsFirst (t : Table) (oid : Int32) (s : Signature) : Prop :=
  ((t.group s.name).map (·.signature)).find? (·.oid = oid) = some s

theorem map_signature_group (t : Table) (n : FunctionName) :
    (t.group n).map (·.signature) = t.signatures.filter (·.name = n) := by
  rw [signatures, List.filter_map]
  rfl

theorem isSome_index_iff : (t.index n).isSome = true ↔ ∃ s ∈ t.signatures, s.name = n := by
  unfold index Index.entry
  have hgroup : t.group n = [] ↔ ∀ s ∈ t.signatures, s.name ≠ n := by
    rw [← List.map_eq_nil_iff, map_signature_group, List.filter_eq_nil_iff]
    simp
  split
  · rename_i h
    simpa using hgroup.1 h
  · rename_i h
    simpa using mt hgroup.2 h

/-- The names of the overloads, without repeats and in whatever order, are an order of the names in
the map. -/
theorem lists_of_perm (h : ks.Perm (t.signatures.map (·.name)).dedup) : t.index.Lists ks := by
  have hnames : t.index.Lists (t.signatures.map (·.name)).dedup := by
    refine ⟨List.nodup_dedup _, fun k => ?_⟩
    rw [List.mem_dedup, isSome_index_iff, List.mem_map]
  exact hnames.perm h

theorem exists_lists (t : Table) : ∃ ks, t.index.Lists ks := ⟨_, lists_of_perm (.refl _)⟩

theorem mem_values (hks : t.index.Lists ks) :
    s ∈ (t.index.values ks).map (·.signature) ↔ s ∈ t.signatures := by
  have hvalue : s ∈ (t.index.values ks).map (·.signature) ↔
      ∃ k ∈ ks, s ∈ t.signatures ∧ s.name = k := by
    simp [Index.values, List.map_flatMap, getD_index, map_signature_group]
  rw [hvalue]
  constructor
  · rintro ⟨k, -, hs, -⟩
    exact hs
  · intro hs
    exact ⟨s.name, (hks.mem_iff s.name).2 (isSome_index_iff.2 ⟨s, hs, rfl⟩), hs, rfl⟩

/-! ### The first signature with a number -/

theorem IsFirst.mem (h : t.IsFirst oid s) : s ∈ t.signatures ∧ s.oid = oid := by
  have hs : s ∈ (t.group s.name).map (·.signature) := List.mem_of_find?_eq_some h
  rw [map_signature_group, List.mem_filter] at hs
  exact ⟨hs.1, by simpa using List.find?_some h⟩

/-- The search through a map is one search for each name, in turn. -/
theorem find?_values (t : Table) (ks : List FunctionName) (oid : Int32) :
    ((t.index.values ks).map (·.signature)).find? (·.oid = oid) =
      ks.findSome? fun k => ((t.group k).map (·.signature)).find? (·.oid = oid) := by
  simp only [Index.values, List.map_flatMap, List.find?_flatMap, getD_index]

/-- **What is met first in a map is the first of its name.** -/
theorem isFirst_of_find?_values
    (h : ((t.index.values ks).map (·.signature)).find? (·.oid = oid) = some s) :
    t.IsFirst oid s := by
  rw [find?_values] at h
  obtain ⟨k, -, hk⟩ := List.exists_of_findSome?_eq_some h
  have hs : s ∈ (t.group k).map (·.signature) := List.mem_of_find?_eq_some hk
  rw [map_signature_group, List.mem_filter, decide_eq_true_eq] at hs
  obtain ⟨-, rfl⟩ := hs
  exact hk

theorem find?_values_eq_none_iff (hks : t.index.Lists ks) :
    ((t.index.values ks).map (·.signature)).find? (·.oid = oid) = none ↔
      ∀ u ∈ t.signatures, u.oid ≠ oid := by
  simp only [List.find?_eq_none, mem_values hks, decide_eq_true_eq, ne_eq]

/-- The first of a name is met first if its name comes first. -/
theorem IsFirst.exists_lists (h : t.IsFirst oid s) :
    ∃ ks, t.index.Lists ks ∧
      ((t.index.values ks).map (·.signature)).find? (·.oid = oid) = some s := by
  obtain ⟨ks, hks⟩ := t.exists_lists
  have hname : s.name ∈ ks := (hks.mem_iff s.name).2 (isSome_index_iff.2 ⟨s, h.mem.1, rfl⟩)
  obtain ⟨ks', hks'⟩ := hks.exists_cons hname
  refine ⟨s.name :: ks', hks', ?_⟩
  have hfirst : ((t.group s.name).map (·.signature)).find? (·.oid = oid) = some s := h
  rw [find?_values, List.findSome?_cons, hfirst]

/-- What comes first in the whole table is the first of its name. -/
theorem isFirst_of_find? (h : t.signatures.find? (·.oid = oid) = some s) : t.IsFirst oid s := by
  obtain ⟨hs, before, after, hsplit, hbefore⟩ := List.find?_eq_some_iff_append.1 h
  unfold IsFirst
  rw [map_signature_group, List.find?_eq_some_iff_append, hsplit]
  refine ⟨hs, before.filter (·.name = s.name), after.filter (·.name = s.name), by simp, ?_⟩
  exact fun u hu => hbefore u (List.mem_of_mem_filter hu)

theorem mem_signatures_dropSchema {sc : String} :
    s ∈ (t.dropSchema sc).signatures ↔ s ∈ t.signatures ∧ s.name.schema ≠ some sc := by
  have hsignatures : (t.dropSchema sc).signatures =
      t.signatures.filter (·.name.schema ≠ some sc) := by
    rw [signatures, signatures, List.filter_map]
    rfl
  rw [hsignatures, List.mem_filter, decide_eq_true_eq]

end Table

namespace Registry

variable {r : Registry} {s : Signature} {oid : Int32} {us bs : List FunctionName}

/-- The signatures that are registered, the user-defined ones first. -/
def signatures (r : Registry) : List Signature := r.userDefined.signatures ++ r.builtins.signatures

/-- The signature with this number that is met first if the names in the two maps come in these
orders. -/
def scanByOid? (r : Registry) (us bs : List FunctionName) (oid : Int32) : Option Signature :=
  ((r.userDefined.index.values us ++ r.builtins.index.values bs).map (·.signature)).find?
    (·.oid = oid)

/-- This may be answered for the number: a registered signature that has it, a user-defined one if
any has it, and in its table the first of its name that has it. -/
structure Answers (r : Registry) (oid : Int32) (s : Signature) : Prop where
  registered : s ∈ r.signatures
  oid_eq : s.oid = oid
  userDefined : (∃ u ∈ r.userDefined.signatures, u.oid = oid) → s ∈ r.userDefined.signatures
  first : r.userDefined.IsFirst oid s ∨
    (∀ u ∈ r.userDefined.signatures, u.oid ≠ oid) ∧ r.builtins.IsFirst oid s

theorem answers_iff :
    r.Answers oid s ↔ r.userDefined.IsFirst oid s ∨
      (∀ u ∈ r.userDefined.signatures, u.oid ≠ oid) ∧ r.builtins.IsFirst oid s := by
  refine ⟨Answers.first, fun h => ?_⟩
  rcases h with hu | ⟨hnone, hb⟩
  · obtain ⟨hs, hoid⟩ := hu.mem
    exact ⟨List.mem_append_left _ hs, hoid, fun _ => hs, .inl hu⟩
  · obtain ⟨hs, hoid⟩ := hb.mem
    exact ⟨List.mem_append_right _ hs, hoid, fun ⟨u, hu, huoid⟩ => absurd huoid (hnone u hu),
      .inr ⟨hnone, hb⟩⟩

theorem scanByOid?_eq (r : Registry) (us bs : List FunctionName) (oid : Int32) :
    r.scanByOid? us bs oid =
      (((r.userDefined.index.values us).map (·.signature)).find? (·.oid = oid)).or
        (((r.builtins.index.values bs).map (·.signature)).find? (·.oid = oid)) := by
  rw [scanByOid?, List.map_append, List.find?_append]

/-! ### What is answered -/

section
variable (hus : r.userDefined.index.Lists us) (hbs : r.builtins.index.Lists bs)
include hus

/-- **Whatever is answered is one of the answers.** -/
theorem answers_of_scanByOid? (h : r.scanByOid? us bs oid = some s) : r.Answers oid s := by
  rw [scanByOid?_eq, Option.or_eq_some_iff, Table.find?_values_eq_none_iff hus] at h
  exact answers_iff.2 (h.imp Table.isFirst_of_find?_values
    (And.imp_right Table.isFirst_of_find?_values))

include hbs

/-- **There is no answer only if no signature has the number.** -/
theorem scanByOid?_eq_none_iff :
    r.scanByOid? us bs oid = none ↔ ∀ u ∈ r.signatures, u.oid ≠ oid := by
  rw [scanByOid?_eq, Option.or_eq_none_iff, Table.find?_values_eq_none_iff hus,
    Table.find?_values_eq_none_iff hbs, signatures, List.forall_mem_append]

/-- A signature that shares its number with no other one is found. -/
theorem scanByOid?_of_unique (hs : s ∈ r.signatures)
    (huniq : ∀ u ∈ r.signatures, u.oid = s.oid → u = s) :
    r.scanByOid? us bs s.oid = some s := by
  cases h : r.scanByOid? us bs s.oid with
  | none => exact absurd rfl ((scanByOid?_eq_none_iff hus hbs).1 h s hs)
  | some u =>
    have hu := answers_of_scanByOid? hus h
    rw [huniq u hu.registered hu.oid_eq]

end

/-- **Every answer is that of some order.** -/
theorem exists_scanByOid?_iff :
    (∃ us bs, r.userDefined.index.Lists us ∧ r.builtins.index.Lists bs ∧
      r.scanByOid? us bs oid = some s) ↔ r.Answers oid s := by
  constructor
  · rintro ⟨us, bs, hus, -, h⟩
    exact answers_of_scanByOid? hus h
  · intro h
    obtain ⟨us, hus⟩ := r.userDefined.exists_lists
    obtain ⟨bs, hbs⟩ := r.builtins.exists_lists
    rcases h.first with hu | ⟨hnone, hb⟩
    · obtain ⟨us', hus', hfind⟩ := hu.exists_lists
      exact ⟨us', bs, hus', hbs, by rw [scanByOid?_eq, hfind]; rfl⟩
    · obtain ⟨bs', hbs', hfind⟩ := hb.exists_lists
      have hskip := (Table.find?_values_eq_none_iff hus).2 hnone
      exact ⟨us, bs', hus, hbs', by rw [scanByOid?_eq, hskip, hfind]; rfl⟩

/-- The registry answers as it may in some order of the names. -/
theorem exists_findByOid?_eq (r : Registry) (oid : Int32) :
    ∃ us bs, r.userDefined.index.Lists us ∧ r.builtins.index.Lists bs ∧
      r.findByOid? oid = r.scanByOid? us bs oid := by
  have hfind : r.findByOid? oid = r.signatures.find? (·.oid = oid) := by
    rw [findByOid?, List.map_append]
    rfl
  cases h : r.signatures.find? (·.oid = oid) with
  | none =>
    obtain ⟨us, hus⟩ := r.userDefined.exists_lists
    obtain ⟨bs, hbs⟩ := r.builtins.exists_lists
    refine ⟨us, bs, hus, hbs, ?_⟩
    rw [hfind, h, eq_comm, scanByOid?_eq_none_iff hus hbs]
    simpa using h
  | some s =>
    have hanswer : r.Answers oid s := by
      rw [signatures, List.find?_append, Option.or_eq_some_iff] at h
      refine answers_iff.2 (h.imp Table.isFirst_of_find? fun ⟨hnone, hb⟩ => ⟨?_, ?_⟩)
      · simpa using hnone
      · exact Table.isFirst_of_find? hb
    obtain ⟨us, bs, hus, hbs, hscan⟩ := exists_scanByOid?_iff.2 hanswer
    exact ⟨us, bs, hus, hbs, by rw [hfind, h, hscan]⟩

/-! ### What is answered after a schema is gone -/

theorem mem_signatures_deregisterSchema {sc : String} :
    s ∈ (r.deregisterSchema sc).signatures ↔
      s ∈ r.userDefined.signatures ∧ s.name.schema ≠ some sc ∨ s ∈ r.builtins.signatures := by
  rw [signatures, List.mem_append]
  exact or_congr_left Table.mem_signatures_dropSchema

/-- **A signature is found no more once its schema is deregistered**, unless it is built in. -/
theorem scanByOid?_deregisterSchema {sc : String} (hsc : s.name.schema = some sc)
    (hus : (r.deregisterSchema sc).userDefined.index.Lists us) (hbs : r.builtins.index.Lists bs)
    (hother : ∀ u ∈ (r.deregisterSchema sc).signatures, u.oid = s.oid → u = s) :
    (r.deregisterSchema sc).scanByOid? us bs s.oid =
      if s ∈ r.builtins.signatures then some s else none := by
  split
  · rename_i hbuiltin
    exact scanByOid?_of_unique hus hbs (mem_signatures_deregisterSchema.2 (.inr hbuiltin)) hother
  · rename_i hbuiltin
    refine (scanByOid?_eq_none_iff hus hbs).2 fun u hu hoid => ?_
    obtain rfl := hother u hu hoid
    rcases mem_signatures_deregisterSchema.1 hu with ⟨-, hschema⟩ | hu
    · exact hschema hsc
    · exact hbuiltin hu

/-- **What is looked up by number is found, and user-defined functions come first.** In every registry
and whatever the orders are in which the names in its two maps come, a signature that is found may be
answered (`Answers`), and none is found only if no registered signature has the number. So a
registered signature that shares its number with no other one is found by it. If no other signature
has the number once the schema of the signature is deregistered, then it is found no more, unless it
is built in: then it is still found. What the registry finds by itself is found in some of these
orders. -/
theorem scanByOid?_sound_complete (hus : r.userDefined.index.Lists us)
    (hbs : r.builtins.index.Lists bs) :
    (∀ oid s, r.scanByOid? us bs oid = some s → r.Answers oid s) ∧
      (∀ oid, r.scanByOid? us bs oid = none ↔ ∀ u ∈ r.signatures, u.oid ≠ oid) ∧
      (∀ s ∈ r.signatures, (∀ u ∈ r.signatures, u.oid = s.oid → u = s) →
        r.scanByOid? us bs s.oid = some s) ∧
      (∀ s ∈ r.signatures, ∀ sc us', s.name.schema = some sc →
        (r.deregisterSchema sc).userDefined.index.Lists us' →
        (∀ u ∈ (r.deregisterSchema sc).signatures, u.oid = s.oid → u = s) →
        (r.deregisterSchema sc).scanByOid? us' bs s.oid =
          if s ∈ r.builtins.signatures then some s else none) ∧
      ∀ oid, ∃ us' bs', r.userDefined.index.Lists us' ∧ r.builtins.index.Lists bs' ∧
        r.findByOid? oid = r.scanByOid? us' bs' oid := by
  refine ⟨?_, ?_, ?_, ?_, exists_findByOid?_eq r⟩
  · exact fun oid s h => answers_of_scanByOid? hus h
  · exact fun oid => scanByOid?_eq_none_iff hus hbs
  · exact fun s hs huniq => scanByOid?_of_unique hus hbs hs huniq
  · exact fun s _ sc us' hsc hus' hother => scanByOid?_deregisterSchema hsc hus' hbs hother

/-- A user-defined function that takes the number of a built-in one, and one that shares its number
with no other. -/
theorem scanByOid?_sound_complete_dotted :
    let f : Signature := { name := { name := "a.b" } }
    let g : Signature := { name := ⟨some "a", "b"⟩ }
    let h : Signature := { name := ⟨some "a", "c"⟩ }
    let r := run { builtins := .ofList [⟨f, .builtin⟩] }
      [.register "a" [⟨g, .userDefined "javascript" ""⟩, ⟨h, .userDefined "javascript" ""⟩]]
    r.userDefined.index.Lists [h.name, g.name] ∧ r.builtins.index.Lists [f.name] ∧
      r.scanByOid? [h.name, g.name] [f.name] f.oid = some g ∧ r.Answers f.oid g ∧
      r.scanByOid? [h.name, g.name] [f.name] h.oid = some h ∧
      (r.deregisterSchema "a").scanByOid? [] [f.name] h.oid = none := by
  intro f g h r
  have hus : r.userDefined.index.Lists [h.name, g.name] := Table.lists_of_perm (by decide +kernel)
  have hbs : r.builtins.index.Lists [f.name] := Table.lists_of_perm (by decide +kernel)
  have hus' : (r.deregisterSchema "a").userDefined.index.Lists [] :=
    Table.lists_of_perm (by decide +kernel)
  obtain ⟨hanswers, -, hfound, hgone, -⟩ := scanByOid?_sound_complete hus hbs
  have hscan : r.scanByOid? [h.name, g.name] [f.name] f.oid = some g := by decide +kernel
  have hh : h ∈ r.signatures := by decide +kernel
  have hdrop := hgone h hh "a" [] rfl hus' (by decide +kernel)
  rw [if_neg (by decide +kernel)] at hdrop
  exact ⟨hus, hbs, hscan, hanswers f.oid g hscan, hfound h hh (by decide +kernel), hdrop⟩

/-- A signature that is built in is found whatever schema is deregistered, its own included. -/
theorem not_forall_scanByOid?_deregisterSchema :
    ¬ ∀ r : Registry, r.Reachable → ∀ us bs, r.userDefined.index.Lists us →
      r.builtins.index.Lists bs → ∀ s ∈ r.signatures,
        (∀ u ∈ r.signatures, u.oid = s.oid → u = s) →
        r.scanByOid? us bs s.oid = some s ∧
        ∀ sc us', s.name.schema = some sc → (r.deregisterSchema sc).userDefined.index.Lists us' →
          (∀ u ∈ (r.deregisterSchema sc).signatures, u.oid = s.oid → u = s) →
          (r.deregisterSchema sc).scanByOid? us' bs s.oid = none := by
  intro hall
  let s : Signature := { name := ⟨some catalogSchema, "version"⟩, ret := .base "text" }
  let r : Registry := { builtins := .ofList [⟨s, .builtin⟩] }
  have hus : r.userDefined.index.Lists [] := Table.lists_of_perm (by decide +kernel)
  have hbs : r.builtins.index.Lists [s.name] := Table.lists_of_perm (by decide +kernel)
  have hus' : (r.deregisterSchema catalogSchema).userDefined.index.Lists [] :=
    Table.lists_of_perm (by decide +kernel)
  have hnone := (hall r (.build _) [] [s.name] hus hbs s (by decide +kernel)
    (by decide +kernel)).2 catalogSchema [] rfl hus' (by decide +kernel)
  have hfound : (r.deregisterSchema catalogSchema).scanByOid? [] [s.name] s.oid = some s := by
    decide +kernel
  rw [hfound] at hnone
  cases hnone

end Registry

end Overloading
