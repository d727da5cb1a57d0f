import Overloading.Proofs.Registry.Contents

/-! # Histories of a registry

The user-defined overloads change by the registration and deregistration of schemas (`Change`), and
a history is a list of such changes, read from left to right (`Registry.run`). The registries that
arise from a list of built-in overloads are those that some history leads to
(`Registry.reachable_iff`).

A change is local if it registers nothing outside its schema. A local change replaces the groups of
its schema and touches no other group (`Registry.group_apply`), so after local changes the group of a
name holds what the last change to its schema has put there (`Registry.group_run`). -/

namespace Overloading

/-- A change to the user-defined overloads of a schema: others take their place, or they are
removed. -/
inductive Change
  | register (schema : String) (overloads : List Overload)
  | deregister (schema : String)
  deriving DecidableEq

namespace Change

/-- The schema that changes. -/
def schema : Change → String
  | register s _ => s
  | deregister s => s

/-- The overloads that are registered. -/
def overloads : Change → List Overload
  | register _ os => os
  | deregister _ => []

/-- Whatever is registered is named in the schema that changes. -/
def IsLocal (c : Change) : Prop := ∀ o ∈ c.overloads, o.name.schema = some c.schema

instance (c : Change) : Decidable c.IsLocal :=
  inferInstanceAs (Decidable (∀ o ∈ c.overloads, o.name.schema = some c.schema))

/-- The last of the changes to the schema. -/
def last? (cs : List Change) (s : String) : Option Change := cs.reverse.find? (·.schema = s)

theorem last?_concat (cs : List Change) (c : Change) (s : String) :
    last? (cs ++ [c]) s = if c.schema = s then some c else last? cs s := by
  unfold last?
  rw [List.reverse_append, List.reverse_singleton, List.singleton_append, List.find?_cons]
  by_cases h : c.schema = s <;> simp [h]

end Change

namespace Registry

variable {r : Registry} {c d : Change} {cs : List Change} {k : FunctionName}

/-- The registry after a change. -/
def apply (r : Registry) : Change → Registry
  | .register s os => r.registerSchema s os
  | .deregister s => r.deregisterSchema s

/-- The registry after a history. -/
def run (r : Registry) (cs : List Change) : Registry := cs.foldl apply r

theorem run_concat (r : Registry) (cs : List Change) (c : Change) :
    r.run (cs ++ [c]) = (r.run cs).apply c :=
  List.foldl_concat apply r c cs

theorem userDefined_apply (r : Registry) (c : Change) :
    (r.apply c).userDefined = (r.userDefined.dropSchema c.schema).insertAll c.overloads := by
  cases c <;> rfl

theorem builtins_apply (r : Registry) (c : Change) : (r.apply c).builtins = r.builtins := by
  cases c <;> rfl

/-- **No change touches what is built in.** -/
theorem builtins_run (r : Registry) (cs : List Change) : (r.run cs).builtins = r.builtins := by
  induction cs generalizing r with
  | nil => rfl
  | cons c cs ih => exact (ih (r.apply c)).trans (builtins_apply r c)

theorem Reachable.run (h : r.Reachable) (cs : List Change) : (r.run cs).Reachable := by
  induction cs generalizing r with
  | nil => exact h
  | cons c cs ih =>
    cases c with
    | register s os => exact ih (h.register s os)
    | deregister s => exact ih (h.deregister s)

/-- **The registries that arise are those that a history leads to.** -/
theorem reachable_iff :
    r.Reachable ↔ ∃ (os : List Overload) (cs : List Change), r = run { builtins := .ofList os } cs := by
  constructor
  · intro h
    induction h with
    | build os => exact ⟨os, [], rfl⟩
    | register s os _ ih =>
      obtain ⟨bs, cs, rfl⟩ := ih
      exact ⟨bs, cs ++ [Change.register s os], (run_concat _ cs (.register s os)).symm⟩
  · rintro ⟨os, cs, rfl⟩
    exact (Reachable.build os).run cs

/-! ### Local changes -/

/-- **A local change replaces the groups of its schema and touches no other.** -/
theorem group_apply (hc : c.IsLocal) (r : Registry) (k : FunctionName) :
    (r.apply c).userDefined.group k =
      if k.schema = some c.schema then Overload.collapse (c.overloads.filter (·.name = k))
      else r.userDefined.group k := by
  have hdrop := Table.group_dropSchema r.userDefined c.schema k
  rw [userDefined_apply]
  split
  · rename_i hk
    rw [if_pos hk] at hdrop
    exact Table.group_insertAll_of_group_eq_nil hdrop c.overloads
  · rename_i hk
    rw [if_neg hk] at hdrop
    rw [← hdrop]
    refine Table.group_insertAll_of_forall_ne _ fun o ho hok => hk ?_
    rw [← hok, hc o ho]

/-- What a history of local changes has put under a name, after a registry `r`: what the last change
to the schema of the name registers there. -/
theorem group_run (hcs : ∀ c ∈ cs, c.IsLocal) (r : Registry) (k : FunctionName) :
    (r.run cs).userDefined.group k =
      match k.schema.bind (Change.last? cs) with
      | none => r.userDefined.group k
      | some c => Overload.collapse (c.overloads.filter (·.name = k)) := by
  induction cs using List.reverseRecOn with
  | nil =>
    cases k.schema <;> rfl
  | append_singleton cs c ih =>
    have hc : c.IsLocal := hcs c (by simp)
    rw [run_concat, group_apply hc, ih fun c hmem => hcs c (by simp [hmem])]
    cases hk : k.schema with
    | none => rfl
    | some s =>
      rw [Option.bind_some, Option.bind_some, Change.last?_concat]
      by_cases hs : c.schema = s
      · rw [if_pos hs, if_pos (congrArg some hs.symm)]
      · rw [if_neg hs, if_neg fun h => hs (Option.some.inj h).symm]

/-- Two neighbouring changes to different schemas may change places in a history. -/
theorem group_run_swap {cs' : List Change} (hcs : ∀ e ∈ cs ++ c :: d :: cs', e.IsLocal)
    (hne : c.schema ≠ d.schema) (r : Registry) (k : FunctionName) :
    (r.run (cs ++ c :: d :: cs')).userDefined.group k =
      (r.run (cs ++ d :: c :: cs')).userDefined.group k := by
  have hperm : (cs ++ d :: c :: cs').Perm (cs ++ c :: d :: cs') :=
    (List.Perm.swap c d cs').append_left cs
  have hlast : Change.last? (cs ++ c :: d :: cs') = Change.last? (cs ++ d :: c :: cs') := by
    funext s
    by_cases hc : c.schema = s
    · have hd : d.schema ≠ s := fun hd => hne (hc.trans hd.symm)
      simp [Change.last?, List.find?_append, hc, hd]
    · by_cases hd : d.schema = s <;> simp [Change.last?, List.find?_append, hc, hd]
  rw [group_run hcs, group_run fun e he => hcs e (hperm.subset he), hlast]

/-- **Every schema holds what its last change has registered.** Start without user-defined
overloads and let every change be local. Then there is nothing under a name without a schema, nor
under a name whose schema no change is about. Under any other name are the overloads of this name
that the last change to its schema registers, those of one signature collapsed. So neighbouring
changes to different schemas may change places, and a change to one schema loses nothing of
another. -/
theorem userDefined_run (b : Table) (hcs : ∀ c ∈ cs, c.IsLocal) :
    (∀ k, (run { builtins := b } cs).userDefined.group k =
      match k.schema.bind (Change.last? cs) with
      | none => []
      | some c => Overload.collapse (c.overloads.filter (·.name = k))) ∧
    (∀ (r : Registry) (ds es : List Change) (c d : Change),
      (∀ e ∈ ds ++ c :: d :: es, e.IsLocal) → c.schema ≠ d.schema →
      ∀ k, (r.run (ds ++ c :: d :: es)).userDefined.group k =
        (r.run (ds ++ d :: c :: es)).userDefined.group k) ∧
    ∀ (r : Registry) (c : Change), c.IsLocal → ∀ k : FunctionName, k.schema ≠ some c.schema →
      (r.apply c).userDefined.group k = r.userDefined.group k := by
  refine ⟨fun k => group_run hcs _ k, fun r ds es c d hlocal hne k => ?_, fun r c hc k hk => ?_⟩
  · exact group_run_swap hlocal hne r k
  · rw [group_apply hc, if_neg hk]

/-- The user-defined overload `schema.name(arg):arg` with this definition. -/
def script (schema name : String) (arg : Scalar) (definition : String) : Overload where
  signature :=
    { name := ⟨some schema, name⟩, args := [(SqlType.scalar arg).toTerm],
      ret := (SqlType.scalar arg).toTerm }
  origin := .userDefined "javascript" definition

/-- `b.f` comes and goes while `a.f(integer)` is registered twice in one change. -/
def redefinition : List Change :=
  [.register "b" [script "b" "f" .text "0"],
    .register "a" [script "a" "f" .integer "1", script "a" "g" .text "2",
      script "a" "f" .bigint "3", script "a" "f" .integer "4"],
    .deregister "b"]

theorem userDefined_run_redefinition :
    (∀ c ∈ redefinition, c.IsLocal) ∧
      (run {} redefinition).userDefined.group ⟨some "a", "f"⟩ =
        [script "a" "f" .integer "4", script "a" "f" .bigint "3"] ∧
      (run {} redefinition).userDefined.group ⟨some "b", "f"⟩ = [] ∧
      (run {} redefinition).userDefined.group ⟨none, "f"⟩ = [] ∧
      ∀ k, (run {} redefinition).userDefined.group k =
        (run {} [redefinition[0], redefinition[2], redefinition[1]]).userDefined.group k := by
  have hlocal : ∀ c ∈ redefinition, c.IsLocal := by decide
  have hgroup := (userDefined_run ∅ hlocal).1
  refine ⟨hlocal, (hgroup _).trans (by decide), (hgroup _).trans (by decide),
    (hgroup _).trans (by decide), fun k => ?_⟩
  exact (userDefined_run ∅ hlocal).2.1 {} [redefinition[0]] [] redefinition[1] redefinition[2]
    hlocal (by decide) k

end Registry

end Overloading
