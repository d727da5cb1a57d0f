import Overloading.Proofs.Registry.Index
import Overloading.Proofs.Resolution.Settled

/-! # The first group decides

A call may mean several names, and each of them may have a group of overloads in either table. The
groups are tried in a fixed order (`Registry.groups`): those that are built in, under the name as it
is given and, if it has no schema, under the name in each schema of the search path, and then those
that users define, in the same way. The first group that is not empty (`Registry.firstGroup?`) holds
the candidates of the call (`Registry.candidates_eq_firstGroup?`), so the call depends on that group
only, and an error reports that group (`Registry.resolve_firstGroup?`).

A registry that is kept as two maps resolves a call in two stages. A stage looks the call up in one
map (`Index.lookup?`), reports it if the overloads that it finds do not fit, and leaves it to the
next stage only if it finds none (`Index.resolve?`). This comes to the same
(`Registry.resolveInTurn_eq`): a group that does not fit ends the search. -/

namespace Overloading

namespace Overload

variable {types : List SqlType} {os : List Overload}

/-- What a call of `n` comes to if it chooses from these overloads. -/
def outcome (n : FunctionName) (types : List SqlType) (os : List Overload) :
    Except ResolutionError Instantiation :=
  match select? types os with
  | some i => .ok i
  | none => .error (.unknownFunction n types (os.map (·.signature)))

theorem select?_nil (types : List SqlType) : select? types [] = none :=
  List.findSome?_eq_none_iff.2 fun _ _ => Tier.winner?_of_applicable_nil rfl

theorem outcome_nil (n : FunctionName) (types : List SqlType) :
    outcome n types [] = .error (.unknownFunction n types []) := by
  rw [outcome, select?_nil]
  rfl

end Overload

/-! ### Stages -/

namespace Index

/-- The overloads that a call of `n` finds in the map: those under the name as it is given or, if
there are none and it has no schema, those under the name in the first schema of the search path
that has any. -/
def lookup? (m : Index) (n : FunctionName) (p : SearchPath) : Option (List Overload) :=
  match m n with
  | some os => some os
  | none => if n.isQualified then none else p.effective.findSome? fun s => m (n.inSchema s)

/-- One stage: the function that the call means among the overloads that it finds in the map.
Without any it is left to the next stage. -/
def resolve? (m : Index) (n : FunctionName) (types : List SqlType) (p : SearchPath) :
    Except ResolutionError (Option Instantiation) :=
  match (m.lookup? n p).filter (!·.isEmpty) with
  | none => .ok none
  | some os => some <$> Overload.outcome n types os

/-- The keys are tried one by one. -/
theorem lookup?_eq (m : Index) (n : FunctionName) (p : SearchPath) :
    m.lookup? n p = (n.lookups p).findSome? m := by
  have hpath : (p.effective.map n.inSchema).findSome? m =
      p.effective.findSome? fun s => m (n.inSchema s) := by
    rw [List.findSome?_map]
    rfl
  unfold lookup? FunctionName.lookups
  cases n.isQualified with
  | true => cases hn : m n <;> simp [hn]
  | false => cases hn : m n <;> simp [hn, hpath]

end Index

namespace Table

/-- The first entry of the map of a table is the first group that is not empty. -/
theorem findSome?_index (t : Table) (ks : List FunctionName) :
    ks.findSome? t.index = (ks.map t.group).find? (!·.isEmpty) := by
  induction ks with
  | nil => rfl
  | cons k ks ih =>
    rw [List.findSome?_cons, List.map_cons, List.find?_cons, ih, index]
    cases hk : t.group k with
    | nil => rfl
    | cons o os => rfl

theorem lookup?_index (t : Table) (n : FunctionName) (p : SearchPath) :
    t.index.lookup? n p = ((n.lookups p).map t.group).find? (!·.isEmpty) := by
  rw [Index.lookup?_eq, findSome?_index]

/-- No key of the map of a table is without overloads, so a stage has nothing to sort out. -/
theorem filter_lookup?_index (t : Table) (n : FunctionName) (p : SearchPath) :
    (t.index.lookup? n p).filter (!·.isEmpty) = t.index.lookup? n p := by
  rw [lookup?_index]
  cases h : ((n.lookups p).map t.group).find? (!·.isEmpty) with
  | none => rfl
  | some os => rw [Option.filter_some, if_pos (List.find?_some h)]

/-- The signatures under a name after an insertion: those that were there, and then the new ones in
the order in which they are first inserted. -/
theorem signatures_group_insertAll (t : Table) (os : List Overload) (n : FunctionName) :
    ((t.insertAll os).group n).map (·.signature) =
      (t.group n).map (·.signature) ++
        (((os.filter (·.name = n)).filter (·.signature ∉ (t.group n).map (·.signature))).map
          (·.signature)).eraseDups := by
  rw [group_insertAll, signatures_insertAll]

end Table

/-! ### Groups -/

namespace Registry

variable {r : Registry} {n : FunctionName} {types : List SqlType} {p : SearchPath}
  {os : List Overload}

/-- The groups of the names that a call of `n` may mean, in the order in which they are tried. -/
def groups (r : Registry) (n : FunctionName) (p : SearchPath) : List (List Overload) :=
  (n.lookups p).map r.builtins.group ++ (n.lookups p).map r.userDefined.group

/-- The first of these groups that is not empty. -/
def firstGroup? (r : Registry) (n : FunctionName) (p : SearchPath) : Option (List Overload) :=
  (r.groups n p).find? (!·.isEmpty)

/-- The two stages, one after the other. -/
def resolveInTurn (r : Registry) (n : FunctionName) (types : List SqlType) (p : SearchPath) :
    Except ResolutionError Instantiation := do
  if let some i ← r.builtins.index.resolve? n types p then return i
  if let some i ← r.userDefined.index.resolve? n types p then return i
  throw (.unknownFunction n types [])

theorem ne_nil_of_firstGroup? (h : r.firstGroup? n p = some os) : os ≠ [] := by
  simpa using List.find?_some h

/-- The first group is found in the first map or, if there is none, in the second. -/
theorem firstGroup?_eq (r : Registry) (n : FunctionName) (p : SearchPath) :
    r.firstGroup? n p = (r.builtins.index.lookup? n p).or (r.userDefined.index.lookup? n p) := by
  rw [firstGroup?, groups, List.find?_append, Table.lookup?_index, Table.lookup?_index]

/-- **The candidates of a call are the first group.** -/
theorem candidates_eq_firstGroup? (r : Registry) (n : FunctionName) (p : SearchPath) :
    r.candidates n p = (r.firstGroup? n p).getD [] := by
  rw [candidates_eq, firstGroup?_eq, Table.lookup?_index, Table.lookup?_index]
  unfold Table.candidates
  cases h : ((n.lookups p).map r.builtins.group).find? (!·.isEmpty) with
  | none => rfl
  | some os =>
    have hne : os ≠ [] := by simpa using List.find?_some h
    rw [Option.getD_some, if_neg hne]
    rfl

/-- A call comes to what it comes to among the overloads of the first group. -/
theorem resolve_eq_outcome (r : Registry) (n : FunctionName) (types : List SqlType)
    (p : SearchPath) :
    r.resolve n types p = Overload.outcome n types ((r.firstGroup? n p).getD []) := by
  rw [← candidates_eq_firstGroup?]
  rfl

/-- **The stages come to the same.** -/
theorem resolveInTurn_eq (r : Registry) (n : FunctionName) (types : List SqlType) (p : SearchPath) :
    r.resolveInTurn n types p = r.resolve n types p := by
  rw [resolve_eq_outcome, firstGroup?_eq]
  unfold resolveInTurn Index.resolve?
  rw [Table.filter_lookup?_index, Table.filter_lookup?_index]
  cases r.builtins.index.lookup? n p with
  | some os =>
    -- the first stage decides, whether it resolves the call or reports it
    rw [Option.some_or, Option.getD_some]
    dsimp only
    cases Overload.outcome n types os <;> rfl
  | none =>
    rw [Option.none_or]
    cases r.userDefined.index.lookup? n p with
    | some os =>
      rw [Option.getD_some]
      dsimp only
      cases Overload.outcome n types os <;> rfl
    | none =>
      rw [Option.getD_none, Overload.outcome_nil]
      rfl

/-- What an error reports: the call as it is given, and the signatures of the first group. -/
theorem eq_unknownFunction_of_resolve {e : ResolutionError} (h : r.resolve n types p = .error e) :
    e = .unknownFunction n types (((r.firstGroup? n p).getD []).map (·.signature)) := by
  rw [← candidates_eq_firstGroup?]
  exact (resolve_eq_error_iff.1 h).2

/-- Without a group a call is reported with no candidates, and no other call is. -/
theorem resolve_eq_error_nil_iff :
    r.resolve n types p = .error (.unknownFunction n types []) ↔ r.firstGroup? n p = none := by
  rw [resolve_eq_outcome]
  cases hfirst : r.firstGroup? n p with
  | none => simp [Overload.outcome_nil]
  | some os =>
    have hne : os ≠ [] := ne_nil_of_firstGroup? hfirst
    rw [Option.getD_some]
    unfold Overload.outcome
    cases Overload.select? types os with
    | none => simpa using hne
    | some i => simp

/-- **A call depends on the first group only, and an error reports that group.** Registries and
search paths that have the same first group for a name agree on every call of it. A call that is not
resolved is reported with its name and types as they are given and with the signatures of the first
group, in their order; it is reported with no signatures exactly if there is no group. The order of
the signatures in a group is the one in which they were first inserted. A registry that is kept as
two maps, searched one after the other, agrees on all of this. -/
theorem resolve_firstGroup? (n : FunctionName) (types : List SqlType) :
    (∀ (r r' : Registry) (p p' : SearchPath), r.firstGroup? n p = r'.firstGroup? n p' →
      r.resolve n types p = r'.resolve n types p') ∧
    (∀ (r : Registry) (p : SearchPath) (e : ResolutionError), r.resolve n types p = .error e →
      e = .unknownFunction n types (((r.firstGroup? n p).getD []).map (·.signature))) ∧
    (∀ (r : Registry) (p : SearchPath),
      (r.resolve n types p = .error (.unknownFunction n types []) ↔ r.firstGroup? n p = none) ∧
      r.resolveInTurn n types p = r.resolve n types p) ∧
    ∀ (t : Table) (os : List Overload) (k : FunctionName),
      ((t.insertAll os).group k).map (·.signature) = (t.group k).map (·.signature) ++
        (((os.filter (·.name = k)).filter (·.signature ∉ (t.group k).map (·.signature))).map
          (·.signature)).eraseDups := by
  refine ⟨fun r r' p p' h => ?_, fun r p e he => eq_unknownFunction_of_resolve he,
    fun r p => ⟨resolve_eq_error_nil_iff, resolveInTurn_eq r n types p⟩,
    Table.signatures_group_insertAll⟩
  rw [resolve_eq_outcome, h, ← resolve_eq_outcome]

/-- `a.f(bigint)` and `a.f(text)`. -/
def family : List Overload := [script "a" "f" .bigint "1", script "a" "f" .text "2"]

/-- The family is built in, before an overload in another schema. -/
def atHome : Registry := { builtins := .ofList (family ++ [script "b" "f" .ip "3"]) }

/-- The family is user-defined, after a change that has been undone, and behind the catalog. -/
def resettled : Registry :=
  Catalog.registry.run [.register "b" [script "b" "f" .ip "4"], .register "a" family,
    .deregister "b"]

/-- Both registries have the family as their first group, though they look for it at different
places; so they resolve and report the same. -/
theorem resolve_firstGroup?_family :
    atHome.firstGroup? { name := "f" } (.ofList ["a", "b"]) = some family ∧
      resettled.resolve { name := "f" } [.scalar .integer] (.ofList ["b", "a"]) =
        .ok (family[0].instantiate [.scalar .bigint] (.scalar .bigint)) ∧
      resettled.resolve { name := "f" } [.scalar .geoPoint] (.ofList ["b", "a"]) =
        .error (.unknownFunction { name := "f" } [.scalar .geoPoint] (family.map (·.signature))) ∧
      resettled.resolve { name := "f" } [.scalar .integer] (.ofList ["b"]) =
        .error (.unknownFunction { name := "f" } [.scalar .integer] []) := by
  have hhome : atHome.firstGroup? { name := "f" } (.ofList ["a", "b"]) = some family := by
    decide +kernel
  have hsame : resettled.firstGroup? { name := "f" } (.ofList ["b", "a"]) =
      atHome.firstGroup? { name := "f" } (.ofList ["a", "b"]) := by
    decide +kernel
  have hnone : resettled.firstGroup? { name := "f" } (.ofList ["b"]) = none := by decide +kernel
  have hmoved := fun types : List SqlType =>
    (resolve_firstGroup? { name := "f" } types).1 resettled atHome (.ofList ["b", "a"])
      (.ofList ["a", "b"]) hsame
  refine ⟨hhome, ?_, ?_, ((resolve_firstGroup? _ _).2.2.1 resettled (.ofList ["b"])).1.2 hnone⟩
  · exact (hmoved [.scalar .integer]).trans (by decide +kernel)
  · exact (hmoved [.scalar .geoPoint]).trans (by decide +kernel)

end Registry

end Overloading
