import Overloading.Proofs.Resolution.Winner
import Overloading.Resolution.Call

/-! # Pinned calls

A call is pinned to the signature that it was resolved to and to the types of its bound arguments and
result (`Call.pin?`). A pinned call is looked up by its signature in both tables, while the function
that it was resolved to comes from one group of one of them. In a registry that arises from
registrations the two agree (`Registry.Reachable.find?_of_mem_candidates`): the signatures of a table
are distinct, and if the group is user-defined, there is nothing built in under its name. The types
determine the bound signature (`Instantiation.instantiate_eq`), so a pinned call means what it was
resolved to under every search path. -/

namespace Overloading

namespace Table

theorem find?_eq_none_of_group_eq_nil {t : Table} {s : Signature} (h : t.group s.name = []) :
    t.find? s = none := by
  refine List.find?_eq_none.2 fun o ho hs => ?_
  have hsig : o.signature = s := of_decide_eq_true hs
  have hmem : o ∈ t.group s.name := mem_group.2 ⟨ho, congrArg Signature.name hsig⟩
  rw [h] at hmem
  cases hmem

end Table

/-- **A candidate is found by its signature.** -/
theorem Registry.Reachable.find?_of_mem_candidates {r : Registry} (hr : r.Reachable)
    {n : FunctionName} {p : SearchPath} {o : Overload} (ho : o ∈ r.candidates n p) :
    r.find? o.signature = some o := by
  unfold find?
  rcases mem_candidates.1 ho with ho | ⟨hnil, ho⟩
  · have hfind : r.builtins.find? o.signature = some o :=
      hr.distinct_builtins.find?_eq_some_iff.2 ⟨(Table.mem_of_mem_candidates ho).1, rfl⟩
    rw [hfind, Option.some_or]
  · obtain ⟨hmem, hname⟩ := Table.mem_of_mem_candidates ho
    have hnone : r.builtins.find? o.signature = none :=
      Table.find?_eq_none_of_group_eq_nil (Table.candidates_eq_nil_iff.1 hnil o.name hname)
    rw [hnone, Option.none_or]
    exact hr.distinct_userDefined.find?_eq_some_iff.2 ⟨hmem, rfl⟩

/-- **The types of a bound signature determine it.** -/
theorem Instantiation.instantiate_eq {i : Instantiation} {m : Coercion} {actual : List TypeTerm}
    (hb : i.declared.bind? m actual = some i.bound) {args : List SqlType} {ret : SqlType}
    (hargs : i.bound.args = args.map SqlType.toTerm) (hret : i.bound.ret.denote = .ok ret) :
    i.overload.instantiate args ret = i := by
  obtain ⟨fs, a, -, -, -, hbound⟩ := Signature.bind?_eq_some_iff.1 hb
  have hsame : BoundSignature.ofTypes i.declared args ret = i.bound := by
    unfold BoundSignature.ofTypes
    rw [← hargs, ← TypeTerm.denote_eq_ok_iff.1 hret, hbound]
  exact congrArg (Instantiation.mk i.overload) hsame

namespace Registry

variable {r : Registry} {n : FunctionName} {types : List SqlType} {p : SearchPath}
  {i : Instantiation} {ret : SqlType}

/-- **A pinned call means what it was resolved to.** If the result of a resolved call has a type,
then so have its arguments, and the call that is pinned to these types is resolved to the same
function under every search path. -/
theorem resolveCall_pin (hr : r.Reachable) (h : r.resolve n types p = .ok i)
    (hret : i.bound.ret.denote = .ok ret) :
    ∃ args : List SqlType, TypeTerm.types? i.bound.args = some args ∧
      Call.pin? i = some (.pinned i.declared args ret) ∧
      ∀ q : SearchPath, r.resolveCall q (.pinned i.declared args ret) = .ok i := by
  obtain ⟨t, -, hbest⟩ := Overload.exists_isBest_of_select? (resolve_eq_ok_iff.1 h)
  obtain ⟨args, hargs, -⟩ := Signature.exists_types_of_bind? hbest.bound
  have htypes : TypeTerm.types? i.bound.args = some args := TypeTerm.types?_eq_some_iff.2 hargs
  refine ⟨args, htypes, ?_, fun q => ?_⟩
  · unfold Call.pin?
    rw [htypes, hret]
  · have hfind : r.find? i.declared = some i.overload := hr.find?_of_mem_candidates hbest.mem
    have hsame : i.overload.instantiate args ret = i :=
      Instantiation.instantiate_eq hbest.bound hargs hret
    show r.resolveSignature i.declared args ret = .ok i
    unfold resolveSignature
    rw [hfind]
    exact congrArg Except.ok hsame

/-- `a.f(bigint)` and `b.f(bigint)`. -/
def crossroads : Registry :=
  run {} [.register "a" [script "a" "f" .bigint "1"], .register "b" [script "b" "f" .bigint "2"]]

/-- `f(integer)`, called where `a` is searched and pinned, stays `a.f(bigint)` where `b` is searched.
By its name it would become `b.f(bigint)` there. -/
theorem resolveCall_pin_otherPath :
    crossroads.Reachable ∧
      crossroads.resolve { name := "f" } [.scalar .integer] (.ofList ["a"]) =
        .ok ((script "a" "f" .bigint "1").instantiate [.scalar .bigint] (.scalar .bigint)) ∧
      crossroads.resolveCall (.ofList ["b"]) (.named { name := "f" } [.scalar .integer]) =
        .ok ((script "b" "f" .bigint "2").instantiate [.scalar .bigint] (.scalar .bigint)) ∧
      crossroads.resolveCall (.ofList ["b"])
          (.pinned (script "a" "f" .bigint "1").signature [.scalar .bigint] (.scalar .bigint)) =
        .ok ((script "a" "f" .bigint "1").instantiate [.scalar .bigint] (.scalar .bigint)) := by
  have hr : crossroads.Reachable := (Reachable.build []).run _
  have h : crossroads.resolve { name := "f" } [.scalar .integer] (.ofList ["a"]) =
      .ok ((script "a" "f" .bigint "1").instantiate [.scalar .bigint] (.scalar .bigint)) := by
    decide +kernel
  obtain ⟨args, hargs, -, hcall⟩ := resolveCall_pin hr h (TypeTerm.denote_scalar .bigint)
  obtain rfl : args = [.scalar .bigint] := by
    cases hargs
    rfl
  exact ⟨hr, h, by decide +kernel, hcall (.ofList ["b"])⟩

end Registry

end Overloading
