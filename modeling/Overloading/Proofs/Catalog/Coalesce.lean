import Overloading.Proofs.Binding.Supremum
import Overloading.Proofs.Resolution.Settled

/-! # Calls of `coalesce`

The catalog has one overload of `coalesce`, which takes any number of arguments of one type.
Arguments that promote to a common type are bound to their supremum
(`Catalog.resolve_coalesce_of_isSupremumOf`): as they are if all of them are of one type, and by
promotions otherwise. Casts are not tried. So the order of the arguments does not matter, nor
does it matter whether some of them are repeated (`Catalog.resolve_coalesce`). -/

namespace Overloading

namespace Catalog

open SqlType (IsSupremumOf)

variable {ts us : List SqlType} {u : SqlType}

/-- The name `coalesce`. -/
def coalesceName : FunctionName := { name := "coalesce" }

/-- The overload of this name. -/
def coalesce : Overload := { signature := Signature.coalesce }

theorem candidates_coalesce (p : SearchPath) :
    registry.candidates coalesceName p = [coalesce] := by
  have hgroup : registry.builtins.group coalesceName = [coalesce] := by decide +kernel
  rw [Registry.candidates_eq_group_of_ne_nil p (hgroup ▸ List.cons_ne_nil _ _), hgroup]

/-- **Arguments are bound to their supremum.** -/
theorem resolve_coalesce_of_isSupremumOf (p : SearchPath) (hne : us ≠ []) (h : IsSupremumOf us u) :
    registry.resolve coalesceName us p = .ok (coalesce.instantiate (us.map fun _ => u) u) := by
  have hbinds : Signature.coalesce.BindsAt .promotion "E" us u :=
    (Signature.coalesce_homogeneous.bindsAt_promotion_iff hne).2 h
  obtain ⟨-, -, -, hbind⟩ := hbinds
  have hcoercible : coalesce.signature.rules.coercible = true := rfl
  rw [Registry.resolve_eq_ok_iff, candidates_coalesce]
  exact Overload.select?_singleton_of_promotion
    (i := coalesce.instantiate (us.map fun _ => u) u) hcoercible hbind

/-- **`coalesce` gives all arguments their common type.** Arguments that promote to some type have a
least such type, and under every search path the call is resolved with this type for each argument
and for the result. The arguments may come in any order, and each of them as often as one likes. -/
theorem resolve_coalesce (p : SearchPath) (hne : ts ≠ [])
    (hcommon : ∃ c, ∀ t ∈ ts, t.promotesTo c = true) :
    ∃ u, IsSupremumOf ts u ∧
      registry.resolve coalesceName ts p = .ok (coalesce.instantiate (ts.map fun _ => u) u) ∧
      ∀ us : List SqlType, (∀ t, t ∈ us ↔ t ∈ ts) →
        registry.resolve coalesceName us p = .ok (coalesce.instantiate (us.map fun _ => u) u) := by
  obtain ⟨c, hc⟩ := hcommon
  obtain ⟨u, hu⟩ := SqlType.exists_isSupremumOf hc
  refine ⟨u, hu, resolve_coalesce_of_isSupremumOf p hne hu, fun us hus => ?_⟩
  have hne' : us ≠ [] := by
    obtain ⟨t, ht⟩ := List.exists_mem_of_ne_nil ts hne
    exact List.ne_nil_of_mem ((hus t).2 ht)
  exact resolve_coalesce_of_isSupremumOf p hne' (hu.congr hus)

/-- Blanks, inside of arrays too, take the type of what they meet, in whatever order they come. -/
theorem resolve_coalesce_blanks :
    let ts : List SqlType := [.array .undefined, .array (.array (.scalar .bigint)), .undefined,
      .array (.array (.scalar .smallint))]
    let u : SqlType := .array (.array (.scalar .bigint))
    ts ≠ [] ∧ (∃ c, ∀ t ∈ ts, t.promotesTo c = true) ∧
      registry.resolve coalesceName ts (.ofList ["doc", "pg_catalog"]) =
        .ok (coalesce.instantiate [u, u, u, u] u) ∧
      registry.resolve coalesceName (ts.reverse ++ [.undefined]) (.ofList ["doc", "pg_catalog"]) =
        .ok (coalesce.instantiate [u, u, u, u, u] u) := by
  intro ts u
  have hne : ts ≠ [] := List.cons_ne_nil _ _
  have hu : IsSupremumOf ts u :=
    ⟨by decide, fun d hd => hd u (List.mem_cons_of_mem _ List.mem_cons_self)⟩
  obtain ⟨v, hv, hresolve, hall⟩ :=
    resolve_coalesce (.ofList ["doc", "pg_catalog"]) hne ⟨u, hu.upper⟩
  obtain rfl := hv.unique hu
  have hsame : ∀ t, t ∈ ts.reverse ++ [.undefined] ↔ t ∈ ts := by
    intro t
    have hblank : t = .undefined → t ∈ ts := by
      rintro rfl
      simp [ts]
    rw [List.mem_append, List.mem_reverse, List.mem_singleton, or_iff_left_of_imp hblank]
  exact ⟨hne, ⟨u, hu.upper⟩, hresolve, hall _ hsame⟩

end Catalog

end Overloading
