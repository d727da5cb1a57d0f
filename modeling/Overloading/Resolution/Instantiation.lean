import Overloading.Registry.Overload
import Overloading.Signature.Bound

/-! # Instantiations

An instantiation is an overload at one call. Instantiations are ordered by their written forms, the
declared signatures first and then the bound ones; `foremost?` is the first of a list whose written
form no other comes before (`isLE_of_foremost?`). -/

namespace Overloading

/-- An overload with its signature at one call. -/
structure Instantiation where
  overload : Overload
  bound : BoundSignature
  deriving DecidableEq

/-- The overload at a call where all types are known. -/
def Overload.instantiate (o : Overload) (types : List SqlType) (ret : SqlType) : Instantiation :=
  ⟨o, .ofTypes o.signature types ret⟩

namespace Instantiation

/-- The signature as it is declared. -/
abbrev declared (i : Instantiation) : Signature := i.overload.signature

/-- The order of the written forms. -/
def compareTexts : Instantiation → Instantiation → Ordering :=
  compareLex (compareOn fun i => i.declared.render) (compareOn fun i => i.bound.render)

instance : Std.TransCmp compareTexts :=
  inferInstanceAs (Std.TransCmp (compareLex (compareOn fun i : Instantiation => i.declared.render)
    (compareOn fun i : Instantiation => i.bound.render)))

/-- One step of the scan for the written form that comes first. -/
def earlier (i j : Instantiation) : Instantiation := if compareTexts j i = .lt then j else i

/-- The first instantiation with the written form that comes first. -/
def foremost? : List Instantiation → Option Instantiation
  | [] => none
  | i :: is => some (is.foldl earlier i)

theorem foldl_earlier : ∀ (is : List Instantiation) (i : Instantiation),
    is.foldl earlier i ∈ i :: is ∧ ∀ j ∈ i :: is, (compareTexts (is.foldl earlier i) j).isLE
  | [], i => by simp [Std.ReflCmp.compare_self]
  | k :: is, i => by
    obtain ⟨hmem, hle⟩ := foldl_earlier is (earlier i k)
    rw [List.foldl_cons]
    have hstep : (compareTexts (earlier i k) i).isLE ∧ (compareTexts (earlier i k) k).isLE := by
      unfold earlier
      split
      · rename_i h
        simp [h, Std.ReflCmp.compare_self]
      · rename_i h
        rw [@Std.OrientedCmp.eq_swap _ compareTexts _ i k]
        cases hki : compareTexts k i <;> simp_all [Std.ReflCmp.compare_self]
    refine ⟨?_, fun j hj => ?_⟩
    · rcases List.mem_cons.1 hmem with h | h
      · rw [h]
        unfold earlier
        split <;> simp
      · exact List.mem_cons_of_mem _ (List.mem_cons_of_mem _ h)
    · have hfirst := hle _ List.mem_cons_self
      rcases List.mem_cons.1 hj with rfl | hj
      · exact Std.TransCmp.isLE_trans hfirst hstep.1
      · rcases List.mem_cons.1 hj with rfl | hj
        · exact Std.TransCmp.isLE_trans hfirst hstep.2
        · exact hle j (List.mem_cons_of_mem _ hj)

theorem mem_of_foremost? {is : List Instantiation} {i : Instantiation} (h : foremost? is = some i) :
    i ∈ is := by
  cases is with
  | nil => cases h
  | cons k is =>
    cases h
    exact (foldl_earlier is k).1

/-- **No written form comes before the foremost one.** -/
theorem isLE_of_foremost? {is : List Instantiation} {i j : Instantiation}
    (h : foremost? is = some i) (hj : j ∈ is) : (compareTexts i j).isLE := by
  cases is with
  | nil => cases h
  | cons k is =>
    cases h
    exact (foldl_earlier is k).2 j hj

end Instantiation

end Overloading
