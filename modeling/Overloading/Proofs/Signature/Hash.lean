import Mathlib.Data.List.Basic
import Overloading.Signature.Oid

/-! # What the hash keeps apart

The factor of a step is odd, so it has an inverse among the words (`Fnv.prime_mul_primeInv`). Hence a
step loses nothing: with the byte it takes, the word before it is known from the word after it
(`Fnv.step_left_inj`), and with the word before it, the byte is (`Fnv.step_right_inj`). What two texts
end with in common makes no difference then (`Fnv.hash_append_inj`), and texts that differ in one byte
never have the same hash (`Fnv.DifferOnce.hash_ne`). -/

namespace Overloading

namespace Fnv

variable {a b : List UInt8} {h h' x y : UInt32} {c d : UInt8}

/-- The factor that undoes the factor of a step. -/
def primeInv : UInt32 := 0x359C449B

theorem prime_mul_primeInv : prime * primeInv = 1 := by decide

/-- **A product with the factor of a step is known from the product.** -/
theorem mul_prime_inj : x * prime = y * prime ↔ x = y := by
  have hundo : ∀ z : UInt32, z * prime * primeInv = z := by
    intro z
    rw [UInt32.mul_assoc, prime_mul_primeInv, UInt32.mul_one]
  constructor
  · intro heq
    calc x = x * prime * primeInv := (hundo x).symm
      _ = y * prime * primeInv := by rw [heq]
      _ = y := hundo y
  · intro heq
    rw [heq]

/-! ### One step -/

theorem step_left_inj (c : UInt8) : step h c = step h' c ↔ h = h' := by
  unfold step
  rw [mul_prime_inj, UInt32.xor_left_inj]

theorem step_right_inj (h : UInt32) : step h c = step h d ↔ c = d := by
  unfold step
  rw [mul_prime_inj, UInt32.xor_right_inj, UInt8.toUInt32_inj]

/-! ### Many steps -/

/-- **No sequence of steps brings two words together.** -/
theorem foldl_step_inj (s : List UInt8) : s.foldl step h = s.foldl step h' ↔ h = h' := by
  induction s generalizing h h' with
  | nil => rfl
  | cons c s ih => rw [List.foldl_cons, List.foldl_cons, ih, step_left_inj]

theorem hash_append (a s : List UInt8) : hash (a ++ s) = s.foldl step (hash a) :=
  List.foldl_append

theorem hash_append_inj (a b s : List UInt8) : hash (a ++ s) = hash (b ++ s) ↔ hash a = hash b := by
  rw [hash_append, hash_append, foldl_step_inj]

/-! ### Texts that differ in one place -/

/-- The two are of one length and differ in exactly one place. -/
def DifferOnce (a b : List UInt8) : Prop := a.length = b.length ∧ ∃! i : Nat, a[i]? ≠ b[i]?

/-- What stands before and after the place is the same. -/
theorem differOnce_iff :
    DifferOnce a b ↔ ∃ l c d r, c ≠ d ∧ a = l ++ c :: r ∧ b = l ++ d :: r := by
  constructor
  · rintro ⟨hlen, i, hne, huniq⟩
    have hsame : ∀ j, j ≠ i → a[j]? = b[j]? := fun j hj => not_not.1 fun hjne => hj (huniq j hjne)
    have hi : i < a.length := by
      by_contra hge
      have hnone : a[i]? = none ∧ b[i]? = none :=
        ⟨List.getElem?_eq_none (by omega), List.getElem?_eq_none (by omega)⟩
      exact hne (hnone.1.trans hnone.2.symm)
    have hi' : i < b.length := by omega
    have hbefore : a.take i = b.take i := by
      refine List.ext_getElem? fun j => ?_
      rw [List.getElem?_take, List.getElem?_take]
      split
      · rename_i hj
        exact hsame j (by omega)
      · rfl
    have hafter : a.drop (i + 1) = b.drop (i + 1) := by
      refine List.ext_getElem? fun j => ?_
      rw [List.getElem?_drop, List.getElem?_drop]
      exact hsame _ (by omega)
    refine ⟨a.take i, a[i], b[i], a.drop (i + 1), ?_, ?_, ?_⟩
    · rw [List.getElem?_eq_getElem hi, List.getElem?_eq_getElem hi'] at hne
      exact fun heq => hne (congrArg some heq)
    · rw [List.getElem_cons_drop hi, List.take_append_drop]
    · rw [hbefore, hafter, List.getElem_cons_drop hi', List.take_append_drop]
  · rintro ⟨l, c, d, r, hcd, rfl, rfl⟩
    refine ⟨by simp, l.length, by simpa using hcd, fun j hj => ?_⟩
    by_contra hne
    refine hj ?_
    rcases Nat.lt_or_ge j l.length with hlt | hge
    · rw [List.getElem?_append_left hlt, List.getElem?_append_left hlt]
    · obtain ⟨k, hk⟩ : ∃ k, j - l.length = k + 1 := ⟨j - l.length - 1, by omega⟩
      rw [List.getElem?_append_right hge, List.getElem?_append_right hge, hk]
      rfl

/-- **Texts that differ in one byte never have the same hash.** -/
theorem DifferOnce.hash_ne (hab : DifferOnce a b) : hash a ≠ hash b := by
  obtain ⟨l, c, d, r, hcd, rfl, rfl⟩ := differOnce_iff.1 hab
  intro heq
  rw [hash_append, hash_append, List.foldl_cons, List.foldl_cons, foldl_step_inj,
    step_right_inj] at heq
  exact hcd heq

end Fnv

namespace Signature

variable {s t : Signature}

/-- The sign of the number loses nothing of the hash. -/
theorem oid_eq_iff :
    s.oid = t.oid ↔
      Fnv.hash s.oidKey.toUTF8.data.toList = Fnv.hash t.oidKey.toUTF8.data.toList := by
  refine ⟨fun h => ?_, fun h => congrArg UInt32.toInt32 h⟩
  exact congrArg Int32.toUInt32 h

/-- **Keys that are nearly the same are kept apart.** Of two texts of one length that differ in
exactly one byte the hashes differ, and what two texts end with in common makes no difference: their
hashes are the same exactly if they are without it. So two signatures whose keys are of one length and
differ in exactly one byte have different numbers. -/
theorem hash_separates :
    (∀ a b : List UInt8, Fnv.DifferOnce a b → Fnv.hash a ≠ Fnv.hash b) ∧
      (∀ a b s : List UInt8, Fnv.hash (a ++ s) = Fnv.hash (b ++ s) ↔ Fnv.hash a = Fnv.hash b) ∧
      ∀ s t : Signature,
        Fnv.DifferOnce s.oidKey.toUTF8.data.toList t.oidKey.toUTF8.data.toList → s.oid ≠ t.oid := by
  refine ⟨fun a b hab => hab.hash_ne, Fnv.hash_append_inj, fun s t hst heq => ?_⟩
  exact hst.hash_ne (oid_eq_iff.1 heq)

/-- Two letters that differ in the second of their two bytes. -/
theorem hash_separates_letters :
    let s : Signature := { name := { name := "é" }, args := [.base "text"] }
    let t : Signature := { name := { name := "è" }, args := [.base "text"] }
    Fnv.DifferOnce s.oidKey.toUTF8.data.toList t.oidKey.toUTF8.data.toList ∧ s.oid ≠ t.oid := by
  intro s t
  have hkeys : Fnv.DifferOnce s.oidKey.toUTF8.data.toList t.oidKey.toUTF8.data.toList :=
    Fnv.differOnce_iff.2 ⟨"proc:".toUTF8.data.toList ++ [0xC3], 0xA9, 0xA8,
      "(text)".toUTF8.data.toList, by decide, by decide +kernel, by decide +kernel⟩
  exact ⟨hkeys, hash_separates.2.2 s t hkeys⟩

end Signature

end Overloading
