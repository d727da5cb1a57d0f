/-! # Blank characters

`isBlank` is the Unicode property `White_Space`, as the table `blankRanges` of code points. `trim`
drops the blanks at both ends of a text; `trim_eq_self_iff` says which texts it leaves alone and
`exists_eq_append_trim` that nothing but blanks is dropped. -/

namespace Overloading.Text

/-- The code points with the Unicode property `White_Space`, as ranges with both ends included. -/
def blankRanges : List (Nat × Nat) :=
  [(0x09, 0x0D), (0x20, 0x20), (0x85, 0x85), (0xA0, 0xA0), (0x1680, 0x1680), (0x2000, 0x200A),
    (0x2028, 0x2029), (0x202F, 0x202F), (0x205F, 0x205F), (0x3000, 0x3000)]

/-- A blank is a character whose code point lies in one of the ranges. -/
def isBlank (c : Char) : Bool :=
  blankRanges.any fun r => r.1 ≤ c.toNat && c.toNat ≤ r.2

example : (blankRanges.map fun r => r.2 + 1 - r.1).sum = 25 := by decide

/-- The text without the blanks it starts with. -/
def trimLeft (cs : List Char) : List Char := cs.dropWhile isBlank

/-- The text without the blanks it ends with. -/
def trimRight (cs : List Char) : List Char := (cs.reverse.dropWhile isBlank).reverse

/-- The text without the blanks at its ends. -/
def trim (cs : List Char) : List Char := trimRight (trimLeft cs)

@[simp] theorem trim_nil : trim [] = [] := rfl

theorem exists_eq_append_trimLeft (cs : List Char) :
    ∃ l, (∀ c ∈ l, isBlank c = true) ∧ cs = l ++ trimLeft cs :=
  ⟨cs.takeWhile isBlank, fun _ hc => List.all_eq_true.1 List.all_takeWhile _ hc,
    (List.takeWhile_append_dropWhile).symm⟩

theorem exists_eq_trimRight_append (cs : List Char) :
    ∃ r, (∀ c ∈ r, isBlank c = true) ∧ cs = trimRight cs ++ r := by
  obtain ⟨l, hl, h⟩ := exists_eq_append_trimLeft cs.reverse
  refine ⟨l.reverse, fun c hc => hl c (List.mem_reverse.1 hc), ?_⟩
  have := congrArg List.reverse h
  simpa [trimRight, trimLeft] using this

/-- **Only blanks are dropped.** -/
theorem exists_eq_append_trim (cs : List Char) :
    ∃ l r, (∀ c ∈ l, isBlank c = true) ∧ (∀ c ∈ r, isBlank c = true) ∧ cs = l ++ trim cs ++ r := by
  obtain ⟨l, hl, h⟩ := exists_eq_append_trimLeft cs
  obtain ⟨r, hr, h'⟩ := exists_eq_trimRight_append (trimLeft cs)
  exact ⟨l, r, hl, hr, by rw [List.append_assoc, trim, ← h', ← h]⟩

theorem trimLeft_eq_self_iff {cs : List Char} :
    trimLeft cs = cs ↔ ∀ c ∈ cs.head?, isBlank c = false := by
  cases cs with
  | nil => simp [trimLeft]
  | cons c cs =>
    by_cases h : isBlank c = true
    · have : (cs.dropWhile isBlank).length < (c :: cs).length :=
        Nat.lt_succ_of_le (List.dropWhile_sublist _).length_le
      simp only [trimLeft, List.dropWhile_cons, h, if_true, List.head?_cons, Option.mem_def,
        Option.some.injEq, forall_eq', Bool.true_eq_false, iff_false]
      intro h'
      rw [h'] at this
      exact Nat.lt_irrefl _ this
    · simp [trimLeft, h]

theorem trimRight_eq_self_iff {cs : List Char} :
    trimRight cs = cs ↔ ∀ c ∈ cs.getLast?, isBlank c = false := by
  rw [← List.head?_reverse, ← trimLeft_eq_self_iff, trimRight, trimLeft]
  constructor
  · intro h
    rw [← List.reverse_inj, List.reverse_reverse] at h
    exact h
  · intro h
    rw [h, List.reverse_reverse]

/-- **A text keeps its ends exactly when neither end is blank.** -/
theorem trim_eq_self_iff {cs : List Char} :
    trim cs = cs ↔
      (∀ c ∈ cs.head?, isBlank c = false) ∧ ∀ c ∈ cs.getLast?, isBlank c = false := by
  constructor
  · intro h
    obtain ⟨l, _, hl⟩ := exists_eq_append_trimLeft cs
    obtain ⟨r, _, hr⟩ := exists_eq_trimRight_append (trimLeft cs)
    have hlen : cs.length = l.length + ((trim cs).length + r.length) := by
      rw [trim, ← List.length_append, ← hr, ← List.length_append, ← hl]
    have hl0 : l = [] := List.length_eq_zero_iff.1 (by rw [h] at hlen; omega)
    have hleft : trimLeft cs = cs := by rw [hl0, List.nil_append] at hl; exact hl.symm
    rw [trim, hleft] at h
    exact ⟨trimLeft_eq_self_iff.1 hleft, trimRight_eq_self_iff.1 h⟩
  · rintro ⟨h₁, h₂⟩
    rw [trim, trimLeft_eq_self_iff.2 h₁, trimRight_eq_self_iff.2 h₂]

end Overloading.Text
