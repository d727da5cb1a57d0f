import Mathlib.Data.List.TakeWhile
import Overloading.Text.Blank

/-! # Trimming

What trimming does to a text that is put together: blanks around a trimmed text make no difference
(`trim_append`), a text of blanks is trimmed to nothing (`trim_eq_nil_iff`), and trimming twice is
trimming once (`trim_trim`). -/

namespace Overloading.Text

/-- A text that consists of blanks. -/
def AllBlank (cs : List Char) : Prop := ∀ c ∈ cs, isBlank c = true

variable {cs l r : List Char}

theorem AllBlank.append (hl : AllBlank l) (hr : AllBlank r) : AllBlank (l ++ r) :=
  fun c hc => (List.mem_append.1 hc).elim (hl c) (hr c)

theorem trimLeft_append (hl : AllBlank l) (cs : List Char) : trimLeft (l ++ cs) = trimLeft cs :=
  List.dropWhile_append_of_pos hl

theorem trimRight_append (hr : AllBlank r) (cs : List Char) :
    trimRight (cs ++ r) = trimRight cs := by
  have hrev : ∀ c ∈ r.reverse, isBlank c = true := fun c hc => hr c (List.mem_reverse.1 hc)
  unfold trimRight
  rw [List.reverse_append, List.dropWhile_append_of_pos hrev]

/-- **Blanks around a trimmed text make no difference.** -/
theorem trim_append (hl : AllBlank l) (hcs : trim cs = cs) (hne : cs ≠ []) (hr : AllBlank r) :
    trim (l ++ cs ++ r) = cs := by
  obtain ⟨hhead, hlast⟩ := trim_eq_self_iff.1 hcs
  obtain ⟨c, cs, rfl⟩ := List.exists_cons_of_ne_nil hne
  have hleft : trimLeft (c :: cs ++ r) = c :: cs ++ r := trimLeft_eq_self_iff.2 hhead
  rw [trim, List.append_assoc, trimLeft_append hl, hleft, trimRight_append hr,
    trimRight_eq_self_iff.2 hlast]

theorem trim_append_left (hl : AllBlank l) (cs : List Char) : trim (l ++ cs) = trim cs := by
  rw [trim, trimLeft_append hl, trim]

theorem trim_sublist (cs : List Char) : (trim cs).Sublist cs := by
  obtain ⟨l, r, -, -, hcs⟩ := exists_eq_append_trim cs
  have hmid : (trim cs).Sublist (l ++ trim cs ++ r) :=
    (List.sublist_append_right l (trim cs)).trans (List.sublist_append_left _ r)
  rwa [← hcs] at hmid

theorem trimLeft_eq_nil_iff : trimLeft cs = [] ↔ AllBlank cs := List.dropWhile_eq_nil_iff

theorem trim_eq_nil_iff : trim cs = [] ↔ AllBlank cs := by
  constructor
  · intro h
    obtain ⟨l, r, hl, hr, hcs⟩ := exists_eq_append_trim cs
    rw [h, List.append_nil] at hcs
    rw [hcs]
    exact AllBlank.append hl hr
  · intro h
    rw [trim, trimLeft_eq_nil_iff.2 h]
    rfl

theorem isBlank_of_mem_head?_trimLeft (cs : List Char) :
    ∀ c ∈ (trimLeft cs).head?, isBlank c = false := by
  intro c hc
  have h := List.head?_dropWhile_not isBlank cs
  rw [show (cs.dropWhile isBlank).head? = some c from hc] at h
  exact h

theorem trimLeft_trimLeft (cs : List Char) : trimLeft (trimLeft cs) = trimLeft cs :=
  trimLeft_eq_self_iff.2 (isBlank_of_mem_head?_trimLeft cs)

theorem trim_trim (cs : List Char) : trim (trim cs) = trim cs := by
  refine trim_eq_self_iff.2 ⟨fun c hc => ?_, fun c hc => ?_⟩
  · -- a text that is not empty starts as it does with the blanks at its end
    obtain ⟨r, _, hr⟩ := exists_eq_trimRight_append (trimLeft cs)
    have hhead : (trimRight (trimLeft cs)).head? = some c := hc
    refine isBlank_of_mem_head?_trimLeft cs c ?_
    rw [hr, List.head?_append, hhead]
    rfl
  · rw [trim, trimRight, List.getLast?_reverse] at hc
    exact isBlank_of_mem_head?_trimLeft _ c hc

end Overloading.Text
