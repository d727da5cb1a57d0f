import Overloading.Proofs.Text.Trim
import Overloading.SearchPath.Setting

/-! # What a setting lists

A setting is cut at its commas, and what is done to the pieces only drops characters
(`Text.trim_sublist`, `Setting.unquote_sublist`). So no schema of a setting has a comma in its name
(`SearchPath.comma_notMem_of_mem_listed`).

Pieces without commas that are joined come apart again, trimmed (`Setting.items_intercalate`). If
each of them has text and no blank at an end, all of them are listed, as the names they stand for
(`Setting.items_intercalate_of_trimmed`). A name in quotes is such a piece, whatever the name, but
for a comma in it. Hence names are known from the setting that quotes them exactly if none of them
has a comma (`SearchPath.ofSetting_quoted_iff`). -/

namespace Overloading

namespace Setting

variable {c : Char} {cs : List Char} {xs : List (List Char)}

/-! ### Commas -/

/-- A text that is cut at a character has this character in none of its pieces. -/
theorem notMem_of_mem_splitOn : ∀ {cs x : List Char}, x ∈ cs.splitOn c → c ∉ x
  | [], x, h => by
    have hx : x = [] := by simpa using h
    simp [hx]
  | d :: cs, x, h => by
    rw [List.splitOn_cons_eq_if_modifyHead] at h
    split at h
    · rcases List.mem_cons.1 h with rfl | h
      · exact List.not_mem_nil
      · exact notMem_of_mem_splitOn h
    · rename_i hd
      obtain ⟨y, ys, hys⟩ := List.exists_cons_of_ne_nil (List.splitOn_ne_nil c cs)
      have hpieces : ∀ z ∈ y :: ys, c ∉ z := by
        intro z hz
        rw [← hys] at hz
        exact notMem_of_mem_splitOn hz
      -- the first piece of the rest is the one that grows
      rw [hys, List.modifyHead_cons] at h
      rcases List.mem_cons.1 h with rfl | h
      · have hcd : c ≠ d := fun hcd => hd (beq_iff_eq.2 hcd.symm)
        have hy : c ∉ y := hpieces y List.mem_cons_self
        simp [hcd, hy]
      · exact hpieces x (List.mem_cons_of_mem y h)

theorem halve_sublist (cs : List Char) : (halve cs).Sublist cs := by
  fun_induction halve cs with
  | case1 cs ih => exact (ih.cons_cons '"').cons '"'
  | case2 c cs _ ih => exact ih.cons_cons c
  | case3 => exact .slnil

/-- Unquoting only drops characters. -/
theorem unquote_sublist (cs : List Char) : (unquote cs).Sublist cs := by
  unfold unquote
  split
  · rename_i cs
    split
    · exact ((halve_sublist _).trans (List.dropLast_sublist cs)).cons '"'
    · exact .refl _
  · exact .refl _

/-- **No comma is listed.** -/
theorem comma_notMem_of_mem_items {x : List Char} (hx : x ∈ items cs) : ',' ∉ x := by
  obtain ⟨y, hy, rfl⟩ := List.mem_map.1 hx
  obtain ⟨z, hz, rfl⟩ := List.mem_map.1 (List.mem_filter.1 hy).1
  have hsub : (unquote (Text.trim z)).Sublist z := (unquote_sublist _).trans (Text.trim_sublist z)
  exact fun hcomma => notMem_of_mem_splitOn hz (hsub.subset hcomma)

/-! ### Pieces that are joined -/

/-- A blank after each comma may as well be part of the piece that it stands before. -/
theorem intercalate_comma_blank (x : List Char) (xs : List (List Char)) :
    [',', ' '].intercalate (x :: xs) = [','].intercalate (x :: xs.map (' ' :: ·)) := by
  induction xs generalizing x with
  | nil => simp
  | cons y ys ih =>
    have hblank : [','].intercalate ((' ' :: y) :: ys.map (' ' :: ·)) =
        ' ' :: [','].intercalate (y :: ys.map (' ' :: ·)) := by
      cases ys <;> simp
    rw [List.map_cons, List.intercalate_cons_cons, List.intercalate_cons_cons, hblank, ih]
    simp

/-- Pieces without commas come apart at the commas, and trimming drops the blanks before them. -/
theorem map_trim_splitOn (hne : xs ≠ []) (hxs : ∀ x ∈ xs, ',' ∉ x) :
    (([',', ' '].intercalate xs).splitOn ',').map Text.trim = xs.map Text.trim := by
  obtain ⟨x, xs, rfl⟩ := List.exists_cons_of_ne_nil hne
  have hpieces : ∀ y ∈ x :: xs.map (' ' :: ·), ',' ∉ y := by
    intro y hy
    rcases List.mem_cons.1 hy with rfl | hy
    · exact hxs y List.mem_cons_self
    · obtain ⟨z, hz, rfl⟩ := List.mem_map.1 hy
      have hcomma : ',' ∉ z := hxs z (List.mem_cons_of_mem x hz)
      simpa using hcomma
  have hblank : Text.AllBlank [' '] := by simp [Text.AllBlank, Text.isBlank, Text.blankRanges]
  have htrim : (xs.map (' ' :: ·)).map Text.trim = xs.map Text.trim := by
    rw [List.map_map]
    exact List.map_congr_left fun z _ => Text.trim_append_left hblank z
  rw [intercalate_comma_blank, List.splitOn_intercalate ',' hpieces (List.cons_ne_nil _ _),
    List.map_cons, htrim, List.map_cons]

/-- **Pieces without commas are listed if they have text.** -/
theorem items_intercalate (hxs : ∀ x ∈ xs, ',' ∉ x) :
    items ([',', ' '].intercalate xs) =
      ((xs.map Text.trim).filter (!·.isEmpty)).map unquote := by
  by_cases hne : xs = []
  · subst hne
    rfl
  · rw [items, map_trim_splitOn hne hxs]

theorem items_intercalate_of_trimmed
    (hxs : ∀ x ∈ xs, x ≠ [] ∧ Text.trim x = x ∧ ',' ∉ x) :
    items ([',', ' '].intercalate xs) = xs.map unquote := by
  have htrim : xs.map Text.trim = xs :=
    (List.map_congr_left fun x hx => (hxs x hx).2.1).trans (List.map_id' xs)
  have hkept : xs.filter (!·.isEmpty) = xs :=
    List.filter_eq_self.2 fun x hx => by simpa using (hxs x hx).1
  rw [items_intercalate fun x hx => (hxs x hx).2.2, htrim, hkept]

/-! ### Names in quotes -/

theorem mem_double_iff : c ∈ double cs ↔ c ∈ cs := by
  induction cs with
  | nil => rfl
  | cons d cs ih =>
    unfold double
    split
    · rename_i hd
      simp [ih, hd]
    · simp [ih]

theorem mem_quote_iff (hc : c ≠ '"') : c ∈ quote cs ↔ c ∈ cs := by
  simp [quote, hc, mem_double_iff]

/-- Quotes are no blanks. -/
theorem trim_quote (cs : List Char) : Text.trim (quote cs) = quote cs := by
  have hquote : Text.isBlank '"' = false := by decide
  have hlast : (quote cs).getLast? = some '"' := by simp [quote, List.getLast?_cons]
  rw [Text.trim_eq_self_iff, hlast]
  simp [quote, hquote]

/-- The name in quotes. -/
def quoted (n : String) : String := .ofList (quote n.toList)

theorem items_quoted {ns : List String} (hns : ∀ n ∈ ns, ',' ∉ n.toList) :
    items (", ".intercalate (ns.map quoted)).toList = ns.map String.toList := by
  have hpieces : (", ".intercalate (ns.map quoted)).toList =
      [',', ' '].intercalate (ns.map fun n => quote n.toList) := by
    simp [quoted, Function.comp_def]
  rw [hpieces, items_intercalate_of_trimmed, List.map_map]
  · exact List.map_congr_left fun n _ => unquote_quote n.toList
  · intro x hx
    obtain ⟨n, hn, rfl⟩ := List.mem_map.1 hx
    have hcomma : ',' ∉ quote n.toList := (mem_quote_iff (by decide)).not.2 (hns n hn)
    exact ⟨by simp [quote], trim_quote _, hcomma⟩

end Setting

namespace SearchPath

variable {L : List String}

theorem ofSetting_of_items {s : String} (h : Setting.items s.toList = L.map String.toList) :
    ofSetting s = ofList L := by
  rw [ofSetting, h, List.map_map]
  simp [Function.comp_def]

/-- A setting without items stands for the default schema. -/
theorem listed_ofSetting (s : String) :
    (ofSetting s).listed = if Setting.items s.toList = [] then [defaultSchema]
      else (Setting.items s.toList).map String.ofList := by
  unfold ofSetting
  split
  · rename_i hnil
    rw [hnil]
    rfl
  · rename_i hne
    exact listed_ofList (by simpa using hne)

/-- **No schema of a setting has a comma in its name.** -/
theorem comma_notMem_of_mem_listed {s n : String} (hn : n ∈ (ofSetting s).listed) :
    ',' ∉ n.toList := by
  rw [listed_ofSetting] at hn
  split at hn
  · obtain rfl : n = defaultSchema := List.mem_singleton.1 hn
    decide
  · obtain ⟨x, hx, rfl⟩ := List.mem_map.1 hn
    rw [String.toList_ofList]
    exact Setting.comma_notMem_of_mem_items hx

/-- **Quoted names are read back exactly if none has a comma.** Quotes keep everything else: blanks,
quotes, and names without text. -/
theorem ofSetting_quoted_iff (hL : L ≠ []) :
    ofSetting (", ".intercalate (L.map Setting.quoted)) = ofList L ↔ ∀ n ∈ L, ',' ∉ n.toList := by
  constructor
  · intro h n hn
    have hlisted : (ofSetting (", ".intercalate (L.map Setting.quoted))).listed = L := by
      rw [h, listed_ofList hL]
    exact comma_notMem_of_mem_listed (hlisted ▸ hn)
  · intro h
    exact ofSetting_of_items (Setting.items_quoted h)

/-- A name without text, a name between blanks, names of quotes, and a schema that need not be
listed are read back from their quotes. A comma makes two names of one. -/
theorem ofSetting_quoted_iff_blanks :
    let L := ["", " a ", "\"", "\"\"", "pg_catalog"]
    L ≠ [] ∧ ofSetting (", ".intercalate (L.map Setting.quoted)) = ofList L ∧
      ["a,b"] ≠ [] ∧
        ofSetting (", ".intercalate (["a,b"].map Setting.quoted)) ≠ ofList ["a,b"] := by
  intro L
  have hL : L ≠ [] := List.cons_ne_nil _ _
  have hpair : ["a,b"] ≠ [] := List.cons_ne_nil _ _
  have hplain : ∀ n ∈ L, ',' ∉ n.toList := by decide
  have hcomma : ¬ ∀ n ∈ ["a,b"], ',' ∉ n.toList := by decide
  exact ⟨hL, (ofSetting_quoted_iff hL).2 hplain, hpair,
    fun h => hcomma ((ofSetting_quoted_iff hpair).1 h)⟩

example : ofSetting (", ".intercalate (["a,b"].map Setting.quoted)) = ofList ["\"a", "b\""] := by
  decide +kernel

end SearchPath

end Overloading
