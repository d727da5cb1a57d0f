import Overloading.SearchPath.Basic
import Overloading.Text.Blank

/-! # Search path settings

A setting is a text that lists schemas with commas between them. Blanks around an item and items
without text mean nothing. An item in double quotes stands for the text between them, in which a
doubled quote is one quote (`unquote`). Commas always separate, inside quotes too. `quote` writes a
name as such an item, and `unquote_quote` reads it back. -/

namespace Overloading

namespace Setting

/-- The text with each pair of quotes, counted from the left, replaced by one quote. -/
def halve : List Char → List Char
  | '"' :: '"' :: cs => '"' :: halve cs
  | c :: cs => c :: halve cs
  | [] => []

/-- The name that an item stands for. -/
def unquote : List Char → List Char
  | '"' :: cs => if cs.getLast? = some '"' then halve cs.dropLast else '"' :: cs
  | cs => cs

/-- The text with each quote doubled. -/
def double : List Char → List Char
  | [] => []
  | c :: cs => if c = '"' then '"' :: '"' :: double cs else c :: double cs

/-- The name in quotes, its own quotes doubled. -/
def quote (cs : List Char) : List Char := '"' :: double cs ++ ['"']

/-- The names that a setting lists. -/
def items (cs : List Char) : List (List Char) :=
  (((cs.splitOn ',').map Text.trim).filter (!·.isEmpty)).map unquote

theorem halve_double : ∀ cs : List Char, halve (double cs) = cs
  | [] => rfl
  | c :: cs => by
    unfold double
    split
    · rename_i h
      rw [halve, halve_double cs, h]
    · rename_i h
      rw [halve, halve_double cs]
      intro _ hc _
      exact h hc

/-- **A quoted name is read back.** -/
theorem unquote_quote (cs : List Char) : unquote (quote cs) = cs := by
  rw [quote, List.cons_append, unquote, if_pos (by simp), List.dropLast_concat, halve_double]

end Setting

/-- The search path of a setting. -/
def SearchPath.ofSetting (s : String) : SearchPath :=
  ofList ((Setting.items s.toList).map String.ofList)

end Overloading
