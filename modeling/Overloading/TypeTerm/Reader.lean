import Overloading.TypeTerm.Denotation
import Overloading.TypeTerm.Token

/-! # Reading type terms

A `Reader` is what has been read of a type term up to some token: the applications that are still
open, outermost last, and the innermost name or term. `step` takes it over the next token, and
`TypeTerm.parse` reads a whole text. A name that parentheses follow is an application; any other
name is a variable if it consists of the letters `A` to `Z`, and a type without parameters if not.
-/

namespace Overloading

/-- The term that a name without parentheses stands for. -/
def TypeTerm.ofName (n : String) : TypeTerm :=
  if n.toList.all Char.isUpper then var n else base n

/-- An application whose parameters are being read, with the parameters that have ended. -/
structure Frame where
  name : String
  params : List TypeTerm
  deriving DecidableEq

/-- The state between two tokens: a term is due, a name has ended that may have parameters, or a
term has ended. -/
inductive Reader
  | due (frames : List Frame)
  | named (name : String) (frames : List Frame)
  | ended (term : TypeTerm) (frames : List Frame)
  deriving DecidableEq

namespace Reader

/-- The token after a term: a comma asks for the next parameter, a parenthesis ends the application.
-/
def close (t : TypeTerm) : List Frame → Token → Option Reader
  | f :: fs, .comma => some (due (⟨f.name, f.params ++ [t]⟩ :: fs))
  | f :: fs, .closing => some (ended (.app f.name (f.params ++ [t])) fs)
  | _, _ => none

/-- One step of the reader. -/
def step : Reader → Token → Option Reader
  | due fs, .name n => some (named n fs)
  | named n fs, .opening => some (due (⟨n, []⟩ :: fs))
  | named n fs, k => close (.ofName n) fs k
  | ended t fs, k => close t fs k
  | due _, _ => none

/-- The term that has been read, if the text may end here. -/
def term? : Reader → Option TypeTerm
  | named n [] => some (.ofName n)
  | ended t [] => some t
  | _ => none

end Reader

namespace TypeTerm

/-- The term that these tokens write. -/
def ofTokens? (ts : List Token) : Option TypeTerm :=
  (ts.foldlM Reader.step (.due [])).bind Reader.term?

/-- The term that this text writes. -/
def parse (s : String) : Except TypeError TypeTerm :=
  match ofTokens? (Token.scan s.toList) with
  | some t => .ok t
  | none => .error (.malformed s)

end TypeTerm

end Overloading
