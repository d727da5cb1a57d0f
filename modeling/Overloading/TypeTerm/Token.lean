import Overloading.Text.Blank

/-! # Tokens of type terms

The text of a type term consists of names and of the marks `(`, `,` and `)`. A name is the text of a
gap between two marks, the blanks at its ends left out, so it may hold blanks itself (`double
precision`); a blank gap is no token. `scan` reads the tokens of a text from its end to its start.
-/

namespace Overloading

/-- A name, or one of the marks that structure the text. -/
inductive Token
  | name (text : String)
  | opening | comma | closing
  deriving DecidableEq

namespace Token

/-- The mark that this character is. -/
def ofChar? : Char → Option Token
  | '(' => some opening
  | ',' => some comma
  | ')' => some closing
  | _ => none

/-- The tokens in the text of a gap: one name, or none if all of it is blank. -/
def ofGap (gap : List Char) : List Token :=
  match Text.trim gap with
  | [] => []
  | cs => [name (String.ofList cs)]

/-- One step of the scan: what is known of the text after `c` is the gap it starts with and the
tokens that follow the gap. -/
def scanStep (c : Char) (read : List Char × List Token) : List Char × List Token :=
  match ofChar? c with
  | some mark => ([], mark :: (ofGap read.1 ++ read.2))
  | none => (c :: read.1, read.2)

/-- The tokens of the text. -/
def scan (cs : List Char) : List Token :=
  let read := cs.foldr scanStep ([], [])
  ofGap read.1 ++ read.2

example : scan " array ( double precision ) ".toList =
    [name "array", opening, name "double precision", closing] := by decide +kernel

end Token

end Overloading
