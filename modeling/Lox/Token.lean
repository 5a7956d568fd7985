import Lox.Span
import Lox.Token.Kind
import Lox.Number.Text
import Lox.Number.Reading

/-!
# Tokens

A token is a kind together with the text it was made from, its place and, for
numbers and strings, the value it stands for.  The list of tokens of a text ends
with a token of kind `eof`, which has no text.
-/

namespace Lox

/-- Value of a number or string token.  Whole numbers below two to the power 63
are kept exactly; all other numbers are rounded. -/
inductive Literal where
  | integer (value : Int)
  | float (value : Float)
  | text (value : String)

namespace Literal

/-- A literal in a token listing. -/
def display : Literal → String
  | .integer value => toString value
  | .float value => NumberStyle.literal.format value
  | .text value => value

/-- Value of digits without a point: exact below two to the power 63. -/
def ofWhole (digits : List Char) : Literal :=
  let value := Nat.ofDigitChars 10 digits 0
  if value < twoPow 63 then .integer value else .float (Decimal.ofDigits digits []).toFloat

/-- Value of digits with a fraction. -/
def ofFraction (whole fraction : List Char) : Literal :=
  .float (Decimal.ofDigits whole fraction).toFloat

end Literal

/-- A token: kind, text, value and place. -/
structure Token where
  /-- Kind of the token. -/
  kind : Token.Kind
  /-- Text of the token as it stands in the source. -/
  lexeme : String
  /-- Value of a number or string. -/
  literal : Option Literal
  /-- Place of the text. -/
  span : Span

namespace Token

/-- Line on which the token starts. -/
def line (t : Token) : Nat := t.span.line

/-- The token that ends a text which stops at `p`. -/
def endAt (p : Position) : Token :=
  ⟨.eof, "", none, ⟨p.offset, 0, p.line⟩⟩

/-- Where a message about this token says it is. -/
def location (t : Token) : String :=
  if t.kind = .eof then "at end" else "at '" ++ t.lexeme ++ "'"

/-- A line of a token listing. -/
def display (t : Token) : String :=
  let head := t.kind.name ++ " '" ++ t.lexeme ++ "' line " ++ toString t.line
  match t.literal with
  | none => head
  | some literal => head ++ " = " ++ literal.display

end Token

end Lox
