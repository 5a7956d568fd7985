/-!
# Output

Printed lines go to one of two places: a list that keeps every line, or a sink that
takes a limited number of bytes.  A line that does not fit whole into the sink is
written as far as it fits, and printing it fails.
-/

namespace Lox

/-- Where printed lines go. -/
inductive Output where
  /-- Keeps every line. -/
  | captured (lines : Array String)
  /-- Has taken some bytes and takes `room` more. -/
  | sink (room : Nat) (taken : ByteArray)

namespace Output

/-- A capturing output without lines. -/
def capturing : Output := .captured #[]

/-- A sink that takes a number of bytes. -/
def limited (room : Nat) : Output := .sink room ByteArray.empty

/-- Prints a line; whether it was taken whole. -/
def print (line : String) : Output → Bool × Output
  | .captured lines => (true, .captured (lines.push line))
  | .sink room taken =>
    let bytes := (line.push '\n').toUTF8
    if bytes.size ≤ room then (true, .sink (room - bytes.size) (taken ++ bytes))
    else (false, .sink 0 (taken ++ bytes.extract 0 room))

/-- The lines kept; a sink keeps none. -/
def lines : Output → Array String
  | .captured lines => lines
  | .sink _ _ => #[]

/-- Number of bytes, at most three, after the last whole character. -/
def tornBytes (bytes : ByteArray) : Nat :=
  ([0, 1, 2, 3].find? fun torn =>
    (String.fromUTF8? (bytes.extract 0 (bytes.size - torn))).isSome).getD 0

/-- The text of the bytes that a sink has taken.  If they end inside a character,
one replacement character stands for its bytes. -/
def takenText : Output → String
  | .captured _ => ""
  | .sink _ taken =>
    let torn := tornBytes taken
    let whole := (String.fromUTF8? (taken.extract 0 (taken.size - torn))).getD ""
    if torn = 0 then whole else whole.push '\ufffd'

end Output

end Lox
