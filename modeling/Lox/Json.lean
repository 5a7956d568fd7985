/-!
# JSON documents

A small model of JSON documents, enough to write them.  Numbers are kept as the
text that is written for them, and the members of an object keep their order.

**Layout.** `pretty` puts every element and member on a line of its own, indented
by two spaces for each level; empty arrays and objects stay on one line.
-/

namespace Lox

/-- A JSON document. -/
inductive Json where
  | null
  | bool (value : Bool)
  | number (text : String)
  | string (value : String)
  | array (elements : List Json)
  | object (members : List (String × Json))

namespace Json

/-- A whole number. -/
def nat (n : Nat) : Json := .number (toString n)

/-- The four hexadecimal digits of a number below 65536. -/
def hex4 (n : Nat) : List Char :=
  [4096, 256, 16, 1].map fun place => Nat.digitChar (n / place % 16)

/-- A character inside a string: quotes, backslashes and characters below the space
are escaped. -/
def escape (c : Char) : List Char :=
  match c with
  | '"' => ['\\', '"']
  | '\\' => ['\\', '\\']
  | '\x08' => ['\\', 'b']
  | '\x0c' => ['\\', 'f']
  | '\n' => ['\\', 'n']
  | '\r' => ['\\', 'r']
  | '\t' => ['\\', 't']
  | c => if c.toNat < 32 then '\\' :: 'u' :: hex4 c.toNat else [c]

/-- A string between quotes. -/
def quote (s : String) : String :=
  String.ofList ('"' :: s.toList.flatMap escape ++ ['"'])

/-- A line break and the indentation of a level. -/
def lineBreak (level : Nat) : String :=
  String.ofList ('\n' :: List.replicate (2 * level) ' ')

mutual
/-- A document whose first line stands on a line of the given level. -/
def prettyAt (level : Nat) : Json → String
  | .null => "null"
  | .bool true => "true"
  | .bool false => "false"
  | .number text => text
  | .string value => quote value
  | .array [] => "[]"
  | .array (e :: es) =>
    "[" ++ lineBreak (level + 1) ++ prettyAt (level + 1) e ++
      prettyElements (level + 1) es ++ lineBreak level ++ "]"
  | .object [] => "\x7b\x7d"
  | .object ((key, value) :: members) =>
    "\x7b" ++ lineBreak (level + 1) ++ quote key ++ ": " ++ prettyAt (level + 1) value ++
      prettyMembers (level + 1) members ++ lineBreak level ++ "\x7d"

/-- Further elements of an array, each after a comma. -/
def prettyElements (level : Nat) : List Json → String
  | [] => ""
  | e :: es => "," ++ lineBreak level ++ prettyAt level e ++ prettyElements level es

/-- Further members of an object, each after a comma. -/
def prettyMembers (level : Nat) : List (String × Json) → String
  | [] => ""
  | (key, value) :: members =>
    "," ++ lineBreak level ++ quote key ++ ": " ++ prettyAt level value ++
      prettyMembers level members
end

/-- A document over several lines. -/
def pretty (j : Json) : String := prettyAt 0 j

end Json

end Lox
