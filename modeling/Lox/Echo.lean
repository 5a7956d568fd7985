/-!
# Echo of expressions

An interactive line that is only an expression is turned into a statement that
prints it.  Which lines are expressions is guessed from their characters: a line
that ends in a closing brace, starts with an opening brace or with a word that
begins a declaration or statement, or holds a single equals sign outside of quotes,
is taken as it is.
-/

namespace Lox

namespace Echo

/-- Words with which a declaration or statement begins. -/
def openingWords : List String :=
  ["var", "let", "const", "fun", "function", "class", "if", "while", "for", "print",
   "return"]

/-- Characters of words: ASCII letters and digits. -/
def isWordPart (c : Char) : Bool := c.isAlpha || c.isDigit

/-- The ASCII letters and digits with which a line starts. -/
def firstWord (line : List Char) : String :=
  String.ofList (line.takeWhile isWordPart)

/-- Characters that make one operator with an equals sign after them. -/
def joinsEqual : Option Char → Bool
  | some '=' | some '!' | some '<' | some '>' => true
  | _ => false

/-- A single equals sign stands outside of quotes; the character before the text
and whether it stands between quotes are given. -/
def hasSingleEqual (before : Option Char) (quoted : Bool) : List Char → Bool
  | [] => false
  | c :: text =>
    if c = '"' then hasSingleEqual (some c) (!quoted) text
    else if c = '=' && !quoted && !joinsEqual before && text.head? ≠ some '=' then true
    else hasSingleEqual (some c) quoted text

/-- A line is taken for an assignment. -/
def isAssignment (line : List Char) : Bool := hasSingleEqual none false line

/-- A line is taken for an expression. -/
def isBareExpression (line : List Char) : Bool :=
  line.getLast? ≠ some '\x7d' && !openingWords.contains (firstWord line) &&
    line.head? ≠ some '\x7b' && !isAssignment line

/-- Text without one semicolon at its end. -/
def dropSemicolon (line : List Char) : List Char :=
  if line.getLast? = some ';' then line.dropLast else line

/-- The statement that is run for a line. -/
def wrap (line : List Char) : List Char :=
  if isBareExpression line then "print ".toList ++ dropSemicolon line ++ [';'] else line

end Echo

end Lox
