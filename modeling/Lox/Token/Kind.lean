/-!
# Kinds of tokens

Every token has a kind.  Kinds of fixed spelling are punctuation and keywords;
identifiers, strings and the two kinds of numbers have a spelling of their own.

**Keywords.** `keyword?` is the whole keyword table.  `fun` has the synonym
`function`; `let` and `const` are reserved although no construct uses them.
-/

namespace Lox

namespace Token

/-- The kinds of tokens.  `&&` and `||` have the kinds of the words `and` and
`or`; `number` is written without a point, `float` with one. -/
inductive Kind where
  | leftParen | rightParen | leftBrace | rightBrace
  | comma | dot | minus | plus | semicolon | slash | star
  | bang | bangEqual | equal | equalEqual
  | greater | greaterEqual | less | lessEqual
  | identifier | string | number | float
  | and | class : Kind | const | else | false | fun | for | if | let | new | nil
  | or | print | return | this | true | var | while
  | eof
  deriving DecidableEq, Repr

namespace Kind

/-- The kind that a word has as a keyword. -/
def keyword? : String → Option Kind
  | "and" => some .and
  | "class" => some .class
  | "const" => some .const
  | "else" => some .else
  | "false" => some .false
  | "fun" => some .fun
  | "function" => some .fun
  | "for" => some .for
  | "if" => some .if
  | "let" => some .let
  | "new" => some .new
  | "nil" => some .nil
  | "or" => some .or
  | "print" => some .print
  | "return" => some .return
  | "this" => some .this
  | "true" => some .true
  | "var" => some .var
  | "while" => some .while
  | _ => none

/-- The kind of a word: its keyword, or an identifier. -/
def ofWord (word : String) : Kind :=
  (keyword? word).getD .identifier

/-- How a kind is written in messages: fixed spellings as they are, the others
as a word in capitals. -/
def symbol : Kind → String
  | .leftParen => "(" | .rightParen => ")"
  | .leftBrace => "\x7b" | .rightBrace => "\x7d"
  | .comma => "," | .dot => "." | .minus => "-" | .plus => "+"
  | .semicolon => ";" | .slash => "/" | .star => "*"
  | .bang => "!" | .bangEqual => "!=" | .equal => "=" | .equalEqual => "=="
  | .greater => ">" | .greaterEqual => ">=" | .less => "<" | .lessEqual => "<="
  | .identifier => "IDENTIFIER" | .string => "STRING"
  | .number => "NUMBER" | .float => "FLOAT"
  | .and => "and" | .class => "class" | .const => "const" | .else => "else"
  | .false => "false" | .fun => "fun" | .for => "for" | .if => "if"
  | .let => "let" | .new => "new" | .nil => "nil" | .or => "or"
  | .print => "print" | .return => "return" | .this => "this"
  | .true => "true" | .var => "var" | .while => "while"
  | .eof => "EOF"

/-- The name of a kind in token listings. -/
def name : Kind → String
  | .leftParen => "LeftParen" | .rightParen => "RightParen"
  | .leftBrace => "LeftBrace" | .rightBrace => "RightBrace"
  | .comma => "Comma" | .dot => "Dot" | .minus => "Minus" | .plus => "Plus"
  | .semicolon => "Semicolon" | .slash => "Slash" | .star => "Star"
  | .bang => "Bang" | .bangEqual => "BangEqual"
  | .equal => "Equal" | .equalEqual => "EqualEqual"
  | .greater => "Greater" | .greaterEqual => "GreaterEqual"
  | .less => "Less" | .lessEqual => "LessEqual"
  | .identifier => "Identifier" | .string => "String"
  | .number => "Number" | .float => "Float"
  | .and => "And" | .class => "Class" | .const => "Const" | .else => "Else"
  | .false => "False" | .fun => "Fun" | .for => "For" | .if => "If"
  | .let => "Let" | .new => "New" | .nil => "Nil" | .or => "Or"
  | .print => "Print" | .return => "Return" | .this => "This"
  | .true => "True" | .var => "Var" | .while => "While"
  | .eof => "Eof"

/-- All kinds, in the order in which they are declared. -/
def all : List Kind :=
  [.leftParen, .rightParen, .leftBrace, .rightBrace, .comma, .dot, .minus, .plus,
   .semicolon, .slash, .star, .bang, .bangEqual, .equal, .equalEqual, .greater,
   .greaterEqual, .less, .lessEqual, .identifier, .string, .number, .float, .and,
   .class, .const, .else, .false, .fun, .for, .if, .let, .new, .nil, .or, .print,
   .return, .this, .true, .var, .while, .eof]

/-- The kind with a given name in token listings. -/
def ofName? (name : String) : Option Kind :=
  all.find? fun kind => kind.name = name

end Kind

end Token

end Lox
