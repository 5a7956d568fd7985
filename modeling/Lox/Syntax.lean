import Lox.Span

/-!
# Syntax trees

A program is a list of statements.  Every expression carries a *node*: a number
that no other expression of the run has, and the stretch of text it was read from.
The number is how later stages speak about one occurrence of a name.

**Functions.** A function declaration has a number of its own.  Two function values
come from the same declaration exactly if these numbers are equal, so that
functions can be compared without comparing their bodies.
-/

namespace Lox

/-- Number and place of an expression. -/
structure Node where
  /-- Number of the expression, different for all expressions of a run. -/
  id : Nat
  /-- Text of the expression. -/
  span : Span
  deriving DecidableEq, Repr

/-- A value written in the source. -/
inductive Constant where
  | number (value : Float)
  | text (value : String)
  | bool (value : Bool)
  | nil

/-- Operators with one operand. -/
inductive UnaryOp where
  | negate | not
  deriving DecidableEq, Repr

/-- Operators with two operands that are both evaluated. -/
inductive BinaryOp where
  | add | subtract | multiply | divide
  | equal | notEqual | less | lessEqual | greater | greaterEqual
  deriving DecidableEq, Repr

/-- Operators that evaluate their right operand only if the left one leaves the
answer open. -/
inductive LogicalOp where
  | and | or
  deriving DecidableEq, Repr

/-- Expressions. -/
inductive Expr where
  | literal (node : Node) (value : Constant)
  | grouping (node : Node) (inner : Expr)
  | unary (node : Node) (op : UnaryOp) (operand : Expr)
  | binary (node : Node) (op : BinaryOp) (left right : Expr) (opSpan : Span)
  | logical (node : Node) (op : LogicalOp) (left right : Expr)
  | variable (node : Node) (name : String)
  | assign (node : Node) (name : String) (value : Expr)
  | call (node : Node) (callee : Expr) (arguments : List Expr) (paren : Span)
  | new (node : Node) (callee : Expr) (arguments : List Expr) (paren : Span)
  | get (node : Node) (object : Expr) (name : String) (nameSpan : Span)
  | set (node : Node) (object : Expr) (name : String) (nameSpan : Span) (value : Expr)
  | this (node : Node)

namespace Expr

/-- Number and place of an expression. -/
def node : Expr → Node
  | literal node _ => node
  | grouping node _ => node
  | unary node _ _ => node
  | binary node _ _ _ _ => node
  | logical node _ _ _ => node
  | .variable node _ => node
  | assign node _ _ => node
  | call node _ _ _ => node
  | new node _ _ _ => node
  | get node _ _ _ => node
  | set node _ _ _ _ => node
  | this node => node

/-- Number of an expression. -/
def id (e : Expr) : Nat := e.node.id

/-- Text of an expression. -/
def span (e : Expr) : Span := e.node.span

end Expr

mutual
/-- Statements. -/
inductive Stmt where
  | expression (value : Expr) (span : Span)
  | print (value : Expr) (span : Span)
  | var (name : String) (initializer : Option Expr) (span : Span)
  | block (body : List Stmt) (span : Span)
  | ifElse (condition : Expr) (thenBranch : Stmt) (elseBranch : Option Stmt) (span : Span)
  | while (condition : Expr) (body : Stmt) (span : Span)
  | function (decl : FunctionDecl) (span : Span)
  | class (name : String) (methods : List FunctionDecl) (span : Span)
  | return (value : Option Expr) (span : Span)

/-- A function or method: its number, name, parameters, body and place. -/
inductive FunctionDecl where
  | mk (number : Nat) (name : String) (params : List String) (body : List Stmt) (span : Span)
end

namespace FunctionDecl

/-- Number of the declaration, different for all declarations of a run. -/
def number : FunctionDecl → Nat
  | mk number _ _ _ _ => number

/-- Declared name. -/
def name : FunctionDecl → String
  | mk _ name _ _ _ => name

/-- Names of the parameters, in order. -/
def params : FunctionDecl → List String
  | mk _ _ params _ _ => params

/-- Statements of the body. -/
def body : FunctionDecl → List Stmt
  | mk _ _ _ body _ => body

/-- Text from the name to the closing brace. -/
def span : FunctionDecl → Span
  | mk _ _ _ _ span => span

/-- Number of parameters. -/
def arity (f : FunctionDecl) : Nat := f.params.length

end FunctionDecl

namespace Stmt

/-- Text of a statement. -/
def span : Stmt → Span
  | .expression _ span => span
  | print _ span => span
  | var _ _ span => span
  | block _ span => span
  | ifElse _ _ _ span => span
  | .while _ _ span => span
  | function _ span => span
  | .class _ _ span => span
  | .return _ span => span

end Stmt

/-- A program: statements in order. -/
structure Program where
  /-- Statements of the program. -/
  statements : List Stmt

end Lox
