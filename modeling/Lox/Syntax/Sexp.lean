import Lox.Syntax
import Lox.Number.Text

/-!
# Syntax trees as symbolic expressions

Each statement is written in one bracketed prefix form: an operator or keyword and
then its parts, separated by single spaces.  Expression statements are written as
their expression, names and literals as themselves; the text of a string stands
between quotes as it is.
-/

namespace Lox

/-- The sign of a unary operator. -/
def UnaryOp.sign : UnaryOp → String
  | .negate => "-"
  | .not => "!"

/-- The sign of a binary operator. -/
def BinaryOp.sign : BinaryOp → String
  | .add => "+"
  | .subtract => "-"
  | .multiply => "*"
  | .divide => "/"
  | .equal => "=="
  | .notEqual => "!="
  | .less => "<"
  | .lessEqual => "<="
  | .greater => ">"
  | .greaterEqual => ">="

/-- The word of a logical operator. -/
def LogicalOp.word : LogicalOp → String
  | .and => "and"
  | .or => "or"

/-- A written value. -/
def Constant.sexp : Constant → String
  | .number value => NumberStyle.plain.format value
  | .text value => "\"" ++ value ++ "\""
  | .bool true => "true"
  | .bool false => "false"
  | .nil => "nil"

mutual
/-- An expression in prefix form. -/
def Expr.sexp : Expr → String
  | .literal _ value => value.sexp
  | .grouping _ inner => "(group " ++ inner.sexp ++ ")"
  | .unary _ op operand => "(" ++ op.sign ++ " " ++ operand.sexp ++ ")"
  | .binary _ op left right _ =>
    "(" ++ op.sign ++ " " ++ left.sexp ++ " " ++ right.sexp ++ ")"
  | .logical _ op left right =>
    "(" ++ op.word ++ " " ++ left.sexp ++ " " ++ right.sexp ++ ")"
  | .variable _ name => name
  | .assign _ name value => "(= " ++ name ++ " " ++ value.sexp ++ ")"
  | .call _ callee arguments _ =>
    "(call " ++ callee.sexp ++ Expr.sexpTail arguments ++ ")"
  | .new _ callee arguments _ =>
    "(new " ++ callee.sexp ++ Expr.sexpTail arguments ++ ")"
  | .get _ object name _ => "(. " ++ object.sexp ++ " " ++ name ++ ")"
  | .set _ object name _ value =>
    "(.= " ++ object.sexp ++ " " ++ name ++ " " ++ value.sexp ++ ")"
  | .this _ => "this"

/-- Expressions in prefix form, each after a space. -/
def Expr.sexpTail : List Expr → String
  | [] => ""
  | e :: es => " " ++ e.sexp ++ Expr.sexpTail es
end

mutual
/-- A statement in prefix form. -/
def Stmt.sexp : Stmt → String
  | .expression value _ => value.sexp
  | .print value _ => "(print " ++ value.sexp ++ ")"
  | .var name none _ => "(var " ++ name ++ ")"
  | .var name (some value) _ => "(var " ++ name ++ " " ++ value.sexp ++ ")"
  | .block body _ => "(block" ++ Stmt.sexpTail body ++ ")"
  | .ifElse condition thenBranch none _ =>
    "(if " ++ condition.sexp ++ " " ++ thenBranch.sexp ++ ")"
  | .ifElse condition thenBranch (some elseBranch) _ =>
    "(if " ++ condition.sexp ++ " " ++ thenBranch.sexp ++ " " ++ elseBranch.sexp ++ ")"
  | .while condition body _ => "(while " ++ condition.sexp ++ " " ++ body.sexp ++ ")"
  | .function decl _ => decl.sexp
  | .class name methods _ => "(class " ++ name ++ FunctionDecl.sexpTail methods ++ ")"
  | .return none _ => "(return)"
  | .return (some value) _ => "(return " ++ value.sexp ++ ")"

/-- Statements in prefix form, each after a space. -/
def Stmt.sexpTail : List Stmt → String
  | [] => ""
  | s :: ss => " " ++ s.sexp ++ Stmt.sexpTail ss

/-- A function in prefix form. -/
def FunctionDecl.sexp : FunctionDecl → String
  | .mk _ name params body _ =>
    "(fun " ++ name ++ " (" ++ " ".intercalate params ++ ")" ++ Stmt.sexpTail body ++ ")"

/-- Functions in prefix form, each after a space. -/
def FunctionDecl.sexpTail : List FunctionDecl → String
  | [] => ""
  | f :: fs => " " ++ f.sexp ++ FunctionDecl.sexpTail fs
end

/-- A program in prefix form: a line for each statement. -/
def Program.sexp (p : Program) : String :=
  String.join (p.statements.map fun s => s.sexp ++ "\n")

end Lox
