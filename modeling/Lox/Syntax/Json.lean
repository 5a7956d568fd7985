import Lox.Json
import Lox.Syntax
import Lox.Number.Text

/-!
# Syntax trees as JSON documents

Every statement and expression is an object whose first member, `type`, names its
form; the other members are its parts in a fixed order.  Parts that are left out
are null.  A written value is an object with one member that names its type, or the
string `Nil`.
-/

namespace Lox

/-- A stretch of text. -/
def Span.json (s : Span) : Json :=
  .object [("offset", .nat s.offset), ("len", .nat s.len), ("line", .nat s.line)]

/-- The name of a unary operator. -/
def UnaryOp.name : UnaryOp → String
  | .negate => "Negate"
  | .not => "Not"

/-- The name of a binary operator. -/
def BinaryOp.name : BinaryOp → String
  | .add => "Add"
  | .subtract => "Subtract"
  | .multiply => "Multiply"
  | .divide => "Divide"
  | .equal => "Equal"
  | .notEqual => "NotEqual"
  | .less => "Less"
  | .lessEqual => "LessEqual"
  | .greater => "Greater"
  | .greaterEqual => "GreaterEqual"

/-- The name of a logical operator. -/
def LogicalOp.name : LogicalOp → String
  | .and => "And"
  | .or => "Or"

/-- A written value. -/
def Constant.json : Constant → Json
  | .number value => .object [("Number", .number (NumberStyle.json.format value))]
  | .text value => .object [("String", .string value)]
  | .bool value => .object [("Bool", .bool value)]
  | .nil => .string "Nil"

/-- The members that every expression starts with. -/
def Node.heading (node : Node) (type : String) : List (String × Json) :=
  [("type", .string type), ("id", .nat node.id)]

mutual
/-- An expression as an object. -/
def Expr.json : Expr → Json
  | .literal node value =>
    .object (node.heading "Literal" ++
      [("value", value.json), ("span", node.span.json)])
  | .grouping node inner =>
    .object (node.heading "Grouping" ++
      [("expression", inner.json), ("span", node.span.json)])
  | .unary node op operand =>
    .object (node.heading "Unary" ++
      [("operator", .string op.name), ("operand", operand.json),
       ("span", node.span.json)])
  | .binary node op left right opSpan =>
    .object (node.heading "Binary" ++
      [("left", left.json), ("operator", .string op.name), ("right", right.json),
       ("op_span", opSpan.json), ("span", node.span.json)])
  | .logical node op left right =>
    .object (node.heading "Logical" ++
      [("left", left.json), ("operator", .string op.name), ("right", right.json),
       ("span", node.span.json)])
  | .variable node name =>
    .object (node.heading "Variable" ++
      [("name", .string name), ("span", node.span.json)])
  | .assign node name value =>
    .object (node.heading "Assign" ++
      [("name", .string name), ("value", value.json), ("span", node.span.json)])
  | .call node callee arguments paren =>
    .object (node.heading "Call" ++
      [("callee", callee.json), ("arguments", .array (Expr.jsonList arguments)),
       ("paren", paren.json), ("span", node.span.json)])
  | .new node callee arguments paren =>
    .object (node.heading "Instantiate" ++
      [("callee", callee.json), ("arguments", .array (Expr.jsonList arguments)),
       ("paren", paren.json), ("span", node.span.json)])
  | .get node object name nameSpan =>
    .object (node.heading "Get" ++
      [("object", object.json), ("name", .string name), ("name_span", nameSpan.json),
       ("span", node.span.json)])
  | .set node object name nameSpan value =>
    .object (node.heading "Set" ++
      [("object", object.json), ("name", .string name), ("name_span", nameSpan.json),
       ("value", value.json), ("span", node.span.json)])
  | .this node => .object (node.heading "This" ++ [("span", node.span.json)])

/-- Expressions as objects. -/
def Expr.jsonList : List Expr → List Json
  | [] => []
  | e :: es => e.json :: Expr.jsonList es
end

mutual
/-- A statement as an object. -/
def Stmt.json : Stmt → Json
  | .expression value span =>
    .object [("type", .string "Expression"), ("expression", value.json),
      ("span", span.json)]
  | .print value span =>
    .object [("type", .string "Print"), ("expression", value.json), ("span", span.json)]
  | .var name initializer span =>
    .object [("type", .string "Var"), ("name", .string name),
      ("initializer", (initializer.map Expr.json).getD .null), ("span", span.json)]
  | .block body span =>
    .object [("type", .string "Block"), ("statements", .array (Stmt.jsonList body)),
      ("span", span.json)]
  | .ifElse condition thenBranch none span =>
    .object [("type", .string "If"), ("condition", condition.json),
      ("then_branch", thenBranch.json), ("else_branch", .null), ("span", span.json)]
  | .ifElse condition thenBranch (some elseBranch) span =>
    .object [("type", .string "If"), ("condition", condition.json),
      ("then_branch", thenBranch.json), ("else_branch", elseBranch.json),
      ("span", span.json)]
  | .while condition body span =>
    .object [("type", .string "While"), ("condition", condition.json),
      ("body", body.json), ("span", span.json)]
  | .function decl span =>
    .object [("type", .string "Function"), ("function", decl.json), ("span", span.json)]
  | .class name methods span =>
    .object [("type", .string "Class"), ("name", .string name),
      ("methods", .array (FunctionDecl.jsonList methods)), ("span", span.json)]
  | .return value span =>
    .object [("type", .string "Return"), ("value", (value.map Expr.json).getD .null),
      ("span", span.json)]

/-- Statements as objects. -/
def Stmt.jsonList : List Stmt → List Json
  | [] => []
  | s :: ss => s.json :: Stmt.jsonList ss

/-- A function as an object. -/
def FunctionDecl.json : FunctionDecl → Json
  | .mk _ name params body span =>
    .object [("name", .string name), ("params", .array (params.map .string)),
      ("body", .array (Stmt.jsonList body)), ("span", span.json)]

/-- Functions as objects. -/
def FunctionDecl.jsonList : List FunctionDecl → List Json
  | [] => []
  | f :: fs => f.json :: FunctionDecl.jsonList fs
end

/-- A program as a document. -/
def Program.json (p : Program) : Json :=
  .object [("statements", .array (Stmt.jsonList p.statements))]

end Lox
