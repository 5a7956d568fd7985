import Lox.Machine
import Lox.Operators

/-!
# Running code

Expressions have values and statements have effects; both may call functions, whose
bodies are found in the store.  Each action takes a budget, of which every step into
a part of the code, into a function body or into a further round of a loop takes
one.  An action whose budget suffices gives the same answer with every larger
budget.

**Order.** Operands, then arguments, are evaluated from left to right before they
are looked at.  Only the value of a property write waits until its object is known
to be an instance.
-/

namespace Lox

namespace Run

mutual
/-- Evaluates an expression. -/
def evaluate : Nat → Expr → Run Value
  | 0, _ => throw .exhausted
  | _ + 1, .literal _ value => return .ofConstant value
  | n + 1, .grouping _ inner => evaluate n inner
  | n + 1, .unary node op operand => do
    let value ← evaluate n operand
    check node.span (op.apply value)
  | n + 1, .binary _ op left right opSpan => do
    let a ← evaluate n left
    let b ← evaluate n right
    check opSpan (op.apply a b)
  | n + 1, .logical _ op left right => do
    let a ← evaluate n left
    if op.isDecidedBy a then return a else evaluate n right
  | _ + 1, .variable node name => lookUp name node
  | n + 1, .assign node name value => do
    let v ← evaluate n value
    assign name node v
    return v
  | n + 1, .call _ callee arguments paren => do
    let f ← evaluate n callee
    let values ← evaluateAll n arguments
    invoke n f values paren
  | n + 1, .new _ callee arguments paren => do
    let c ← evaluate n callee
    let values ← evaluateAll n arguments
    instantiate c values paren
  | n + 1, .get _ object name nameSpan => do
    let o ← evaluate n object
    property o name nameSpan
  | n + 1, .set _ object name nameSpan value => do
    let o ← evaluate n object
    match o with
    | .instance i =>
      let v ← evaluate n value
      modifyStore fun s => s.setField i name v
      return v
    | other => fail (.fieldsOfOther other.typeName) nameSpan
  | _ + 1, .this node => lookUp "this" node

/-- Evaluates expressions in order. -/
def evaluateAll : Nat → List Expr → Run (List Value)
  | 0, _ => throw .exhausted
  | _ + 1, [] => return []
  | n + 1, e :: es => do
    let v ← evaluate n e
    let vs ← evaluateAll n es
    return v :: vs

/-- Calls a value, which must be a function. -/
def invoke : Nat → Value → List Value → Span → Run Value
  | 0, _, _, _ => throw .exhausted
  | n + 1, .function f, arguments, paren => do
    checkCall f.decl.arity arguments.length paren
    inCall (apply n f arguments)
  | _ + 1, .class c, _, paren => do
    fail (.calledClass ((← get).store.className c)) paren
  | _ + 1, other, _, paren => do
    fail (.notCallable ((← get).store.display other)) paren

/-- Runs the body of a function in a new frame in which the parameters are bound. -/
def apply : Nat → Closure → List Value → Run Value
  | 0, _, _ => throw .exhausted
  | n + 1, f, arguments => do
    let frame ← newFrame f.frame
    modifyStore fun s => s.defineAll frame f.decl.params arguments
    match ← inFrame frame (executeAll n f.decl.body) with
    | .normal => return .nil
    | .return value => return value

/-- Executes a statement. -/
def execute : Nat → Stmt → Run Flow
  | 0, _ => throw .exhausted
  | n + 1, .expression value _ => do
    let _ ← evaluate n value
    return .normal
  | n + 1, .print value span => do
    let v ← evaluate n value
    print ((← get).store.display v) span
    return .normal
  | _ + 1, .var name none _ => do
    define name .nil
    return .normal
  | n + 1, .var name (some initializer) _ => do
    let v ← evaluate n initializer
    define name v
    return .normal
  | n + 1, .block body _ => do
    let frame ← newFrame (← get).current
    inFrame frame (executeAll n body)
  | n + 1, .ifElse condition thenBranch elseBranch _ => do
    let v ← evaluate n condition
    if v.isTruthy then execute n thenBranch
    else
      match elseBranch with
      | none => return .normal
      | some branch => execute n branch
  | n + 1, .while condition body _ => loop n condition body
  | _ + 1, .function decl _ => do
    define decl.name (.function ⟨decl, (← get).current⟩)
    return .normal
  | _ + 1, .class name methods _ => do
    defineClass name methods
    return .normal
  | _ + 1, .return none _ => return .return .nil
  | n + 1, .return (some value) _ => do
    let v ← evaluate n value
    return .return v

/-- Executes statements in order up to the first return. -/
def executeAll : Nat → List Stmt → Run Flow
  | 0, _ => throw .exhausted
  | _ + 1, [] => return .normal
  | n + 1, s :: ss => do
    match ← execute n s with
    | .normal => executeAll n ss
    | .return value => return .return value

/-- Executes a statement as long as a condition holds, up to the first return. -/
def loop : Nat → Expr → Stmt → Run Flow
  | 0, _, _ => throw .exhausted
  | n + 1, condition, body => do
    let v ← evaluate n condition
    if v.isTruthy then
      match ← execute n body with
      | .normal => loop n condition body
      | .return value => return .return value
    else return .normal
end

/-- Executes the statements of a program in order. -/
def statements (budget : Nat) : List Stmt → Run Unit
  | [] => return
  | s :: ss => do
    let _ ← execute budget s
    statements budget ss

/-- Runs a program.  Its distances join those of the programs before it. -/
def program (budget : Nat) (p : Program) (locals : Locals) : Run Unit := do
  modify fun m => { m with locals := m.locals.insertMany locals.toList }
  statements budget p.statements

end Run

end Lox
