import Lox.Syntax.Cursor

/-!
# Reading programs

The grammar is read by recursive descent, one action for each of its rules.
Expressions of two operands are read level by level, from the loosest level to the
tightest, and associate to the left; assignment is looser than all levels and
associates to the right.

**Loops.** A `for` statement has no tree of its own.  It is read as a `while`
statement whose body is followed by the increment, in a block with the initializer.

**Errors.** An error ends the statement it is found in; reading goes on at the next
boundary.  Only an assignment to something that cannot be assigned to is noted
without ending the statement.

**Budget.** Every action takes a budget that bounds how deep it may nest.  The
budget of a program grows with its number of tokens and is never used up.
-/

namespace Lox

/-- The most parameters that a function may have, and arguments that a call may
have. -/
def maxArguments : Nat := 255

/-- Levels of operators with two operands, loosest first. -/
inductive Level where
  | or | and | equality | comparison | term | factor
  deriving DecidableEq, Repr

/-- An operator with two operands. -/
inductive Operator where
  | logical (op : LogicalOp)
  | binary (op : BinaryOp)

namespace Level

/-- The next tighter level; none after the tightest one. -/
def next? : Level → Option Level
  | .or => some .and
  | .and => some .equality
  | .equality => some .comparison
  | .comparison => some .term
  | .term => some .factor
  | .factor => none

/-- The operator of a level that a kind of token stands for. -/
def operator? : Level → Token.Kind → Option Operator
  | .or, .or => some (.logical .or)
  | .and, .and => some (.logical .and)
  | .equality, .equalEqual => some (.binary .equal)
  | .equality, .bangEqual => some (.binary .notEqual)
  | .comparison, .greater => some (.binary .greater)
  | .comparison, .greaterEqual => some (.binary .greaterEqual)
  | .comparison, .less => some (.binary .less)
  | .comparison, .lessEqual => some (.binary .lessEqual)
  | .term, .plus => some (.binary .add)
  | .term, .minus => some (.binary .subtract)
  | .factor, .star => some (.binary .multiply)
  | .factor, .slash => some (.binary .divide)
  | _, _ => none

end Level

/-- The expression of an operator that stands at `opSpan`. -/
def Operator.apply (op : Operator) (node : Node) (left right : Expr) (opSpan : Span) :
    Expr :=
  match op with
  | .logical op => .logical node op left right
  | .binary op => .binary node op left right opSpan

/-- The operator that a kind of token stands for before its operand. -/
def UnaryOp.ofKind? : Token.Kind → Option UnaryOp
  | .bang => some .not
  | .minus => some .negate
  | _ => none

/-- The loop that a `for` statement stands for: the increment follows the body,
the initializer goes before the loop, each in a block. -/
def Stmt.forLoop (initializer : Option Stmt) (condition : Expr) (increment : Option Expr)
    (body : Stmt) (span : Span) : Stmt :=
  let round := match increment with
    | none => body
    | some value => .block [body, .expression value value.span] span
  let loop := .while condition round span
  match initializer with
  | none => loop
  | some first => .block [first, loop] span

namespace Parse

/-- The value of a token that is a written value, or the fault if it has none. -/
def constant? (token : Token) : Option (Except SyntaxFault Constant) :=
  match token.kind, token.literal with
  | .number, some (.integer n) => some (.ok (.number (Binary64.ofInt n)))
  | .number, some (.float x) => some (.ok (.number x))
  | .number, _ => some (.error .badNumber)
  | .float, some (.integer n) => some (.ok (.number (Binary64.ofInt n)))
  | .float, some (.float x) => some (.ok (.number x))
  | .float, _ => some (.error .badNumber)
  | .string, some (.text s) => some (.ok (.text s))
  | .string, _ => some (.error .badString)
  | .true, _ => some (.ok (.bool true))
  | .false, _ => some (.ok (.bool false))
  | .nil, _ => some (.ok .nil)
  | _, _ => none

/-- Reads a property name after a point. -/
def property (object : Expr) : Parse Expr := do
  let name ← expectName .propertyName
  let nameSpan ← before
  let node ← freshNode (object.span.through nameSpan)
  return .get node object name nameSpan

/-- Reads points and property names for as long as there are any. -/
def properties : Nat → Expr → Parse Expr
  | 0, _ => fail (.expected .expression)
  | n + 1, object => do
    if ← accept .dot then properties n (← property object)
    else return object

/-- Reads the names of parameters, of which `count` are read already. -/
def parameterNames : Nat → Nat → Parse (List String)
  | 0, _ => fail (.expected .parameterName)
  | n + 1, count => do
    if maxArguments ≤ count then fail .tooManyParameters
    else
      let name ← expectName .parameterName
      if ← accept .comma then return name :: (← parameterNames n (count + 1))
      else return [name]

/-- Reads parameters up to the closing parenthesis. -/
def parameters (n : Nat) : Parse (List String) := do
  let names ← if (← peek) = .rightParen then pure [] else parameterNames n 0
  expect .rightParen .parametersEnd
  return names

/-- Makes an assignment to what was read before the equals sign, or notes that it
cannot be assigned to. -/
def assignTo (target value : Expr) (equals : Token) : Parse Expr := do
  let span := target.span.through value.span
  match target with
  | .variable _ name => return .assign (← freshNode span) name value
  | .get _ object name nameSpan =>
    return .set (← freshNode span) object name nameSpan value
  | other =>
    note (.parse .badAssignmentTarget equals)
    return other

mutual
/-- Reads an expression. -/
def expression : Nat → Parse Expr
  | 0 => fail (.expected .expression)
  | n + 1 => do
    let target ← binary n .or
    if (← peek) = .equal then
      let equals := (← get).current
      advance
      let value ← expression n
      assignTo target value equals
    else return target

/-- Reads an expression of one level of operators. -/
def binary : Nat → Level → Parse Expr
  | 0, _ => fail (.expected .expression)
  | n + 1, level => do
    let left ← operand n level
    binaryTail n level left

/-- Reads an operand of one level: an expression of the next tighter level. -/
def operand : Nat → Level → Parse Expr
  | 0, _ => fail (.expected .expression)
  | n + 1, level =>
    match level.next? with
    | some tighter => binary n tighter
    | none => unary n

/-- Reads operators of one level and their right operands after a left operand. -/
def binaryTail : Nat → Level → Expr → Parse Expr
  | 0, _, _ => fail (.expected .expression)
  | n + 1, level, left => do
    match level.operator? (← peek) with
    | none => return left
    | some op =>
      advance
      let opSpan ← before
      let right ← operand n level
      let node ← freshNode (left.span.through right.span)
      binaryTail n level (op.apply node left right opSpan)

/-- Reads operators before an operand. -/
def unary : Nat → Parse Expr
  | 0 => fail (.expected .expression)
  | n + 1 => do
    match UnaryOp.ofKind? (← peek) with
    | none => call n
    | some op =>
      let start ← here
      advance
      let operand ← unary n
      return .unary (← freshNode (start.through operand.span)) op operand

/-- Reads an expression with the calls and property names after it. -/
def call : Nat → Parse Expr
  | 0 => fail (.expected .expression)
  | n + 1 => do
    let callee ← if (← peek) = .new then instantiation n else primary n
    callTail n callee

/-- Reads calls and property names after an expression. -/
def callTail : Nat → Expr → Parse Expr
  | 0, _ => fail (.expected .expression)
  | n + 1, callee => do
    if ← accept .leftParen then
      let arguments ← arguments n
      let paren ← before
      let node ← freshNode (callee.span.through paren)
      callTail n (.call node callee arguments paren)
    else if ← accept .dot then
      callTail n (← property callee)
    else return callee

/-- Reads the making of an instance: the property names and the first arguments
after the class belong to it, and the arguments may be left out. -/
def instantiation : Nat → Parse Expr
  | 0 => fail (.expected .expression)
  | n + 1 => do
    let start ← here
    advance
    let head ← primary n
    let callee ← properties n head
    let arguments ← if ← accept .leftParen then arguments n else pure []
    let paren ← before
    return .new (← freshNode (start.through paren)) callee arguments paren

/-- Reads arguments up to the closing parenthesis. -/
def arguments : Nat → Parse (List Expr)
  | 0 => fail (.expected .expression)
  | n + 1 => do
    let values ← if (← peek) = .rightParen then pure [] else argumentValues n 0
    expect .rightParen .argumentsEnd
    return values

/-- Reads the values of arguments, of which `count` are read already. -/
def argumentValues : Nat → Nat → Parse (List Expr)
  | 0, _ => fail (.expected .expression)
  | n + 1, count => do
    if maxArguments ≤ count then fail .tooManyArguments
    else
      let value ← expression n
      if ← accept .comma then return value :: (← argumentValues n (count + 1))
      else return [value]

/-- Reads a written value, a name, the receiver or an expression in parentheses. -/
def primary : Nat → Parse Expr
  | 0 => fail (.expected .expression)
  | n + 1 => do
    let token := (← get).current
    match constant? token with
    | some (.ok value) =>
      advance
      return .literal (← freshNode token.span) value
    | some (.error fault) => fail fault
    | none =>
      match token.kind with
      | .this =>
        advance
        return .this (← freshNode token.span)
      | .identifier =>
        advance
        return .variable (← freshNode token.span) token.lexeme
      | .leftParen =>
        advance
        let inner ← expression n
        expect .rightParen .groupEnd
        return .grouping (← freshNode (← spanFrom token.span)) inner
      | _ => fail (.expected .expression)
end

/-- Reads the value of a statement up to the semicolon after it. -/
def expressionStatement (n : Nat) : Parse Stmt := do
  let value ← expression n
  expect .semicolon .expressionEnd
  return .expression value (value.span.through (← before))

/-- Reads a variable declaration. -/
def varDeclaration (n : Nat) : Parse Stmt := do
  let start ← here
  advance
  let name ← expectName .variableName
  let initializer ← if ← accept .equal then some <$> expression n else pure none
  expect .semicolon .declarationEnd
  return .var name initializer (← spanFrom start)

/-- Reads a print statement. -/
def printStatement (n : Nat) : Parse Stmt := do
  let start ← here
  advance
  let value ← expression n
  expect .semicolon .printEnd
  return .print value (← spanFrom start)

/-- Reads a return statement. -/
def returnStatement (n : Nat) : Parse Stmt := do
  let start ← here
  advance
  let value ← if (← peek) = .semicolon then pure none else some <$> expression n
  expect .semicolon .returnEnd
  return .return value (← spanFrom start)

/-- Reads the part of a `for` statement before its first semicolon, with it. -/
def forInitializer (n : Nat) : Parse (Option Stmt) := do
  if ← accept .semicolon then return none
  else if (← peek) = .var then some <$> varDeclaration n
  else some <$> expressionStatement n

/-- Reads the condition of a `for` statement; a missing one is always true. -/
def forCondition (n : Nat) : Parse Expr := do
  if (← peek) = .semicolon then return .literal (← freshNode (← here)) (.bool true)
  else expression n

mutual
/-- Reads a declaration or statement. -/
def declaration : Nat → Parse Stmt
  | 0 => fail (.expected .expression)
  | n + 1 => do
    match ← peek with
    | .class => classDeclaration n
    | .fun => functionDeclaration n
    | .var => varDeclaration n
    | .let | .const => fail .reservedWord
    | _ => statement n

/-- Reads a class declaration. -/
def classDeclaration : Nat → Parse Stmt
  | 0 => fail (.expected .expression)
  | n + 1 => do
    let start ← here
    advance
    let name ← expectName .className
    expect .leftBrace .classBodyStart
    let methods ← methods n
    expect .rightBrace .classBodyEnd
    return .class name methods (← spanFrom start)

/-- Reads methods up to the closing brace of their class. -/
def methods : Nat → Parse (List FunctionDecl)
  | 0 => fail (.expected .expression)
  | n + 1 => do
    if (← get).atEnd || (← peek) = .rightBrace then return []
    else
      let method ← function n .method
      return method :: (← methods n)

/-- Reads a function declaration. -/
def functionDeclaration : Nat → Parse Stmt
  | 0 => fail (.expected .expression)
  | n + 1 => do
    let start ← here
    advance
    let decl ← function n .function
    return .function decl (← spanFrom start)

/-- Reads a function or method from its name on. -/
def function : Nat → FunctionRole → Parse FunctionDecl
  | 0, _ => fail (.expected .expression)
  | n + 1, role => do
    let start ← here
    let name ← expectName (.functionName role)
    expect .leftParen (.parametersStart role)
    let params ← parameters n
    expect .leftBrace (.bodyStart role)
    let body ← blockBody n
    return .mk (← freshFunction) name params body (← spanFrom start)

/-- Reads the statements of a block with its closing brace. -/
def blockBody : Nat → Parse (List Stmt)
  | 0 => fail (.expected .expression)
  | n + 1 => do
    let body ← blockItems n
    expect .rightBrace .blockEnd
    return body

/-- Reads the statements of a block up to its closing brace.  A statement with an
error is left out. -/
def blockItems : Nat → Parse (List Stmt)
  | 0 => fail (.expected .expression)
  | n + 1 => do
    if (← get).atEnd || (← peek) = .rightBrace then return []
    else
      match ← attempt (declaration n) with
      | .ok stmt => return stmt :: (← blockItems n)
      | .error error =>
        note error
        if (← peek) ≠ .rightBrace then synchronize
        blockItems n

/-- Reads a statement. -/
def statement : Nat → Parse Stmt
  | 0 => fail (.expected .expression)
  | n + 1 => do
    match ← peek with
    | .print => printStatement n
    | .return => returnStatement n
    | .leftBrace => block n
    | .if => ifStatement n
    | .while => whileStatement n
    | .for => forStatement n
    | _ => expressionStatement n

/-- Reads a block. -/
def block : Nat → Parse Stmt
  | 0 => fail (.expected .expression)
  | n + 1 => do
    let start ← here
    advance
    let body ← blockBody n
    return .block body (← spanFrom start)

/-- Reads an if statement; an else goes to the nearest one. -/
def ifStatement : Nat → Parse Stmt
  | 0 => fail (.expected .expression)
  | n + 1 => do
    let start ← here
    advance
    expect .leftParen .ifStart
    let condition ← expression n
    expect .rightParen .ifConditionEnd
    let thenBranch ← statement n
    let elseBranch ← if ← accept .else then some <$> statement n else pure none
    return .ifElse condition thenBranch elseBranch (← spanFrom start)

/-- Reads a while statement. -/
def whileStatement : Nat → Parse Stmt
  | 0 => fail (.expected .expression)
  | n + 1 => do
    let start ← here
    advance
    expect .leftParen .whileStart
    let condition ← expression n
    expect .rightParen .whileConditionEnd
    let body ← statement n
    return .while condition body (← spanFrom start)

/-- Reads a for statement. -/
def forStatement : Nat → Parse Stmt
  | 0 => fail (.expected .expression)
  | n + 1 => do
    let start ← here
    advance
    expect .leftParen .forStart
    let initializer ← forInitializer n
    let condition ← forCondition n
    expect .semicolon .forConditionEnd
    let increment ← if (← peek) = .rightParen then pure none else some <$> expression n
    expect .rightParen .forClausesEnd
    let body ← statement n
    return .forLoop initializer condition increment body (← spanFrom start)
end

/-- Reads statements to the end.  A statement with an error is left out. -/
def statements : Nat → Parse (List Stmt)
  | 0 => fail (.expected .expression)
  | n + 1 => do
    if (← get).atEnd then return []
    else
      match ← attempt (declaration n) with
      | .ok stmt => return stmt :: (← statements n)
      | .error error =>
        note error
        synchronize
        statements n

/-- A budget that is enough for a list of tokens: no rule nests more than twenty
deep before a token is read. -/
def budget (tokens : List Token) : Nat := 20 * (tokens.length + 1)

end Parse

/-- What reading a list of tokens gives: the statements without error, all errors,
and the numbers that are left. -/
structure Parsed where
  /-- The statements that were read without error. -/
  program : Program
  /-- All errors in the order in which they were noted. -/
  errors : List CompileError
  /-- Numbers not in use afterwards. -/
  supply : Supply

/-- Reads a list of tokens, going on after errors. -/
def Parsed.ofTokens (supply : Supply) (tokens : List Token) : Parsed :=
  match Parse.statements (Parse.budget tokens) (Parser.start supply tokens) with
  | .ok statements p => ⟨⟨statements⟩, p.errors.toList, p.supply⟩
  | .error error p => ⟨⟨[]⟩, p.errors.toList ++ [error], p.supply⟩

/-- The program of a list of tokens, or all its errors. -/
def Program.ofTokens (tokens : List Token) : Except (List CompileError) Program :=
  let parsed := Parsed.ofTokens .initial tokens
  if parsed.errors.isEmpty then .ok parsed.program else .error parsed.errors

end Lox
