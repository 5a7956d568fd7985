import Lox.Proofs.Syntax.Cursor

/-!
# Rules of the grammar as plans

What a rule does by itself, and which rules it begins, is laid down in its reading: a reading
answers, or gives up, or makes a move and goes on, or begins a rule and goes on with the answer
of that one.

**One unit of budget.** A rule with budget `n + 1` does what its reading says, and the rules that
it begins have budget `n` (`Rule.run_succ`).  What holds of every move, and is kept by readings,
therefore holds of every rule.

**Moves.** Moves look at one token or step over it, and never give up.  There are two ways to
look back: outside of errors the first token counts as the one before itself, and while a
boundary is sought it does not.
-/

namespace Lox

namespace Parse

/-! ## Moves -/

/-- What a rule does to the tokens by itself. -/
inductive Move where
  /-- Looks at the token at the cursor. -/
  | look
  /-- Looks at the token before the cursor, or at the first one. -/
  | before
  /-- Looks at the token before the cursor, while a boundary is sought. -/
  | lookBack
  /-- Counts the tokens after the cursor. -/
  | remaining
  /-- Moves past the token at the cursor. -/
  | advance
  /-- Notes an error. -/
  | note (error : CompileError)
  /-- Makes a node. -/
  | freshNode (span : Span)
  /-- Takes a number for a function. -/
  | freshFunction

namespace Move

/-- What a move answers. -/
@[reducible] def Answer : Move → Type
  | look => Token
  | before => Token
  | lookBack => Token
  | remaining => Nat
  | advance => Unit
  | note _ => Unit
  | freshNode _ => Node
  | freshFunction => Nat

/-- The answer of a move. -/
def answer (p : Parser) : (m : Move) → m.Answer
  | look => p.current
  | before => p.previous
  | lookBack => p.previous
  | remaining => p.later.length
  | advance => ()
  | note _ => ()
  | freshNode span => ⟨p.supply.node, span⟩
  | freshFunction => p.supply.function

/-- The state after a move. -/
def after (p : Parser) : Move → Parser
  | advance => p.advance
  | note error => { p with errors := p.errors.push error }
  | freshNode _ => { p with supply.node := p.supply.node + 1 }
  | freshFunction => { p with supply.function := p.supply.function + 1 }
  | look | before | lookBack | remaining => p

/-- Makes a move. -/
def run (m : Move) : Parse m.Answer := fun p => .ok (m.answer p) (m.after p)

end Move

/-! ## Rules -/

/-- The rules of the grammar. -/
inductive Rule where
  | properties (object : Expr)
  | parameterNames (count : Nat)
  | expression
  | binary (level : Level)
  | operand (level : Level)
  | binaryTail (level : Level) (left : Expr)
  | unary
  | call
  | callTail (callee : Expr)
  | instantiation
  | arguments
  | argumentValues (count : Nat)
  | primary
  | declaration
  | classDeclaration
  | methods
  | functionDeclaration
  | function (role : FunctionRole)
  | blockBody
  | blockItems
  | statement
  | block
  | ifStatement
  | whileStatement
  | forStatement
  | statements

namespace Rule

/-- What a rule reads. -/
@[reducible] def Answer : Rule → Type
  | properties _ => Expr
  | parameterNames _ => List String
  | expression => Expr
  | binary _ => Expr
  | operand _ => Expr
  | binaryTail .. => Expr
  | unary => Expr
  | call => Expr
  | callTail _ => Expr
  | instantiation => Expr
  | arguments => List Expr
  | argumentValues _ => List Expr
  | primary => Expr
  | declaration => Stmt
  | classDeclaration => Stmt
  | methods => List FunctionDecl
  | functionDeclaration => Stmt
  | function _ => FunctionDecl
  | blockBody => List Stmt
  | blockItems => List Stmt
  | statement => Stmt
  | block => Stmt
  | ifStatement => Stmt
  | whileStatement => Stmt
  | forStatement => Stmt
  | statements => List Stmt

/-- Reads by a rule. -/
def run (n : Nat) : (r : Rule) → Parse r.Answer
  | properties object => Parse.properties n object
  | parameterNames count => Parse.parameterNames n count
  | expression => Parse.expression n
  | binary level => Parse.binary n level
  | operand level => Parse.operand n level
  | binaryTail level left => Parse.binaryTail n level left
  | unary => Parse.unary n
  | call => Parse.call n
  | callTail callee => Parse.callTail n callee
  | instantiation => Parse.instantiation n
  | arguments => Parse.arguments n
  | argumentValues count => Parse.argumentValues n count
  | primary => Parse.primary n
  | declaration => Parse.declaration n
  | classDeclaration => Parse.classDeclaration n
  | methods => Parse.methods n
  | functionDeclaration => Parse.functionDeclaration n
  | function role => Parse.function n role
  | blockBody => Parse.blockBody n
  | blockItems => Parse.blockItems n
  | statement => Parse.statement n
  | block => Parse.block n
  | ifStatement => Parse.ifStatement n
  | whileStatement => Parse.whileStatement n
  | forStatement => Parse.forStatement n
  | statements => Parse.statements n

end Rule

/-! ## Readings -/

/-- What a rule does and begins, in order, up to its answer. -/
inductive Reading (α : Type) where
  /-- Answers. -/
  | answer (a : α)
  /-- Gives up with a fault at the token at the cursor. -/
  | fail (fault : SyntaxFault)
  /-- Makes a move and goes on. -/
  | move (m : Move) (next : m.Answer → Reading α)
  /-- Begins a rule and goes on, unless it gives up. -/
  | begin (r : Rule) (next : r.Answer → Reading α)
  /-- Begins a rule and goes on; if it gives up, the error is the answer. -/
  | attempt (r : Rule) (next : Except CompileError r.Answer → Reading α)

namespace Reading

/-- Carries out a reading; the rules that it begins have budget `n`. -/
def run {α : Type} (n : Nat) : Reading α → Parse α
  | answer a => pure a
  | fail fault => Parse.fail fault
  | move m next => do (next (← m.run)).run n
  | begin r next => do (next (← r.run n)).run n
  | attempt r next => do (next (← Parse.attempt (r.run n))).run n

/-- One reading after another. -/
def bind {α β : Type} (f : α → Reading β) : Reading α → Reading β
  | answer a => f a
  | fail fault => fail fault
  | move m next => move m fun a => (next a).bind f
  | begin r next => begin r fun a => (next a).bind f
  | attempt r next => attempt r fun a => (next a).bind f

instance : Monad Reading where
  pure := answer
  bind x f := x.bind f

variable {α β : Type} {n : Nat}

@[simp] theorem run_pure (a : α) : (pure a : Reading α).run n = pure a := rfl

@[simp] theorem run_bind (x : Reading α) (f : α → Reading β) :
    (x >>= f).run n = x.run n >>= fun a => (f a).run n := by
  show (x.bind f).run n = _
  induction x with
  | answer a => rfl
  | fail fault => rfl
  | move m next ih | begin r next ih | attempt r next ih =>
    simp only [bind, run, ih, bind_assoc]

@[simp] theorem run_ite (c : Prop) [Decidable c] (x y : Reading α) :
    (if c then x else y).run n = if c then x.run n else y.run n := by
  split <;> rfl

@[simp] theorem run_map (f : α → β) (x : Reading α) : (f <$> x).run n = f <$> x.run n := by
  show (x >>= fun a => pure (f a)).run n = _
  rw [run_bind]
  rfl

/-- Looks at the token at the cursor. -/
def look : Reading Token := move .look answer

/-- Whether the cursor stands at an end token. -/
def atEnd : Reading Bool := move .look fun t => answer (t.kind = .eof)

/-- Kind of the token at the cursor. -/
def peek : Reading Token.Kind := move .look fun t => answer t.kind

/-- Place of the token at the cursor. -/
def here : Reading Span := move .look fun t => answer t.span

/-- Place of the token before the cursor. -/
def before : Reading Span := move .before fun t => answer t.span

/-- The stretch from the start of `span` to the end of the last token read. -/
def spanFrom (span : Span) : Reading Span := move .before fun t => answer (span.through t.span)

/-- Moves past the token at the cursor. -/
def advance : Reading Unit := move .advance answer

/-- Notes an error and goes on. -/
def note (error : CompileError) : Reading Unit := move (.note error) answer

/-- A node with a fresh number. -/
def freshNode (span : Span) : Reading Node := move (.freshNode span) answer

/-- A fresh number for a function declaration. -/
def freshFunction : Reading Nat := move .freshFunction answer

/-- Reads by a rule. -/
def rule (r : Rule) : Reading r.Answer := begin r answer

/-- Reads by a rule; if it gives up, the error becomes the answer. -/
def attempted (r : Rule) : Reading (Except CompileError r.Answer) := attempt r answer

/-- Moves past a token of the given kind, if there is one. -/
def accept (kind : Token.Kind) : Reading Bool := do
  if (← peek) = kind then
    advance
    return true
  else return false

/-- Moves past a token of the given kind, which must be there. -/
def expect (kind : Token.Kind) (missing : Missing) : Reading Unit := do
  if (← peek) = kind then advance else fail (.expected missing)

/-- Reads an identifier, which must be there. -/
def expectName (missing : Missing) : Reading String := do
  if (← peek) = .identifier then
    let token ← look
    advance
    return token.lexeme
  else fail (.expected missing)

/-- Moves on to just past a semicolon, to a boundary or to the end. -/
def seekBoundary : Nat → Reading Unit
  | 0 => return
  | k + 1 => do
    let token ← look
    if token.kind = .eof then return
    else
      let last ← move .lookBack answer
      if last.kind = .semicolon || isBoundary token.kind then return
      else
        advance
        seekBoundary k

/-- Skips the token at the cursor and then the rest of a statement. -/
def synchronize : Reading Unit := do
  advance
  seekBoundary (← move .remaining answer)

/-! ### What they do -/

@[simp] theorem run_fail (fault : SyntaxFault) :
    (fail fault : Reading α).run n = Parse.fail fault := rfl

@[simp] theorem run_look : look.run n = do return (← get).current := rfl

@[simp] theorem run_atEnd : atEnd.run n = do return (← get).atEnd := rfl

@[simp] theorem run_peek : peek.run n = Parse.peek := rfl

@[simp] theorem run_here : here.run n = Parse.here := rfl

@[simp] theorem run_before : before.run n = Parse.before := rfl

@[simp] theorem run_spanFrom (span : Span) : (spanFrom span).run n = Parse.spanFrom span := rfl

@[simp] theorem run_advance : advance.run n = Parse.advance := rfl

@[simp] theorem run_note (error : CompileError) : (note error).run n = Parse.note error := rfl

@[simp] theorem run_freshNode (span : Span) :
    (freshNode span).run n = Parse.freshNode span := rfl

@[simp] theorem run_freshFunction : freshFunction.run n = Parse.freshFunction := rfl

@[simp] theorem run_rule (r : Rule) : (rule r).run n = r.run n := bind_pure _

@[simp] theorem run_attempted (r : Rule) : (attempted r).run n = Parse.attempt (r.run n) :=
  bind_pure _

@[simp] theorem run_accept (kind : Token.Kind) : (accept kind).run n = Parse.accept kind := by
  simp [accept, Parse.accept]

@[simp] theorem run_expect (kind : Token.Kind) (missing : Missing) :
    (expect kind missing).run n = Parse.expect kind missing := by
  simp [expect, Parse.expect]

@[simp] theorem run_expectName (missing : Missing) :
    (expectName missing).run n = Parse.expectName missing := by
  simp [expectName, Parse.expectName]

theorem run_seekBoundary (k : Nat) : (seekBoundary k).run n = Parse.seekBoundary k := by
  induction k with
  | zero => rfl
  | succ k ih =>
    have hgo : (advance >>= fun _ => seekBoundary k).run n
        = Parse.advance >>= fun _ => Parse.seekBoundary k := by
      rw [run_bind, run_advance, ih]
    funext p
    -- both sides look at the same two tokens, the reading at the second one only if needed
    show (if p.kind = .eof then pure () else move .lookBack fun last =>
        if last.kind = .semicolon || isBoundary p.kind then pure ()
        else advance >>= fun _ => seekBoundary k : Reading Unit).run n p
      = (if p.atEnd || p.previous.kind = .semicolon || isBoundary p.kind then pure ()
        else Parse.advance >>= fun _ => Parse.seekBoundary k : Parse Unit) p
    by_cases hend : p.kind = .eof
    · simp [Parser.atEnd, hend]
    · rw [if_neg hend]
      show (if p.previous.kind = .semicolon || isBoundary p.kind then pure ()
        else advance >>= fun _ => seekBoundary k : Reading Unit).run n p = _
      rw [run_ite, hgo]
      simp [Parser.atEnd, hend]

@[simp] theorem run_synchronize : synchronize.run n = Parse.synchronize := by
  simp only [synchronize, Parse.synchronize, run_bind, run_advance, run_seekBoundary]
  rfl

/-! ## Readings of rules -/

/-- Reads a property name after a point. -/
def property (object : Expr) : Reading Expr := do
  let name ← expectName .propertyName
  let nameSpan ← before
  let node ← freshNode (object.span.through nameSpan)
  return .get node object name nameSpan

/-- Reads parameters up to the closing parenthesis. -/
def parameters : Reading (List String) := do
  let names ← if (← peek) = .rightParen then pure [] else rule (.parameterNames 0)
  expect .rightParen .parametersEnd
  return names

/-- Makes an assignment to what was read before the equals sign, or notes that it cannot be
assigned to. -/
def assignTo (target value : Expr) (equals : Token) : Reading Expr :=
  let span := target.span.through value.span
  match target with
  | .variable _ name => do return .assign (← freshNode span) name value
  | .get _ object name nameSpan => do return .set (← freshNode span) object name nameSpan value
  | other => do
    note (.parse .badAssignmentTarget equals)
    return other

/-- Reads the value of a statement up to the semicolon after it. -/
def expressionStatement : Reading Stmt := do
  let value ← rule .expression
  expect .semicolon .expressionEnd
  return .expression value (value.span.through (← before))

/-- Reads a variable declaration. -/
def varDeclaration : Reading Stmt := do
  let start ← here
  advance
  let name ← expectName .variableName
  let initializer ← if ← accept .equal then some <$> rule .expression else pure none
  expect .semicolon .declarationEnd
  return .var name initializer (← spanFrom start)

/-- Reads a print statement. -/
def printStatement : Reading Stmt := do
  let start ← here
  advance
  let value ← rule .expression
  expect .semicolon .printEnd
  return .print value (← spanFrom start)

/-- Reads a return statement. -/
def returnStatement : Reading Stmt := do
  let start ← here
  advance
  let value ← if (← peek) = .semicolon then pure none else some <$> rule .expression
  expect .semicolon .returnEnd
  return .return value (← spanFrom start)

/-- Reads the part of a `for` statement before its first semicolon, with it. -/
def forInitializer : Reading (Option Stmt) := do
  if ← accept .semicolon then return none
  else if (← peek) = .var then some <$> varDeclaration
  else some <$> expressionStatement

/-- Reads the condition of a `for` statement; a missing one is always true. -/
def forCondition : Reading Expr := do
  if (← peek) = .semicolon then return .literal (← freshNode (← here)) (.bool true)
  else rule .expression

/-- What a rule with budget does. -/
def ofRule : (r : Rule) → Reading r.Answer
  | .properties object => do
    if ← accept .dot then
      let next ← property object
      rule (.properties next)
    else return object
  | .parameterNames count => do
    if maxArguments ≤ count then .fail .tooManyParameters
    else
      let name ← expectName .parameterName
      if ← accept .comma then return name :: (← rule (.parameterNames (count + 1)))
      else return [name]
  | .expression => do
    let target ← rule (.binary .or)
    if (← peek) = .equal then
      let equals ← look
      advance
      let value ← rule .expression
      assignTo target value equals
    else return target
  | .binary level => do
    let left ← rule (.operand level)
    rule (.binaryTail level left)
  | .operand level =>
    match level.next? with
    | some tighter => rule (.binary tighter)
    | none => rule .unary
  | .binaryTail level left => do
    match level.operator? (← peek) with
    | none => return left
    | some op =>
      advance
      let opSpan ← before
      let right ← rule (.operand level)
      let node ← freshNode (left.span.through right.span)
      rule (.binaryTail level (op.apply node left right opSpan))
  | .unary => do
    match UnaryOp.ofKind? (← peek) with
    | none => rule .call
    | some op =>
      let start ← here
      advance
      let operand ← rule .unary
      return .unary (← freshNode (start.through operand.span)) op operand
  | .call => do
    let callee ← if (← peek) = .new then rule .instantiation else rule .primary
    rule (.callTail callee)
  | .callTail callee => do
    if ← accept .leftParen then
      let arguments ← rule .arguments
      let paren ← before
      let node ← freshNode (callee.span.through paren)
      rule (.callTail (.call node callee arguments paren))
    else if ← accept .dot then
      let next ← property callee
      rule (.callTail next)
    else return callee
  | .instantiation => do
    let start ← here
    advance
    let head ← rule .primary
    let callee ← rule (.properties head)
    let arguments ← if ← accept .leftParen then rule .arguments else pure []
    let paren ← before
    return .new (← freshNode (start.through paren)) callee arguments paren
  | .arguments => do
    let values ← if (← peek) = .rightParen then pure [] else rule (.argumentValues 0)
    expect .rightParen .argumentsEnd
    return values
  | .argumentValues count => do
    if maxArguments ≤ count then .fail .tooManyArguments
    else
      let value ← rule .expression
      if ← accept .comma then return value :: (← rule (.argumentValues (count + 1)))
      else return [value]
  | .primary => do
    let token ← look
    match constant? token with
    | some (.ok value) =>
      advance
      return .literal (← freshNode token.span) value
    | some (.error fault) => .fail fault
    | none =>
      match token.kind with
      | .this =>
        advance
        return .this (← freshNode token.span)
      | .identifier =>
        advance
        return .variable (← freshNode token.span) token.lexeme
      | .leftParen =>
        advance
        let inner ← rule .expression
        expect .rightParen .groupEnd
        return .grouping (← freshNode (← spanFrom token.span)) inner
      | _ => .fail (.expected .expression)
  | .declaration => do
    match ← peek with
    | .class => rule .classDeclaration
    | .fun => rule .functionDeclaration
    | .var => varDeclaration
    | .let | .const => .fail .reservedWord
    | _ => rule .statement
  | .classDeclaration => do
    let start ← here
    advance
    let name ← expectName .className
    expect .leftBrace .classBodyStart
    let methods ← rule .methods
    expect .rightBrace .classBodyEnd
    return .class name methods (← spanFrom start)
  | .methods => do
    if (← atEnd) || (← peek) = .rightBrace then return []
    else
      let method ← rule (.function .method)
      return method :: (← rule .methods)
  | .functionDeclaration => do
    let start ← here
    advance
    let decl ← rule (.function .function)
    return .function decl (← spanFrom start)
  | .function role => do
    let start ← here
    let name ← expectName (.functionName role)
    expect .leftParen (.parametersStart role)
    let params ← parameters
    expect .leftBrace (.bodyStart role)
    let body ← rule .blockBody
    return .mk (← freshFunction) name params body (← spanFrom start)
  | .blockBody => do
    let body ← rule .blockItems
    expect .rightBrace .blockEnd
    return body
  | .blockItems => do
    if (← atEnd) || (← peek) = .rightBrace then return []
    else
      match ← attempted .declaration with
      | .ok stmt => return stmt :: (← rule .blockItems)
      | .error error =>
        note error
        if (← peek) ≠ .rightBrace then synchronize
        rule .blockItems
  | .statement => do
    match ← peek with
    | .print => printStatement
    | .return => returnStatement
    | .leftBrace => rule .block
    | .if => rule .ifStatement
    | .while => rule .whileStatement
    | .for => rule .forStatement
    | _ => expressionStatement
  | .block => do
    let start ← here
    advance
    let body ← rule .blockBody
    return .block body (← spanFrom start)
  | .ifStatement => do
    let start ← here
    advance
    expect .leftParen .ifStart
    let condition ← rule .expression
    expect .rightParen .ifConditionEnd
    let thenBranch ← rule .statement
    let elseBranch ← if ← accept .else then some <$> rule .statement else pure none
    return .ifElse condition thenBranch elseBranch (← spanFrom start)
  | .whileStatement => do
    let start ← here
    advance
    expect .leftParen .whileStart
    let condition ← rule .expression
    expect .rightParen .whileConditionEnd
    let body ← rule .statement
    return .while condition body (← spanFrom start)
  | .forStatement => do
    let start ← here
    advance
    expect .leftParen .forStart
    let initializer ← forInitializer
    let condition ← forCondition
    expect .semicolon .forConditionEnd
    let increment ←
      if (← peek) = .rightParen then pure none else some <$> rule .expression
    expect .rightParen .forClausesEnd
    let body ← rule .statement
    return .forLoop initializer condition increment body (← spanFrom start)
  | .statements => do
    if ← atEnd then return []
    else
      match ← attempted .declaration with
      | .ok stmt => return stmt :: (← rule .statements)
      | .error error =>
        note error
        synchronize
        rule .statements

/-! ### What they read -/

@[simp] theorem run_property (object : Expr) :
    (property object).run n = Parse.property object := by
  simp [property, Parse.property]

@[simp] theorem run_parameters : parameters.run n = Parse.parameters n := by
  simp [parameters, Parse.parameters, rule, run, Rule.run]

@[simp] theorem run_assignTo (target value : Expr) (equals : Token) :
    (assignTo target value equals).run n = Parse.assignTo target value equals := by
  cases target <;> simp [assignTo, Parse.assignTo]

@[simp] theorem run_expressionStatement :
    expressionStatement.run n = Parse.expressionStatement n := by
  simp [expressionStatement, Parse.expressionStatement, rule, run, Rule.run]

@[simp] theorem run_varDeclaration : varDeclaration.run n = Parse.varDeclaration n := by
  simp [varDeclaration, Parse.varDeclaration, rule, run, Rule.run]

@[simp] theorem run_printStatement : printStatement.run n = Parse.printStatement n := by
  simp [printStatement, Parse.printStatement, rule, run, Rule.run]

@[simp] theorem run_returnStatement : returnStatement.run n = Parse.returnStatement n := by
  simp [returnStatement, Parse.returnStatement, rule, run, Rule.run]

@[simp] theorem run_forInitializer : forInitializer.run n = Parse.forInitializer n := by
  simp [forInitializer, Parse.forInitializer]

@[simp] theorem run_forCondition : forCondition.run n = Parse.forCondition n := by
  simp [forCondition, Parse.forCondition, rule, run, Rule.run]

end Reading

/-- A rule without budget gives up. -/
theorem Rule.run_zero (r : Rule) :
    ∃ fault, ∀ p, r.run 0 p = .error (.parse fault p.current) p := by
  cases r with
  | parameterNames count =>
    refine ⟨.expected .parameterName, fun p => ?_⟩
    rw [Rule.run, Parse.parameterNames, fail_apply]
  | _ => exact ⟨.expected .expression, fun p => rfl⟩

open Reading in
/-- A rule with budget does what its reading says. -/
theorem Rule.run_succ (r : Rule) (n : Nat) : r.run (n + 1) = (Reading.ofRule r).run n := by
  cases r with
  | properties object => simp [ofRule, Rule.run, Parse.properties, rule, Reading.run]
  | parameterNames count => simp [ofRule, Rule.run, Parse.parameterNames, rule, Reading.run]
  | expression => simp [ofRule, Rule.run, Parse.expression, rule, Reading.run]
  | binary level => simp [ofRule, Rule.run, Parse.binary, rule, Reading.run]
  | operand level =>
    cases level <;> simp [ofRule, Rule.run, Parse.operand, rule, Reading.run, Level.next?]
  | binaryTail level left =>
    simp only [ofRule, Rule.run, Parse.binaryTail, run_bind, run_peek]
    refine bind_congr fun kind => ?_
    cases level.operator? kind with
    | none => simp
    | some op => simp [rule, Reading.run, Rule.run]
  | unary =>
    simp only [ofRule, Rule.run, Parse.unary, run_bind, run_peek]
    refine bind_congr fun kind => ?_
    cases UnaryOp.ofKind? kind with
    | none => simp [rule, Reading.run, Rule.run]
    | some op => simp [rule, Reading.run, Rule.run]
  | call => simp [ofRule, Rule.run, Parse.call, rule, Reading.run]
  | callTail callee => simp [ofRule, Rule.run, Parse.callTail, rule, Reading.run]
  | instantiation => simp [ofRule, Rule.run, Parse.instantiation, rule, Reading.run]
  | arguments => simp [ofRule, Rule.run, Parse.arguments, rule, Reading.run]
  | argumentValues count => simp [ofRule, Rule.run, Parse.argumentValues, rule, Reading.run]
  | primary =>
    simp only [ofRule, Rule.run, Parse.primary, run_bind, run_look, bind_assoc, pure_bind]
    refine bind_congr fun p => ?_
    cases constant? p.current with
    | none => cases p.current.kind <;> simp [rule, Reading.run, Rule.run]
    | some value =>
      cases value with
      | ok value => simp
      | error fault => simp
  | declaration =>
    simp only [ofRule, Rule.run, Parse.declaration, run_bind, run_peek]
    refine bind_congr fun kind => ?_
    cases kind <;> simp [rule, Reading.run, Rule.run]
  | classDeclaration => simp [ofRule, Rule.run, Parse.classDeclaration, rule, Reading.run]
  | methods => simp [ofRule, Rule.run, Parse.methods, rule, Reading.run]
  | functionDeclaration => simp [ofRule, Rule.run, Parse.functionDeclaration, rule, Reading.run]
  | function role => simp [ofRule, Rule.run, Parse.function, rule, Reading.run]
  | blockBody => simp [ofRule, Rule.run, Parse.blockBody, rule, Reading.run]
  | blockItems =>
    simp only [ofRule, Rule.run, Parse.blockItems, run_bind, run_atEnd, run_peek, run_ite,
      bind_assoc, pure_bind]
    refine bind_congr fun p => bind_congr fun kind => ?_
    split
    · rfl
    · rw [show (attempted .declaration).run n = Parse.attempt (Parse.declaration n) from
        run_attempted _]
      refine bind_congr fun answer => ?_
      cases answer <;> simp [rule, Reading.run, Rule.run]
  | statement =>
    simp only [ofRule, Rule.run, Parse.statement, run_bind, run_peek]
    refine bind_congr fun kind => ?_
    cases kind <;> simp [rule, Reading.run, Rule.run]
  | block => simp [ofRule, Rule.run, Parse.block, rule, Reading.run]
  | ifStatement => simp [ofRule, Rule.run, Parse.ifStatement, rule, Reading.run]
  | whileStatement => simp [ofRule, Rule.run, Parse.whileStatement, rule, Reading.run]
  | forStatement => simp [ofRule, Rule.run, Parse.forStatement, rule, Reading.run]
  | statements =>
    simp only [ofRule, Rule.run, Parse.statements, run_bind, run_atEnd, run_ite, bind_assoc,
      pure_bind]
    refine bind_congr fun p => ?_
    split
    · rfl
    · rw [show (attempted .declaration).run n = Parse.attempt (Parse.declaration n) from
        run_attempted _]
      refine bind_congr fun answer => ?_
      cases answer <;> simp [rule, Reading.run, Rule.run]

end Parse

end Lox
