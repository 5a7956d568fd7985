import Lox.CompileError
import Lox.Syntax

/-!
# Reading a list of tokens

A `Parser` is the state of reading: the tokens before and at the cursor, the tokens
still to come, the numbers not yet given to expressions and functions, and the
errors noted so far.  The cursor stops at the first end token and never moves past
it.

**Actions.** An action of type `Parse α` either answers or gives up with one
error.  In both cases the state stays as it is at that moment: tokens that were
read, numbers that were used and errors that were noted are not taken back.
-/

namespace Lox

/-- Numbers that are not in use yet. -/
structure Supply where
  /-- Next number for an expression. -/
  node : Nat
  /-- Next number for a function declaration. -/
  function : Nat
  deriving DecidableEq, Repr

/-- The supply of which nothing is used. -/
def Supply.initial : Supply := ⟨0, 0⟩

/-- State of reading a list of tokens. -/
structure Parser where
  /-- Token before the cursor, or the first token. -/
  previous : Token
  /-- Token at the cursor. -/
  current : Token
  /-- Tokens after the cursor. -/
  later : List Token
  /-- Numbers not in use yet. -/
  supply : Supply
  /-- Errors noted so far. -/
  errors : Array CompileError

namespace Parser

/-- The state before the first token.  A missing token counts as the end. -/
def start (supply : Supply) : List Token → Parser
  | [] => ⟨Token.endAt Position.start, Token.endAt Position.start, [], supply, #[]⟩
  | first :: later => ⟨first, first, later, supply, #[]⟩

/-- Kind of the token at the cursor. -/
def kind (p : Parser) : Token.Kind := p.current.kind

/-- The cursor stands at an end token. -/
def atEnd (p : Parser) : Bool := p.kind = .eof

/-- Moves past the token at the cursor, unless it is an end token. -/
def advance (p : Parser) : Parser :=
  match p.later with
  | [] => p
  | next :: later =>
    if p.atEnd then p
    else { p with previous := p.current, current := next, later := later }

/-- The stretch from the start of `span` to the end of the token before the
cursor. -/
def spanFrom (p : Parser) (span : Span) : Span := span.through p.previous.span

end Parser

/-- An action of reading. -/
abbrev Parse (α : Type) := EStateM CompileError Parser α

namespace Parse

/-- Gives up with a fault at the token at the cursor. -/
def fail {α : Type} (fault : SyntaxFault) : Parse α := do
  throw (.parse fault (← get).current)

/-- Notes an error and goes on. -/
def note (error : CompileError) : Parse Unit :=
  modify fun p => { p with errors := p.errors.push error }

/-- Kind of the token at the cursor. -/
def peek : Parse Token.Kind := do
  return (← get).kind

/-- Place of the token at the cursor. -/
def here : Parse Span := do
  return (← get).current.span

/-- Place of the token before the cursor. -/
def before : Parse Span := do
  return (← get).previous.span

/-- The stretch from the start of `span` to the end of the last token read. -/
def spanFrom (span : Span) : Parse Span := do
  return (← get).spanFrom span

/-- Moves past the token at the cursor. -/
def advance : Parse Unit := modify Parser.advance

/-- Moves past a token of the given kind, if there is one. -/
def accept (kind : Token.Kind) : Parse Bool := do
  if (← peek) = kind then
    advance
    return true
  else return false

/-- Moves past a token of the given kind, which must be there. -/
def expect (kind : Token.Kind) (missing : Missing) : Parse Unit := do
  if (← peek) = kind then advance else fail (.expected missing)

/-- Reads an identifier, which must be there. -/
def expectName (missing : Missing) : Parse String := do
  if (← peek) = .identifier then
    let name := (← get).current.lexeme
    advance
    return name
  else fail (.expected missing)

/-- A node with a fresh number. -/
def freshNode (span : Span) : Parse Node :=
  modifyGet fun p =>
    (⟨p.supply.node, span⟩, { p with supply.node := p.supply.node + 1 })

/-- A fresh number for a function declaration. -/
def freshFunction : Parse Nat :=
  modifyGet fun p =>
    (p.supply.function, { p with supply.function := p.supply.function + 1 })

/-- Runs an action; if it gives up, the error becomes the answer. -/
def attempt {α : Type} (action : Parse α) : Parse (Except CompileError α) := fun p =>
  match action p with
  | .ok a p => .ok (.ok a) p
  | .error e p => .ok (.error e) p

/-- Kinds before which reading can go on after an error: they start a statement,
or close a block. -/
def isBoundary : Token.Kind → Bool
  | .class | .fun | .var | .for | .if | .while | .print | .return | .rightBrace => true
  | _ => false

/-- Moves on to just past a semicolon, to a boundary or to the end; the first
argument bounds the number of tokens. -/
def seekBoundary : Nat → Parse Unit
  | 0 => return
  | n + 1 => do
    let p ← get
    if p.atEnd || p.previous.kind = .semicolon || isBoundary p.kind then return
    else
      advance
      seekBoundary n

/-- Skips the token at the cursor and then the rest of a statement. -/
def synchronize : Parse Unit := do
  advance
  seekBoundary (← get).later.length

end Parse

end Lox
