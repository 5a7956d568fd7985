import Std.Data.TreeMap
import Lox.Bindings
import Lox.CompileError
import Lox.Syntax

/-!
# Scopes of names

Blocks, functions and classes open scopes.  For every occurrence of a name, and of
the receiver, `Program.resolve` finds how many scopes lie between the occurrence
and the innermost scope that has declared the name by then.  A name that no scope
has declared is global and has no distance.

**Order.** A variable counts as declared before its initializer, a function and a
class before their bodies, and a name may be declared again in its scope.
Everything is visited in the order of the text, except that the value of a property
write comes before its object.
-/

namespace Lox

/-- Distances of local names, by the number of the expression. -/
abbrev Locals := Std.TreeMap Nat Nat

/-- State of resolving. -/
structure Scoping where
  /-- The open scopes, innermost first.  A name is bound to whether its initializer
  has been left. -/
  scopes : List (Bindings Bool)
  /-- Distances found so far. -/
  locals : Locals
  /-- Errors found so far. -/
  errors : Array CompileError

/-- An action of resolving. -/
abbrev Resolve := StateM Scoping

/-- What encloses the code being resolved. -/
structure Enclosing where
  /-- A function or method. -/
  inFunction : Bool
  /-- A class. -/
  inClass : Bool
  deriving DecidableEq, Repr

/-- The surroundings of the statements of a program. -/
def Enclosing.program : Enclosing := ⟨false, false⟩

/-- Scopes between the innermost one and the first that has the name. -/
def scopeDistance? (name : String) : List (Bindings Bool) → Option Nat
  | [] => none
  | scope :: scopes =>
    if scope.contains name then some 0
    else (scopeDistance? name scopes).map (· + 1)

namespace Scoping

/-- Nothing declared or found yet. -/
def initial : Scoping := ⟨[], ∅, #[]⟩

/-- Binds a name in the innermost scope, if a scope is open. -/
def bind (s : Scoping) (name : String) (left : Bool) : Scoping :=
  match s.scopes with
  | [] => s
  | scope :: scopes => { s with scopes := scope.set name left :: scopes }

/-- The name is declared in the innermost scope and its initializer is not left. -/
def inInitializer (s : Scoping) (name : String) : Bool :=
  match s.scopes with
  | [] => false
  | scope :: _ => scope.get? name = some false

end Scoping

namespace Resolve

/-- Opens a scope. -/
def openScope : Resolve Unit :=
  modify fun s => { s with scopes := Bindings.empty :: s.scopes }

/-- Closes the innermost scope. -/
def closeScope : Resolve Unit :=
  modify fun s => { s with scopes := s.scopes.tail }

/-- Declares a name whose initializer follows. -/
def declare (name : String) : Resolve Unit := modify (·.bind name false)

/-- Declares a name that can be used from now on. -/
def define (name : String) : Resolve Unit := modify (·.bind name true)

/-- Declares names that can be used from now on. -/
def defineAll : List String → Resolve Unit
  | [] => return
  | name :: names => do
    define name
    defineAll names

/-- Notes the distance of an occurrence of a name, if the name is local. -/
def occurrence (id : Nat) (name : String) : Resolve Unit :=
  modify fun s =>
    match scopeDistance? name s.scopes with
    | none => s
    | some distance => { s with locals := s.locals.insert id distance }

/-- Notes an error. -/
def note (fault : ScopeFault) (span : Span) : Resolve Unit :=
  modify fun s => { s with errors := s.errors.push (.resolve fault span) }

/-- Notes an error if a name is used in its own initializer. -/
def checkInitializer (name : String) (span : Span) : Resolve Unit := do
  if (← get).inInitializer name then note (.ownInitializer name) span

end Resolve

open Resolve

mutual
/-- Resolves an expression. -/
def Expr.resolve (around : Enclosing) : Expr → Resolve Unit
  | .literal .. => return
  | .grouping _ inner => inner.resolve around
  | .unary _ _ operand => operand.resolve around
  | .binary _ _ left right _ => do
    left.resolve around
    right.resolve around
  | .logical _ _ left right => do
    left.resolve around
    right.resolve around
  | .variable node name => do
    checkInitializer name node.span
    occurrence node.id name
  | .assign node name value => do
    value.resolve around
    occurrence node.id name
  | .call _ callee arguments _ => do
    callee.resolve around
    Expr.resolveAll around arguments
  | .new _ callee arguments _ => do
    callee.resolve around
    Expr.resolveAll around arguments
  | .get _ object _ _ => object.resolve around
  | .set _ object _ _ value => do
    value.resolve around
    object.resolve around
  | .this node =>
    if around.inClass then occurrence node.id "this"
    else note .thisOutsideClass node.span

/-- Resolves expressions in order. -/
def Expr.resolveAll (around : Enclosing) : List Expr → Resolve Unit
  | [] => return
  | e :: es => do
    e.resolve around
    Expr.resolveAll around es
end

/-- Resolves an expression that may be missing. -/
def Expr.resolveOption (around : Enclosing) : Option Expr → Resolve Unit
  | none => return
  | some e => e.resolve around

mutual
/-- Resolves a statement. -/
def Stmt.resolve (around : Enclosing) : Stmt → Resolve Unit
  | .expression value _ => value.resolve around
  | .print value _ => value.resolve around
  | .var name initializer _ => do
    declare name
    Expr.resolveOption around initializer
    define name
  | .block body _ => do
    openScope
    Stmt.resolveAll around body
    closeScope
  | .ifElse condition thenBranch none _ => do
    condition.resolve around
    thenBranch.resolve around
  | .ifElse condition thenBranch (some elseBranch) _ => do
    condition.resolve around
    thenBranch.resolve around
    elseBranch.resolve around
  | .while condition body _ => do
    condition.resolve around
    body.resolve around
  | .function decl _ => do
    define decl.name
    decl.resolve around
  | .class name methods _ => do
    define name
    openScope
    define "this"
    FunctionDecl.resolveAll { around with inClass := true } methods
    closeScope
  | .return value span => do
    if !around.inFunction then note .returnOutsideFunction span
    Expr.resolveOption around value

/-- Resolves statements in order. -/
def Stmt.resolveAll (around : Enclosing) : List Stmt → Resolve Unit
  | [] => return
  | s :: ss => do
    s.resolve around
    Stmt.resolveAll around ss

/-- Resolves a function: parameters and body share a scope. -/
def FunctionDecl.resolve (around : Enclosing) : FunctionDecl → Resolve Unit
  | .mk _ _ params body _ => do
    openScope
    defineAll params
    Stmt.resolveAll { around with inFunction := true } body
    closeScope

/-- Resolves functions in order. -/
def FunctionDecl.resolveAll (around : Enclosing) : List FunctionDecl → Resolve Unit
  | [] => return
  | f :: fs => do
    f.resolve around
    FunctionDecl.resolveAll around fs
end

/-- The distances of all local names of a program, or all its errors of scope. -/
def Program.resolve (p : Program) : Except (List CompileError) Locals :=
  let s := ((Stmt.resolveAll .program p.statements).run .initial).2
  if s.errors.isEmpty then .ok s.locals else .error s.errors.toList

end Lox
