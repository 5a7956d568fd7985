import Lox.Proofs.Scope.Occurrence

/-!
# Scoping, said by the text alone

What the scopes around a place of the text have declared before it, and whether the place is in
a function, in a class, or in the initializer of a local variable, can be read off the text,
without a state (`Context`).  The visits of a program are the places where this matters: the
variables, assignments, receivers and return statements, each with its context, in the order of
the text.  Only the value of a property write is visited before its object.

**Faults.** Each visit has at most one fault (`Visit.fault?`).

**Distances.** A name is declared by a scope some scopes out if no scope within that one has
declared it (`Context.Declares`).

**Occurrences.** The names are visited in the order of the occurrences, and none is left out
(`Program.lookups_visits`).
-/

namespace Lox

/-- What is around a place in the text. -/
structure Context where
  /-- The names that each scope around the place has declared before, innermost first.  The
  names of the program itself are in no scope. -/
  scopes : List (List String)
  /-- The local variable in whose initializer the place is. -/
  initialized : Option String
  /-- Functions and classes around the place. -/
  around : Enclosing

namespace Context

/-- The context of the statements of a program. -/
def program : Context := ⟨[], none, .program⟩

/-- The context behind a declaration of names, if a scope is there to hold them. -/
def declare (names : List String) (c : Context) : Context :=
  match c.scopes with
  | [] => c
  | inner :: outer => { c with scopes := (inner ++ names) :: outer }

/-- The context inside one more scope, which begins with some names. -/
def inside (names : List String) (around : Enclosing) (c : Context) : Context :=
  ⟨names :: c.scopes, c.initialized, around⟩

/-- The context of the statements of a block. -/
def block (c : Context) : Context := c.inside [] c.around

/-- The context of the body of a function: the parameters and the body share a scope. -/
def body (params : List String) (c : Context) : Context :=
  c.inside params { c.around with inFunction := true }

/-- The context of the methods of a class. -/
def methods (c : Context) : Context :=
  c.inside ["this"] { c.around with inClass := true }

/-- The context of the initializer of a variable, which counts as declared. -/
def initializer (name : String) (c : Context) : Context :=
  { c.declare [name] with initialized := if c.scopes = [] then none else some name }

/-- The innermost scope that has declared the name is so many scopes out. -/
def Declares (c : Context) (name : String) (distance : Nat) : Prop :=
  ∃ inner scope outer, c.scopes = inner ++ scope :: outer ∧ inner.length = distance ∧
    name ∈ scope ∧ ∀ other ∈ inner, name ∉ other

end Context

/-- What is looked at in a visit. -/
inductive Site where
  /-- A variable is read. -/
  | variable (node : Node) (name : String)
  /-- A variable is assigned to. -/
  | assign (node : Node) (name : String)
  /-- The receiver. -/
  | this (node : Node)
  /-- A return statement. -/
  | return (span : Span)

/-- A visit to a place in the text. -/
structure Visit where
  /-- What is there. -/
  site : Site
  /-- What is around it. -/
  context : Context

namespace Visit

/-- The number of the expression and the name that is looked up in it. -/
def lookup? (v : Visit) : Option (Nat × String) :=
  match v.site with
  | .variable node name => some (node.id, name)
  | .assign node name => some (node.id, name)
  | .this node => some (node.id, "this")
  | .return _ => none

/-- What is wrong there: a variable is read in its own initializer, a receiver is outside of
every class, or a return is outside of every function. -/
def fault? (v : Visit) : Option CompileError :=
  match v.site with
  | .variable node name =>
    if v.context.initialized = some name then some (.resolve (.ownInitializer name) node.span)
    else none
  | .assign .. => none
  | .this node =>
    if v.context.around.inClass then none else some (.resolve .thisOutsideClass node.span)
  | .return span =>
    if v.context.around.inFunction then none
    else some (.resolve .returnOutsideFunction span)

end Visit

/-! ## Visits -/

mutual
/-- The visits to an expression. -/
def Expr.visits (c : Context) : Expr → List Visit
  | .literal .. => []
  | .grouping _ inner => inner.visits c
  | .unary _ _ operand => operand.visits c
  | .binary _ _ left right _ => left.visits c ++ right.visits c
  | .logical _ _ left right => left.visits c ++ right.visits c
  | .variable node name => [⟨.variable node name, c⟩]
  | .assign node name value => value.visits c ++ [⟨.assign node name, c⟩]
  | .call _ callee arguments _ => callee.visits c ++ Expr.visitsAll c arguments
  | .new _ callee arguments _ => callee.visits c ++ Expr.visitsAll c arguments
  | .get _ object _ _ => object.visits c
  | .set _ object _ _ value => value.visits c ++ object.visits c
  | .this node => [⟨.this node, c⟩]

/-- The visits to expressions, in order. -/
def Expr.visitsAll (c : Context) : List Expr → List Visit
  | [] => []
  | e :: es => e.visits c ++ Expr.visitsAll c es
end

/-- The visits to an expression that may be missing. -/
def Expr.visitsOption (c : Context) : Option Expr → List Visit
  | none => []
  | some e => e.visits c

/-- The names that a statement declares in the scope that it is in. -/
def Stmt.declared : Stmt → List String
  | .var name _ _ => [name]
  | .function decl _ => [decl.name]
  | .class name _ _ => [name]
  | .ifElse _ thenBranch none _ => thenBranch.declared
  | .ifElse _ thenBranch (some elseBranch) _ => thenBranch.declared ++ elseBranch.declared
  | .while _ body _ => body.declared
  | .expression .. | .print .. | .block .. | .return .. => []

/-- The names that statements declare in the scope that they are in. -/
def Stmt.declaredAll : List Stmt → List String
  | [] => []
  | s :: ss => s.declared ++ Stmt.declaredAll ss

mutual
/-- The visits to a statement. -/
def Stmt.visits (c : Context) : Stmt → List Visit
  | .expression value _ => value.visits c
  | .print value _ => value.visits c
  | .var name initializer _ => Expr.visitsOption (c.initializer name) initializer
  | .block body _ => Stmt.visitsAll c.block body
  | .ifElse condition thenBranch none _ => condition.visits c ++ thenBranch.visits c
  | .ifElse condition thenBranch (some elseBranch) _ =>
    condition.visits c ++
      (thenBranch.visits c ++ elseBranch.visits (c.declare thenBranch.declared))
  | .while condition body _ => condition.visits c ++ body.visits c
  | .function decl _ => decl.visits (c.declare [decl.name])
  | .class name methods _ => FunctionDecl.visitsAll (c.declare [name]).methods methods
  | .return value span => ⟨.return span, c⟩ :: Expr.visitsOption c value

/-- The visits to statements, in order. -/
def Stmt.visitsAll (c : Context) : List Stmt → List Visit
  | [] => []
  | s :: ss => s.visits c ++ Stmt.visitsAll (c.declare s.declared) ss

/-- The visits to a function. -/
def FunctionDecl.visits (c : Context) : FunctionDecl → List Visit
  | .mk _ _ params body _ => Stmt.visitsAll (c.body params) body

/-- The visits to functions, in order. -/
def FunctionDecl.visitsAll (c : Context) : List FunctionDecl → List Visit
  | [] => []
  | f :: fs => f.visits c ++ FunctionDecl.visitsAll c fs
end

namespace Program

/-- The visits to a program. -/
def visits (p : Program) : List Visit := Stmt.visitsAll .program p.statements

/-- The faults of a program, in the order of the visits. -/
def faults (p : Program) : List CompileError := p.visits.filterMap Visit.fault?

end Program

/-! ## No occurrence of a name is left out -/

/-- The number of the expression and the name that is looked up in it. -/
def Occurrence.lookup? (o : Occurrence) : Option (Nat × String) := o.name?.map (o.id, ·)

/-- The names that are looked up in visits. -/
def lookups (vs : List Visit) : List (Nat × String) := vs.filterMap Visit.lookup?

theorem lookups_append (vs vs' : List Visit) : lookups (vs ++ vs') = lookups vs ++ lookups vs' :=
  List.filterMap_append

mutual
theorem Expr.lookups_visits (c : Context) (place : Place) : ∀ e : Expr,
    lookups (e.visits c) = (e.occurrences place).filterMap Occurrence.lookup?
  | .literal .. | .variable .. | .this .. => rfl
  | .grouping _ inner | .unary _ _ inner | .get _ inner _ _ => by
    simp [Expr.visits, Expr.occurrences, Expr.lookups_visits c place inner, Occurrence.lookup?,
      Occurrence.name?]
  | .assign _ _ value => by
    simp only [Expr.visits, Expr.occurrences, lookups_append, Expr.lookups_visits c place value,
      List.filterMap_append]
    rfl
  | .binary _ _ left right _ | .logical _ _ left right | .set _ right _ _ left => by
    simp [Expr.visits, Expr.occurrences, lookups_append, Expr.lookups_visits c place left,
      Expr.lookups_visits c place right, Occurrence.lookup?, Occurrence.name?]
  | .call _ callee arguments _ | .new _ callee arguments _ => by
    simp [Expr.visits, Expr.occurrences, lookups_append, Expr.lookups_visits c place callee,
      Expr.lookups_visitsAll c place arguments, Occurrence.lookup?, Occurrence.name?]

theorem Expr.lookups_visitsAll (c : Context) (place : Place) : ∀ es : List Expr,
    lookups (Expr.visitsAll c es) = (Expr.occurrencesAll place es).filterMap Occurrence.lookup?
  | [] => rfl
  | e :: es => by
    rw [Expr.visitsAll, Expr.occurrencesAll, lookups_append, List.filterMap_append,
      Expr.lookups_visits c place e, Expr.lookups_visitsAll c place es]
end

theorem Expr.lookups_visitsOption (c : Context) (place : Place) (e : Option Expr) :
    lookups (Expr.visitsOption c e) =
      (Expr.occurrencesOption place e).filterMap Occurrence.lookup? := by
  cases e with
  | none => rfl
  | some e => exact e.lookups_visits c place

mutual
theorem Stmt.lookups_visits (c : Context) (place : Place) : ∀ s : Stmt,
    lookups (s.visits c) = (s.occurrences place).filterMap Occurrence.lookup?
  | .expression value _ | .print value _ => by
    rw [Stmt.visits, Stmt.occurrences, value.lookups_visits c place]
  | .var name initializer _ => by
    rw [Stmt.visits, Stmt.occurrences, Expr.lookups_visitsOption _ (place.bind name false)]
  | .block body _ => by
    rw [Stmt.visits, Stmt.occurrences, Stmt.lookups_visitsAll _ _ body]
  | .ifElse condition thenBranch none _ => by
    rw [Stmt.visits, Stmt.occurrences, lookups_append, List.filterMap_append,
      condition.lookups_visits c place, Stmt.lookups_visits c place thenBranch]
  | .ifElse condition thenBranch (some elseBranch) _ => by
    rw [Stmt.visits, Stmt.occurrences, lookups_append, lookups_append, List.filterMap_append,
      List.filterMap_append, condition.lookups_visits c place,
      Stmt.lookups_visits c place thenBranch, Stmt.lookups_visits _ _ elseBranch,
      List.append_assoc]
  | .while condition body _ => by
    rw [Stmt.visits, Stmt.occurrences, lookups_append, List.filterMap_append,
      condition.lookups_visits c place, Stmt.lookups_visits c place body]
  | .function decl _ => by
    rw [Stmt.visits, Stmt.occurrences, FunctionDecl.lookups_visits _ _ decl]
  | .class name methods _ => by
    rw [Stmt.visits, Stmt.occurrences, FunctionDecl.lookups_visitsAll _ _ methods]
  | .return value _ => by
    rw [Stmt.visits, Stmt.occurrences, ← Expr.lookups_visitsOption c place value]
    rfl

theorem Stmt.lookups_visitsAll (c : Context) (place : Place) : ∀ ss : List Stmt,
    lookups (Stmt.visitsAll c ss) = (Stmt.occurrencesAll place ss).filterMap Occurrence.lookup?
  | [] => rfl
  | s :: ss => by
    rw [Stmt.visitsAll, Stmt.occurrencesAll, lookups_append, List.filterMap_append,
      Stmt.lookups_visits c place s, Stmt.lookups_visitsAll _ _ ss]

theorem FunctionDecl.lookups_visits (c : Context) (place : Place) : ∀ f : FunctionDecl,
    lookups (f.visits c) = (f.occurrences place).filterMap Occurrence.lookup?
  | .mk number name params body span => by
    rw [FunctionDecl.visits, FunctionDecl.occurrences, Stmt.lookups_visitsAll _ _ body]

theorem FunctionDecl.lookups_visitsAll (c : Context) (place : Place) : ∀ fs : List FunctionDecl,
    lookups (FunctionDecl.visitsAll c fs) =
      (FunctionDecl.occurrencesAll place fs).filterMap Occurrence.lookup?
  | [] => rfl
  | f :: fs => by
    rw [FunctionDecl.visitsAll, FunctionDecl.occurrencesAll, lookups_append,
      List.filterMap_append, FunctionDecl.lookups_visits c place f,
      FunctionDecl.lookups_visitsAll c place fs]
end

/-- The names that are looked up in the visits of a program are those of its occurrences. -/
theorem Program.lookups_visits (p : Program) :
    lookups p.visits = p.occurrences.filterMap Occurrence.lookup? :=
  Stmt.lookups_visitsAll .program [] p.statements

end Lox
