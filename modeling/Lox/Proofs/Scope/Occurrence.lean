import Lox.Scope

/-!
# Occurrences

An occurrence is an expression of a program together with its place: the scopes that
are open there, innermost first, and what each of them has declared by then.  A
program has one occurrence for each of its expressions, at any depth.

**Names.** In an open scope a name is bound to whether its initializer has been left.
It is bound to `false` for exactly the occurrences in the initializer of a variable,
in the scope that declares this variable.

**Order.** Occurrences are listed in the order in which names are resolved: the parts
of an expression before the expression, and the value of a property write before its
object.
-/

namespace Lox

/-- A scope of the text. -/
inductive Scope where
  /-- The scope of a block. -/
  | block (body : List Stmt)
  /-- The scope that the parameters and the body of a function share. -/
  | function (decl : FunctionDecl)
  /-- The scope around the methods of a class, in which the receiver is found. -/
  | receiver (methods : List FunctionDecl)

/-- A scope with the names that it has declared so far. -/
structure OpenScope where
  /-- The scope. -/
  scope : Scope
  /-- Declared names, bound to whether their initializer has been left. -/
  names : Bindings Bool

/-- The open scopes, innermost first. -/
abbrev Place := List OpenScope

namespace Place

/-- The scopes themselves. -/
def scopes (place : Place) : List Scope := place.map (·.scope)

/-- What the scopes have declared. -/
def names (place : Place) : List (Bindings Bool) := place.map (·.names)

/-- Binds a name in the innermost scope, if a scope is open. -/
def bind (name : String) (left : Bool) : Place → Place
  | [] => []
  | inner :: outer => { inner with names := inner.names.set name left } :: outer

/-- Binds names whose initializers have been left. -/
def bindAll : List String → Place → Place
  | [], place => place
  | name :: names, place => bindAll names (place.bind name true)

/-- The place inside a scope that is opened here. -/
def enter (scope : Scope) (place : Place) : Place := ⟨scope, .empty⟩ :: place

end Place

/-- An expression and its place. -/
structure Occurrence where
  /-- The expression. -/
  expr : Expr
  /-- The scopes that are open there. -/
  place : Place

mutual
/-- The occurrences in an expression. -/
def Expr.occurrences (place : Place) : Expr → List Occurrence
  | .literal node value => [⟨.literal node value, place⟩]
  | .grouping node inner => inner.occurrences place ++ [⟨.grouping node inner, place⟩]
  | .unary node op operand =>
    operand.occurrences place ++ [⟨.unary node op operand, place⟩]
  | .binary node op left right opSpan =>
    left.occurrences place ++ right.occurrences place ++
      [⟨.binary node op left right opSpan, place⟩]
  | .logical node op left right =>
    left.occurrences place ++ right.occurrences place ++
      [⟨.logical node op left right, place⟩]
  | .variable node name => [⟨.variable node name, place⟩]
  | .assign node name value => value.occurrences place ++ [⟨.assign node name value, place⟩]
  | .call node callee arguments paren =>
    callee.occurrences place ++ Expr.occurrencesAll place arguments ++
      [⟨.call node callee arguments paren, place⟩]
  | .new node callee arguments paren =>
    callee.occurrences place ++ Expr.occurrencesAll place arguments ++
      [⟨.new node callee arguments paren, place⟩]
  | .get node object name nameSpan =>
    object.occurrences place ++ [⟨.get node object name nameSpan, place⟩]
  | .set node object name nameSpan value =>
    value.occurrences place ++ object.occurrences place ++
      [⟨.set node object name nameSpan value, place⟩]
  | .this node => [⟨.this node, place⟩]

/-- The occurrences in expressions, in order. -/
def Expr.occurrencesAll (place : Place) : List Expr → List Occurrence
  | [] => []
  | e :: es => e.occurrences place ++ Expr.occurrencesAll place es
end

/-- The occurrences in an expression that may be missing. -/
def Expr.occurrencesOption (place : Place) : Option Expr → List Occurrence
  | none => []
  | some e => e.occurrences place

/-- The place behind a statement: what it declares has been declared. -/
def Stmt.leave (place : Place) : Stmt → Place
  | .var name _ _ => (place.bind name false).bind name true
  | .function decl _ => place.bind decl.name true
  | .class name _ _ => place.bind name true
  | .ifElse _ thenBranch none _ => thenBranch.leave place
  | .ifElse _ thenBranch (some elseBranch) _ => elseBranch.leave (thenBranch.leave place)
  | .while _ body _ => body.leave place
  | _ => place

/-- The place behind statements. -/
def Stmt.leaveAll (place : Place) : List Stmt → Place
  | [] => place
  | s :: ss => Stmt.leaveAll (s.leave place) ss

/-- The place in which the body of a function begins. -/
def FunctionDecl.inside (place : Place) (decl : FunctionDecl) : Place :=
  (place.enter (.function decl)).bindAll decl.params

/-- The place in which the methods of a class are. -/
def Place.insideClass (place : Place) (methods : List FunctionDecl) : Place :=
  (place.enter (.receiver methods)).bind "this" true

/-! ## Nothing is local at top level -/

theorem Stmt.leave_nil : ∀ s : Stmt, s.leave [] = []
  | .ifElse _ thenBranch none _ => by
    rw [Stmt.leave, Stmt.leave_nil thenBranch]
  | .ifElse _ thenBranch (some elseBranch) _ => by
    rw [Stmt.leave, Stmt.leave_nil thenBranch, Stmt.leave_nil elseBranch]
  | .while _ body _ => by
    rw [Stmt.leave, Stmt.leave_nil body]
  | .expression .. | .print .. | .var .. | .block .. | .function .. | .class .. | .return .. =>
    rfl

theorem Stmt.leaveAll_nil (ss : List Stmt) : Stmt.leaveAll [] ss = [] := by
  induction ss with
  | nil => rfl
  | cons s ss ih => rw [Stmt.leaveAll, Stmt.leave_nil, ih]

/-! ## Only the innermost scope changes -/

theorem Place.bindAll_cons (names : List String) (inner : OpenScope) (outer : Place) :
    ∃ inner' : OpenScope, Place.bindAll names (inner :: outer) = inner' :: outer ∧
      inner'.scope = inner.scope := by
  induction names generalizing inner with
  | nil => exact ⟨inner, rfl, rfl⟩
  | cons name names ih => exact ih _

theorem Stmt.leave_cons (inner : OpenScope) (outer : Place) :
    ∀ s : Stmt, ∃ inner' : OpenScope, s.leave (inner :: outer) = inner' :: outer ∧
      inner'.scope = inner.scope
  | .var .. => ⟨_, rfl, rfl⟩
  | .function .. => ⟨_, rfl, rfl⟩
  | .class .. => ⟨_, rfl, rfl⟩
  | .ifElse _ thenBranch none _ => by
    rw [Stmt.leave]
    exact Stmt.leave_cons inner outer thenBranch
  | .ifElse _ thenBranch (some elseBranch) _ => by
    obtain ⟨middle, hmiddle, hscope⟩ := Stmt.leave_cons inner outer thenBranch
    rw [Stmt.leave, hmiddle, ← hscope]
    exact Stmt.leave_cons middle outer elseBranch
  | .while _ body _ => by
    rw [Stmt.leave]
    exact Stmt.leave_cons inner outer body
  | .expression .. => ⟨inner, rfl, rfl⟩
  | .print .. => ⟨inner, rfl, rfl⟩
  | .block .. => ⟨inner, rfl, rfl⟩
  | .return .. => ⟨inner, rfl, rfl⟩

theorem Stmt.leaveAll_cons (inner : OpenScope) (outer : Place) (ss : List Stmt) :
    ∃ inner' : OpenScope, Stmt.leaveAll (inner :: outer) ss = inner' :: outer ∧
      inner'.scope = inner.scope := by
  induction ss generalizing inner with
  | nil => exact ⟨inner, rfl, rfl⟩
  | cons s ss ih =>
    obtain ⟨middle, hmiddle, hscope⟩ := Stmt.leave_cons inner outer s
    rw [Stmt.leaveAll, hmiddle, ← hscope]
    exact ih middle

/-! ## Occurrences in statements -/

mutual
/-- The occurrences in a statement. -/
def Stmt.occurrences (place : Place) : Stmt → List Occurrence
  | .expression value _ => value.occurrences place
  | .print value _ => value.occurrences place
  | .var name initializer _ => Expr.occurrencesOption (place.bind name false) initializer
  | .block body _ => Stmt.occurrencesAll (place.enter (.block body)) body
  | .ifElse condition thenBranch none _ =>
    condition.occurrences place ++ thenBranch.occurrences place
  | .ifElse condition thenBranch (some elseBranch) _ =>
    condition.occurrences place ++ thenBranch.occurrences place ++
      elseBranch.occurrences (thenBranch.leave place)
  | .while condition body _ => condition.occurrences place ++ body.occurrences place
  | .function decl _ => decl.occurrences (place.bind decl.name true)
  | .class name methods _ =>
    FunctionDecl.occurrencesAll ((place.bind name true).insideClass methods) methods
  | .return value _ => Expr.occurrencesOption place value

/-- The occurrences in statements, in order. -/
def Stmt.occurrencesAll (place : Place) : List Stmt → List Occurrence
  | [] => []
  | s :: ss => s.occurrences place ++ Stmt.occurrencesAll (s.leave place) ss

/-- The occurrences in a function. -/
def FunctionDecl.occurrences (place : Place) : FunctionDecl → List Occurrence
  | .mk number name params body span =>
    Stmt.occurrencesAll (FunctionDecl.inside place (.mk number name params body span)) body

/-- The occurrences in functions, in order. -/
def FunctionDecl.occurrencesAll (place : Place) : List FunctionDecl → List Occurrence
  | [] => []
  | f :: fs => f.occurrences place ++ FunctionDecl.occurrencesAll place fs
end

theorem FunctionDecl.mem_occurrencesAll {place : Place} {f : FunctionDecl}
    {fs : List FunctionDecl} (hf : f ∈ fs) {o : Occurrence} (ho : o ∈ f.occurrences place) :
    o ∈ FunctionDecl.occurrencesAll place fs := by
  induction fs with
  | nil => cases hf
  | cons first fs ih =>
    rw [FunctionDecl.occurrencesAll, List.mem_append]
    rcases List.mem_cons.1 hf with rfl | hf
    · exact .inl ho
    · exact .inr (ih hf)

/-- The occurrences in a program. -/
def Program.occurrences (p : Program) : List Occurrence :=
  Stmt.occurrencesAll [] p.statements

namespace Occurrence

/-- Number of the expression. -/
def id (o : Occurrence) : Nat := o.expr.id

/-- The name that is looked up there, if any. -/
def name? (o : Occurrence) : Option String :=
  match o.expr with
  | .variable _ name => some name
  | .assign _ name _ => some name
  | .this _ => some "this"
  | _ => none

/-- How many scopes out the name that is looked up there has been declared. -/
def distance? (o : Occurrence) : Option Nat :=
  match o.name? with
  | none => none
  | some name => scopeDistance? name o.place.names

/-- Not the reading of a variable in its own initializer. -/
def IsLegal (o : Occurrence) : Prop :=
  match o.expr, o.place with
  | .variable _ name, inner :: _ => inner.names.get? name ≠ some false
  | _, _ => True

/-- The distance noted for the expression is the one that its place gives. -/
def IsAddressed (locals : Locals) (o : Occurrence) : Prop :=
  locals[o.id]? = o.distance?

end Occurrence

/-! ## Numbers of expressions -/

mutual
/-- The numbers of an expression and its parts, in the order of the occurrences. -/
def Expr.ids : Expr → List Nat
  | .literal node _ => [node.id]
  | .grouping node inner => inner.ids ++ [node.id]
  | .unary node _ operand => operand.ids ++ [node.id]
  | .binary node _ left right _ => left.ids ++ right.ids ++ [node.id]
  | .logical node _ left right => left.ids ++ right.ids ++ [node.id]
  | .variable node _ => [node.id]
  | .assign node _ value => value.ids ++ [node.id]
  | .call node callee arguments _ => callee.ids ++ Expr.idsAll arguments ++ [node.id]
  | .new node callee arguments _ => callee.ids ++ Expr.idsAll arguments ++ [node.id]
  | .get node object _ _ => object.ids ++ [node.id]
  | .set node object _ _ value => value.ids ++ object.ids ++ [node.id]
  | .this node => [node.id]

/-- The numbers of expressions and their parts. -/
def Expr.idsAll : List Expr → List Nat
  | [] => []
  | e :: es => e.ids ++ Expr.idsAll es
end

/-- The numbers of an expression that may be missing. -/
def Expr.idsOption : Option Expr → List Nat
  | none => []
  | some e => e.ids

mutual
/-- The numbers of the expressions in a statement. -/
def Stmt.ids : Stmt → List Nat
  | .expression value _ => value.ids
  | .print value _ => value.ids
  | .var _ initializer _ => Expr.idsOption initializer
  | .block body _ => Stmt.idsAll body
  | .ifElse condition thenBranch none _ => condition.ids ++ thenBranch.ids
  | .ifElse condition thenBranch (some elseBranch) _ =>
    condition.ids ++ thenBranch.ids ++ elseBranch.ids
  | .while condition body _ => condition.ids ++ body.ids
  | .function decl _ => decl.ids
  | .class _ methods _ => FunctionDecl.idsAll methods
  | .return value _ => Expr.idsOption value

/-- The numbers of the expressions in statements. -/
def Stmt.idsAll : List Stmt → List Nat
  | [] => []
  | s :: ss => s.ids ++ Stmt.idsAll ss

/-- The numbers of the expressions in a function. -/
def FunctionDecl.ids : FunctionDecl → List Nat
  | .mk _ _ _ body _ => Stmt.idsAll body

/-- The numbers of the expressions in functions. -/
def FunctionDecl.idsAll : List FunctionDecl → List Nat
  | [] => []
  | f :: fs => f.ids ++ FunctionDecl.idsAll fs
end

mutual
theorem Expr.map_id_occurrences (place : Place) (e : Expr) :
    (e.occurrences place).map Occurrence.id = e.ids := by
  cases e <;>
    simp [Expr.occurrences, Expr.ids, Occurrence.id, Expr.id, Expr.node,
      Expr.map_id_occurrences place, Expr.map_id_occurrencesAll place]

theorem Expr.map_id_occurrencesAll (place : Place) (es : List Expr) :
    (Expr.occurrencesAll place es).map Occurrence.id = Expr.idsAll es := by
  cases es with
  | nil => rfl
  | cons e es =>
    simp [Expr.occurrencesAll, Expr.idsAll, Expr.map_id_occurrences place e,
      Expr.map_id_occurrencesAll place es]
end

theorem Expr.map_id_occurrencesOption (place : Place) (e : Option Expr) :
    (Expr.occurrencesOption place e).map Occurrence.id = Expr.idsOption e := by
  cases e with
  | none => rfl
  | some e => exact e.map_id_occurrences place

mutual
theorem Stmt.map_id_occurrences (place : Place) :
    ∀ s : Stmt, (s.occurrences place).map Occurrence.id = s.ids
  | .expression value _ => by
    rw [Stmt.occurrences, Stmt.ids, value.map_id_occurrences]
  | .print value _ => by
    rw [Stmt.occurrences, Stmt.ids, value.map_id_occurrences]
  | .var _ initializer _ => by
    rw [Stmt.occurrences, Stmt.ids, Expr.map_id_occurrencesOption]
  | .block body _ => by
    rw [Stmt.occurrences, Stmt.ids, Stmt.map_id_occurrencesAll _ body]
  | .ifElse condition thenBranch none _ => by
    rw [Stmt.occurrences, Stmt.ids, List.map_append, condition.map_id_occurrences,
      Stmt.map_id_occurrences _ thenBranch]
  | .ifElse condition thenBranch (some elseBranch) _ => by
    rw [Stmt.occurrences, Stmt.ids, List.map_append, List.map_append,
      condition.map_id_occurrences, Stmt.map_id_occurrences _ thenBranch,
      Stmt.map_id_occurrences _ elseBranch]
  | .while condition body _ => by
    rw [Stmt.occurrences, Stmt.ids, List.map_append, condition.map_id_occurrences,
      Stmt.map_id_occurrences _ body]
  | .function decl _ => by
    rw [Stmt.occurrences, Stmt.ids, FunctionDecl.map_id_occurrences _ decl]
  | .class _ methods _ => by
    rw [Stmt.occurrences, Stmt.ids, FunctionDecl.map_id_occurrencesAll _ methods]
  | .return value _ => by
    rw [Stmt.occurrences, Stmt.ids, Expr.map_id_occurrencesOption]

theorem Stmt.map_id_occurrencesAll (place : Place) :
    ∀ ss : List Stmt, (Stmt.occurrencesAll place ss).map Occurrence.id = Stmt.idsAll ss
  | [] => rfl
  | s :: ss => by
    rw [Stmt.occurrencesAll, Stmt.idsAll, List.map_append, Stmt.map_id_occurrences place s,
      Stmt.map_id_occurrencesAll _ ss]

theorem FunctionDecl.map_id_occurrences (place : Place) :
    ∀ f : FunctionDecl, (f.occurrences place).map Occurrence.id = f.ids
  | .mk _ _ _ body _ => by
    rw [FunctionDecl.occurrences, FunctionDecl.ids, Stmt.map_id_occurrencesAll _ body]

theorem FunctionDecl.map_id_occurrencesAll (place : Place) :
    ∀ fs : List FunctionDecl,
      (FunctionDecl.occurrencesAll place fs).map Occurrence.id = FunctionDecl.idsAll fs
  | [] => rfl
  | f :: fs => by
    rw [FunctionDecl.occurrencesAll, FunctionDecl.idsAll, List.map_append,
      FunctionDecl.map_id_occurrences place f, FunctionDecl.map_id_occurrencesAll place fs]
end

end Lox
