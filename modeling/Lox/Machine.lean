import Lox.Output
import Lox.RuntimeError
import Lox.Scope
import Lox.Store

/-!
# The machine

The machine is all that running code can change: the store, the current frame, the
number of calls under way and the output.  It also has what running code reads: the
global frame, the distances of local names and the limit on calls.

**Actions.** An action of type `Run α` either answers or stops, with an error or
because its budget is used up.  In each case the machine stays as it is at that
moment.  `inFrame` and `inCall` put the current frame and the number of calls back
on every way out.
-/

namespace Lox

/-- State of a running program. -/
structure Machine where
  /-- All shared objects. -/
  store : Store
  /-- The frame of global names. -/
  globals : FrameId
  /-- The frame in which names are bound and found. -/
  current : FrameId
  /-- Distances of the local names of all programs so far. -/
  locals : Locals
  /-- Calls under way. -/
  callDepth : Nat
  /-- The most calls that may be under way. -/
  maxCallDepth : Nat
  /-- Where printed lines go. -/
  output : Output

/-- The usual limit on calls under way. -/
def defaultMaxCallDepth : Nat := 4000

/-- A machine whose only object is the frame of global names. -/
def Machine.initial (maxCallDepth : Nat) (output : Output) : Machine :=
  let (globals, store) := Store.empty.addFrame none
  { store := store, globals := globals, current := globals, locals := ∅,
    callDepth := 0, maxCallDepth := maxCallDepth, output := output }

/-- Why an action stops without an answer. -/
inductive Stop where
  /-- The program is at fault. -/
  | error (e : RuntimeError)
  /-- The budget does not reach to the end of the action. -/
  | exhausted

/-- An action of the machine. -/
abbrev Run (α : Type) := EStateM Stop Machine α

/-- How a statement ends. -/
inductive Flow where
  /-- The next statement follows. -/
  | normal
  /-- The function under way returns a value. -/
  | return (value : Value)

namespace Run

/-- Stops with an error. -/
def fail {α : Type} (fault : RuntimeFault) (span : Span) : Run α :=
  throw (.error ⟨fault, span⟩)

/-- Answers, or stops with the fault at a place. -/
def check {α : Type} (span : Span) : Except RuntimeFault α → Run α
  | .ok a => return a
  | .error fault => fail fault span

/-- Changes the store. -/
def modifyStore (f : Store → Store) : Run Unit :=
  modify fun m => { m with store := f m.store }

/-- Changes the store and answers. -/
def withStore {α : Type} (f : Store → α × Store) : Run α :=
  modifyGet fun m =>
    let (a, store) := f m.store
    (a, { m with store := store })

/-- Runs an action with another current frame, and goes back to the frame before on
every way out. -/
def inFrame {α : Type} (frame : FrameId) (action : Run α) : Run α := fun m =>
  let before := m.current
  match action { m with current := frame } with
  | .ok a m => .ok a { m with current := before }
  | .error stop m => .error stop { m with current := before }

/-- Runs an action as one more call under way, and counts it off on every way
out. -/
def inCall {α : Type} (action : Run α) : Run α := fun m =>
  match action { m with callDepth := m.callDepth + 1 } with
  | .ok a m => .ok a { m with callDepth := m.callDepth - 1 }
  | .error stop m => .error stop { m with callDepth := m.callDepth - 1 }

/-- Checks the number of arguments and then the number of calls under way. -/
def checkCall (arity count : Nat) (paren : Span) : Run Unit := do
  if count ≠ arity then fail (.wrongArity arity count) paren
  let m ← get
  if m.maxCallDepth ≤ m.callDepth then fail .stackOverflow paren

/-- Adds a frame inside another one. -/
def newFrame (enclosing : FrameId) : Run FrameId :=
  withStore fun s => s.addFrame (some enclosing)

/-- Binds a name in the current frame. -/
def define (name : String) (value : Value) : Run Unit :=
  modify fun m => { m with store := m.store.define m.current name value }

/-- The value of an occurrence of a name: a local one is found at its distance, any
other among the globals. -/
def lookUp (name : String) (node : Node) : Run Value := do
  let m ← get
  let found := match m.locals[node.id]? with
    | some distance => m.store.getAt? m.current distance name
    | none => m.store.get? m.globals name
  match found with
  | some value => return value
  | none => fail (.undefinedVariable name) node.span

/-- Assigns to an occurrence of a name. -/
def assign (name : String) (node : Node) (value : Value) : Run Unit := do
  let m ← get
  let current := m.current
  let globals := m.globals
  let found ← match m.locals[node.id]? with
    | some distance => withStore fun s => s.assignAt current distance name value
    | none => withStore fun s => s.assign globals name value
  if found then return
  else fail (.undefinedVariable name) node.span

/-- Prints a line. -/
def print (line : String) (span : Span) : Run Unit := fun m =>
  match m.output.print line with
  | (true, output) => .ok () { m with output := output }
  | (false, output) =>
    .error (.error ⟨.outputFailed "sink full", span⟩) { m with output := output }

/-- Executes a class declaration in the current frame.  The name is bound before
the methods are made. -/
def defineClass (name : String) (methods : List FunctionDecl) : Run Unit := do
  define name .nil
  let frame := (← get).current
  let table := methods.foldl
    (fun table decl => table.set decl.name ⟨decl, frame⟩) Bindings.empty
  let cls ← withStore fun s => s.addClass ⟨name, table⟩
  define name (.class cls)

/-- Reads a property of a value. -/
def property (object : Value) (name : String) (nameSpan : Span) : Run Value := do
  match object with
  | .instance i =>
    match ← withStore fun s => s.property i name with
    | some value => return value
    | none => fail (.undefinedProperty name) nameSpan
  | other => fail (.propertiesOfOther other.typeName) nameSpan

/-- Makes an instance of a value, which must be a class.  Classes take no
arguments, and making an instance counts as a call. -/
def instantiate (callee : Value) (arguments : List Value) (paren : Span) : Run Value := do
  match callee with
  | .class c =>
    checkCall 0 arguments.length paren
    inCall do
      let i ← withStore fun s => s.addInstance c
      return .instance i
  | other => fail (.notClass ((← get).store.display other)) paren

end Run

end Lox
