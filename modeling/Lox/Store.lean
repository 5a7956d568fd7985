import Lox.Bindings
import Lox.Value

/-!
# The store

The store holds everything that can be shared: the frames that bind names, the
classes, and the instances with their fields.  Objects are only ever added.  A new
frame may be enclosed by an older one, so that following enclosing frames comes to
an end.

**Frames.** A name is looked up along the chain of enclosing frames, or exactly a
given number of frames up the chain.  Frames are shared: a change made through one
chain is seen through every chain that has the frame.
-/

namespace Lox

/-- A frame: the names bound in one activation of a scope. -/
structure Frame where
  /-- The names bound here. -/
  bindings : Bindings Value
  /-- The frame around this one. -/
  enclosing : Option FrameId

/-- A class: its name and its methods. -/
structure Class where
  /-- Name of the class. -/
  name : String
  /-- Methods, not bound to an instance. -/
  methods : Bindings Closure

/-- An instance: its class and its fields. -/
structure Instance where
  /-- The class that it was made from. -/
  cls : ClassId
  /-- Fields set so far. -/
  fields : Bindings Value

/-- All shared objects. -/
structure Store where
  /-- Frames, in the order in which they were made. -/
  frames : Array Frame
  /-- Classes, in the order in which they were made. -/
  classes : Array Class
  /-- Instances, in the order in which they were made. -/
  instances : Array Instance

namespace Store

/-- The store without objects. -/
def empty : Store := ⟨#[], #[], #[]⟩

/-! ## Frames -/

/-- Adds an empty frame. -/
def addFrame (s : Store) (enclosing : Option FrameId) : FrameId × Store :=
  (s.frames.size, { s with frames := s.frames.push ⟨.empty, enclosing⟩ })

/-- The frame around a frame. -/
def enclosing? (s : Store) (e : FrameId) : Option FrameId :=
  match s.frames[e]? with
  | none => none
  | some frame => frame.enclosing

/-- The value of a name in one frame, not in the frames around it. -/
def getHere? (s : Store) (e : FrameId) (name : String) : Option Value :=
  match s.frames[e]? with
  | none => none
  | some frame => frame.bindings.get? name

/-- Binds a name in one frame. -/
def define (s : Store) (e : FrameId) (name : String) (value : Value) : Store :=
  { s with frames := s.frames.modify e fun frame =>
      { frame with bindings := frame.bindings.set name value } }

/-- Binds names to values in one frame, in order, as long as there are both. -/
def defineAll (s : Store) (e : FrameId) : List String → List Value → Store
  | name :: names, value :: values => (s.define e name value).defineAll e names values
  | _, _ => s

/-- The frame a number of links up the chain. -/
def ancestor? (s : Store) : Nat → FrameId → Option FrameId
  | 0, e => some e
  | distance + 1, e =>
    match s.enclosing? e with
    | none => none
    | some outer => s.ancestor? distance outer

/-- The nearest frame of the chain that binds a name; the first argument bounds the
number of frames looked at. -/
def binderWithin? (s : Store) (name : String) : Nat → FrameId → Option FrameId
  | 0, _ => none
  | fuel + 1, e =>
    if (s.getHere? e name).isSome then some e
    else
      match s.enclosing? e with
      | none => none
      | some outer => s.binderWithin? name fuel outer

/-- The nearest frame of the chain that binds a name.  A chain is never longer than
the number of frames. -/
def binder? (s : Store) (name : String) (e : FrameId) : Option FrameId :=
  s.binderWithin? name s.frames.size e

/-- The value of a name in the nearest frame of the chain that binds it. -/
def get? (s : Store) (e : FrameId) (name : String) : Option Value :=
  match s.binder? name e with
  | none => none
  | some binder => s.getHere? binder name

/-- The value of a name exactly `distance` links up the chain. -/
def getAt? (s : Store) (e : FrameId) (distance : Nat) (name : String) : Option Value :=
  match s.ancestor? distance e with
  | none => none
  | some frame => s.getHere? frame name

/-- Changes the nearest binding of a name; whether a frame of the chain binds it. -/
def assign (s : Store) (e : FrameId) (name : String) (value : Value) : Bool × Store :=
  match s.binder? name e with
  | none => (false, s)
  | some binder => (true, s.define binder name value)

/-- Binds a name exactly `distance` links up the chain; whether the chain is long
enough. -/
def assignAt (s : Store) (e : FrameId) (distance : Nat) (name : String)
    (value : Value) : Bool × Store :=
  match s.ancestor? distance e with
  | none => (false, s)
  | some frame => (true, s.define frame name value)

/-! ## Classes and instances -/

/-- Adds a class. -/
def addClass (s : Store) (cls : Class) : ClassId × Store :=
  (s.classes.size, { s with classes := s.classes.push cls })

/-- Adds an instance without fields. -/
def addInstance (s : Store) (cls : ClassId) : InstanceId × Store :=
  (s.instances.size, { s with instances := s.instances.push ⟨cls, .empty⟩ })

/-- Name of a class. -/
def className (s : Store) (c : ClassId) : String :=
  match s.classes[c]? with
  | none => ""
  | some cls => cls.name

/-- Name of the class of an instance. -/
def instanceClassName (s : Store) (i : InstanceId) : String :=
  match s.instances[i]? with
  | none => ""
  | some object => s.className object.cls

/-- The method of a class with a given name, not bound to an instance. -/
def method? (s : Store) (c : ClassId) (name : String) : Option Closure :=
  match s.classes[c]? with
  | none => none
  | some cls => cls.methods.get? name

/-- The field of an instance with a given name. -/
def field? (s : Store) (i : InstanceId) (name : String) : Option Value :=
  match s.instances[i]? with
  | none => none
  | some object => object.fields.get? name

/-- Sets a field of an instance. -/
def setField (s : Store) (i : InstanceId) (name : String) (value : Value) : Store :=
  { s with instances := s.instances.modify i fun object =>
      { object with fields := object.fields.set name value } }

/-- A copy of a function whose frame has the receiver bound around it. -/
def bind (s : Store) (f : Closure) (receiver : InstanceId) : Closure × Store :=
  let (e, s) := s.addFrame (some f.frame)
  (⟨f.decl, e⟩, s.define e "this" (.instance receiver))

/-- What a property name stands for. -/
inductive Property where
  /-- A field of the instance. -/
  | field (value : Value)
  /-- A method of its class, not bound to the instance. -/
  | method (f : Closure)

/-- What a property name of an instance stands for: a field if there is one, else a
method. -/
def findProperty? (s : Store) (i : InstanceId) (name : String) : Option Property :=
  match s.instances[i]? with
  | none => none
  | some object =>
    match object.fields.get? name with
    | some value => some (.field value)
    | none => (s.method? object.cls name).map .method

/-- Reads a property; a method is bound to the instance anew for every reading. -/
def property (s : Store) (i : InstanceId) (name : String) : Option Value × Store :=
  match s.findProperty? i name with
  | none => (none, s)
  | some (.field value) => (some value, s)
  | some (.method f) =>
    let (bound, s) := s.bind f i
    (some (.function bound), s)

/-! ## Text of values -/

/-- The text of a value. -/
def display (s : Store) : Value → String
  | .number x => showNumber x
  | .text t => t
  | .bool true => "true"
  | .bool false => "false"
  | .nil => "nil"
  | .function f => "<fn " ++ f.decl.name ++ ">"
  | .class c => "<class " ++ s.className c ++ ">"
  | .instance i => "<instance " ++ s.instanceClassName i ++ ">"

end Store

end Lox
