import Lox.Syntax
import Lox.Number.Text

/-!
# Values

Numbers, texts, truth values and nil are values by themselves.  Functions, classes
and instances are objects: a function is its declaration together with the frame it
was made in, and classes and instances are known by their place in the store.
-/

namespace Lox

/-- Place of a frame in the store. -/
abbrev FrameId := Nat

/-- Place of a class in the store. -/
abbrev ClassId := Nat

/-- Place of an instance in the store. -/
abbrev InstanceId := Nat

/-- A function value: a declaration and the frame in which its free names are
found. -/
structure Closure where
  /-- The declaration that was executed. -/
  decl : FunctionDecl
  /-- The frame in which it was executed. -/
  frame : FrameId

/-- Two function values come from the same declaration and the same frame. -/
def Closure.same (f g : Closure) : Bool :=
  f.decl.number = g.decl.number && f.frame = g.frame

/-- Values. -/
inductive Value where
  | number (x : Float)
  | text (s : String)
  | bool (b : Bool)
  | nil
  | function (f : Closure)
  | class (c : ClassId)
  | instance (i : InstanceId)

namespace Value

/-- A value written in the source. -/
def ofConstant : Constant → Value
  | .number x => .number x
  | .text s => .text s
  | .bool b => .bool b
  | .nil => .nil

/-- Only nil and false count as false. -/
def isTruthy : Value → Bool
  | .nil => false
  | .bool b => b
  | _ => true

/-- Numbers, texts and truth values are compared by value, objects by identity;
values of different types are never equal. -/
def equal : Value → Value → Bool
  | .nil, .nil => true
  | .bool a, .bool b => a == b
  | .number a, .number b => a == b
  | .text a, .text b => a == b
  | .function f, .function g => f.same g
  | .class a, .class b => a == b
  | .instance a, .instance b => a == b
  | _, _ => false

/-- Name of the type of a value. -/
def typeName : Value → String
  | .number _ => "number"
  | .text _ => "string"
  | .bool _ => "boolean"
  | .nil => "nil"
  | .function _ => "function"
  | .class _ => "class"
  | .instance _ => "instance"

end Value

end Lox
