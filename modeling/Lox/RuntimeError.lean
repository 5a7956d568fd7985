import Lox.Span

/-!
# Errors of a running program

A running program stops at the first error.  An error is a cause and a place; its
message follows from the cause.
-/

namespace Lox

/-- Why a running program stops. -/
inductive RuntimeFault where
  | operandNotNumber
  | operandsNotNumbers
  | operandsNotAddable
  | divisionByZero
  | undefinedVariable (name : String)
  | undefinedProperty (name : String)
  | propertiesOfOther (type : String)
  | fieldsOfOther (type : String)
  | calledClass (name : String)
  | notCallable (shown : String)
  | notClass (shown : String)
  | wrongArity (expected got : Nat)
  | stackOverflow
  | outputFailed (reason : String)
  deriving DecidableEq, Repr

/-- The message for a cause. -/
def RuntimeFault.message : RuntimeFault → String
  | .operandNotNumber => "operand must be a number"
  | .operandsNotNumbers => "operands must be numbers"
  | .operandsNotAddable => "operands must be two numbers or two strings"
  | .divisionByZero => "division by zero"
  | .undefinedVariable name => "undefined variable '" ++ name ++ "'"
  | .undefinedProperty name => "undefined property '" ++ name ++ "'"
  | .propertiesOfOther type => "only instances have properties; got " ++ type
  | .fieldsOfOther type => "only instances have fields; got " ++ type
  | .calledClass name =>
    "can't call class '" ++ name ++ "' directly; use 'new " ++ name ++ "()'"
  | .notCallable shown => "can only call functions; '" ++ shown ++ "' is not callable"
  | .notClass shown => "can only instantiate classes; '" ++ shown ++ "' is not a class"
  | .wrongArity expected got =>
    "expected " ++ toString expected ++ " arguments but got " ++ toString got
  | .stackOverflow => "stack overflow"
  | .outputFailed reason => "failed to write output: " ++ reason

/-- An error of a running program. -/
structure RuntimeError where
  /-- The cause. -/
  fault : RuntimeFault
  /-- The place in the source. -/
  span : Span
  deriving DecidableEq, Repr

namespace RuntimeError

/-- What is wrong. -/
def message (e : RuntimeError) : String := e.fault.message

/-- The report of the error: its message and its line. -/
def text (e : RuntimeError) : String :=
  e.message ++ "\n[line " ++ toString e.span.line ++ "]"

end RuntimeError

end Lox
