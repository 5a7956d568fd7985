import Lox.Token

/-!
# Errors found before a program runs

Three stages can refuse a program: cutting the text into tokens, reading the
tokens as statements, and finding the scope of each name.  Every error has a cause,
and everything a reader sees of it (message, location, line and place) follows
from the cause and the place.
-/

namespace Lox

/-- What can be wrong with the characters of a text. -/
inductive LexicalFault where
  /-- A character that starts no token. -/
  | strayCharacter (c : Char)
  /-- A string without a closing quote. -/
  | openString

/-- A function is declared on its own or as a method of a class. -/
inductive FunctionRole where
  | function
  | method
  deriving DecidableEq, Repr

/-- The word for a role in messages. -/
def FunctionRole.word : FunctionRole → String
  | .function => "function"
  | .method => "method"

/-- What the reader of tokens can miss. -/
inductive Missing where
  | className
  | functionName (role : FunctionRole)
  | parameterName
  | variableName
  | propertyName
  | classBodyStart
  | classBodyEnd
  | parametersStart (role : FunctionRole)
  | parametersEnd
  | bodyStart (role : FunctionRole)
  | blockEnd
  | declarationEnd
  | printEnd
  | returnEnd
  | expressionEnd
  | ifStart
  | ifConditionEnd
  | whileStart
  | whileConditionEnd
  | forStart
  | forConditionEnd
  | forClausesEnd
  | argumentsEnd
  | groupEnd
  | expression
  deriving DecidableEq, Repr

/-- What is missing, in words. -/
def Missing.phrase : Missing → String
  | .className => "class name"
  | .functionName role => role.word ++ " name"
  | .parameterName => "parameter name"
  | .variableName => "variable name"
  | .propertyName => "property name after '.'"
  | .classBodyStart => "'\x7b' before class body"
  | .classBodyEnd => "'\x7d' after class body"
  | .parametersStart role => "'(' after " ++ role.word ++ " name"
  | .parametersEnd => "')' after parameters"
  | .bodyStart role => "'\x7b' before " ++ role.word ++ " body"
  | .blockEnd => "'\x7d' after block"
  | .declarationEnd => "';' after variable declaration"
  | .printEnd => "';' after value"
  | .returnEnd => "';' after return value"
  | .expressionEnd => "';' after expression"
  | .ifStart => "'(' after 'if'"
  | .ifConditionEnd => "')' after if condition"
  | .whileStart => "'(' after 'while'"
  | .whileConditionEnd => "')' after while condition"
  | .forStart => "'(' after 'for'"
  | .forConditionEnd => "';' after loop condition"
  | .forClausesEnd => "')' after for clauses"
  | .argumentsEnd => "')' after arguments"
  | .groupEnd => "')' after expression"
  | .expression => "expression"

/-- What can be wrong with the order of tokens. -/
inductive SyntaxFault where
  | expected (what : Missing)
  | reservedWord
  | tooManyParameters
  | tooManyArguments
  | badAssignmentTarget
  | badNumber
  | badString
  deriving DecidableEq, Repr

/-- The message for a fault in the order of tokens. -/
def SyntaxFault.message : SyntaxFault → String
  | .expected what => "expected " ++ what.phrase
  | .reservedWord => "reserved word; declare variables with 'var'"
  | .tooManyParameters => "can't have more than 255 parameters"
  | .tooManyArguments => "can't have more than 255 arguments"
  | .badAssignmentTarget => "invalid assignment target"
  | .badNumber => "malformed number literal"
  | .badString => "malformed string literal"

/-- What can be wrong with the use of a name or a statement where it stands. -/
inductive ScopeFault where
  /-- A local variable is read in its own initializer. -/
  | ownInitializer (name : String)
  /-- The receiver is used outside every class. -/
  | thisOutsideClass
  /-- A return statement stands outside every function. -/
  | returnOutsideFunction
  deriving DecidableEq, Repr

namespace ScopeFault

/-- The message for a fault of scope. -/
def message : ScopeFault → String
  | .ownInitializer _ => "can't read local variable in its own initializer"
  | .thisOutsideClass => "can't use 'this' outside of a class"
  | .returnOutsideFunction => "can't return from top-level code"

/-- The word of the source that the fault is about. -/
def subject : ScopeFault → String
  | .ownInitializer name => name
  | .thisOutsideClass => "this"
  | .returnOutsideFunction => "return"

end ScopeFault

/-- An error of one of the three stages. -/
inductive CompileError where
  | scan (fault : LexicalFault) (place : Position)
  | parse (fault : SyntaxFault) (token : Token)
  | resolve (fault : ScopeFault) (span : Span)

namespace CompileError

/-- The code of the stage that found the error. -/
def code : CompileError → String
  | .scan .. => "lox::scan"
  | .parse .. => "lox::parse"
  | .resolve .. => "lox::resolve"

/-- What is wrong. -/
def message : CompileError → String
  | .scan (.strayCharacter c) _ => "unexpected character '" ++ c.toString ++ "'"
  | .scan .openString _ => "unterminated string"
  | .parse fault _ => fault.message
  | .resolve fault _ => fault.message

/-- Where it is, by the text found there. -/
def location : CompileError → String
  | .scan (.strayCharacter c) _ => "at '" ++ c.toString ++ "'"
  | .scan .openString _ => "at end"
  | .parse _ token => token.location
  | .resolve fault _ => "at '" ++ fault.subject ++ "'"

/-- Where it is, by place.  Errors of characters are one byte long. -/
def span : CompileError → Span
  | .scan _ place => ⟨place.offset, 1, place.line⟩
  | .parse _ token => token.span
  | .resolve _ span => span

/-- Line on which the error is. -/
def line (e : CompileError) : Nat := e.span.line

/-- The line that reports the error. -/
def text (e : CompileError) : String :=
  "[line: " ++ toString e.line ++ "] Error " ++ e.location ++ ": " ++ e.message

end CompileError

end Lox
