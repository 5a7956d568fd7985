import Lox.Evaluate
import Lox.Syntax.Parser
import Lox.Token.Piece

/-!
# Sessions

A session runs source texts one after another on one machine.  What one text
defines globally stays for the next ones, and an error ends only the text it is
found in.

**Compiling.** A text with lexical errors is not read further.  A text with syntax
errors is: the statements without error are still resolved, and errors of scope
follow the syntax errors.  Nothing is run unless there is no error at all.
-/

namespace Lox

/-- A program with the distances of its local names. -/
structure Compiled where
  /-- The program. -/
  program : Program
  /-- Distances of its local names. -/
  locals : Locals

/-- What compiling a text gives: a program or errors, and the numbers left. -/
structure Compilation where
  /-- The program, or all errors. -/
  result : Except (List CompileError) Compiled
  /-- Numbers not in use afterwards. -/
  supply : Supply

/-- Joins the errors of reading and of resolving. -/
def Parsed.compile (parsed : Parsed) : Except (List CompileError) Compiled :=
  match parsed.program.resolve with
  | .ok locals =>
    if parsed.errors.isEmpty then .ok ⟨parsed.program, locals⟩ else .error parsed.errors
  | .error errors => .error (parsed.errors ++ errors)

/-- Compiles a source text with numbers from a supply. -/
def compile (supply : Supply) (source : String) : Compilation :=
  match scan source with
  | .error errors => ⟨.error errors, supply⟩
  | .ok tokens =>
    let parsed := Parsed.ofTokens supply tokens
    ⟨parsed.compile, parsed.supply⟩

/-- How the run of a source text ends. -/
inductive Ending where
  /-- All statements were executed. -/
  | finished
  /-- The text does not compile, and nothing was executed. -/
  | refused (errors : List CompileError)
  /-- A statement failed. -/
  | failed (error : RuntimeError)
  /-- The budget did not suffice. -/
  | exhausted

namespace Ending

/-- The errors of a text that does not compile. -/
def compileErrors : Ending → List CompileError
  | .refused errors => errors
  | _ => []

/-- The error that ended the run. -/
def runtimeErrors : Ending → List RuntimeError
  | .failed error => [error]
  | _ => []

/-- The text does not compile. -/
def isRefused : Ending → Bool
  | .refused _ => true
  | _ => false

/-- The run ended with an error. -/
def isFailed : Ending → Bool
  | .failed _ => true
  | _ => false

/-- Neither kind of error occurred. -/
def isSuccess (e : Ending) : Bool := !e.isRefused && !e.isFailed

/-- The reports of all errors, in order. -/
def reports : Ending → List String
  | .refused errors => errors.map CompileError.text
  | .failed error => [error.text]
  | _ => []

end Ending

/-- A session: a machine and the numbers not in use. -/
structure Session where
  /-- The machine on which all texts run. -/
  machine : Machine
  /-- Numbers not in use yet. -/
  supply : Supply

/-- What the run of one text shows: how it ends and the lines it printed. -/
structure Report where
  /-- How the run ended. -/
  ending : Ending
  /-- Lines printed by this text. -/
  printed : List String

namespace Session

/-- A session in which nothing was run. -/
def initial (maxCallDepth : Nat) (output : Output) : Session :=
  ⟨Machine.initial maxCallDepth output, .initial⟩

/-- Runs a compiled text. -/
def runCompiled (budget : Nat) (m : Machine) (c : Compiled) : Ending × Machine :=
  match Run.program budget c.program c.locals m with
  | .ok () m => (.finished, m)
  | .error (.error e) m => (.failed e, m)
  | .error .exhausted m => (.exhausted, m)

/-- Runs a source text. -/
def step (budget : Nat) (session : Session) (source : String) : Ending × Session :=
  let compilation := compile session.supply source
  match compilation.result with
  | .error errors => (.refused errors, { session with supply := compilation.supply })
  | .ok compiled =>
    let (ending, machine) := runCompiled budget session.machine compiled
    (ending, ⟨machine, compilation.supply⟩)

/-- The lines printed so far. -/
def lines (session : Session) : Array String := session.machine.output.lines

/-- Runs a source text and reports what it did. -/
def report (budget : Nat) (session : Session) (source : String) : Report × Session :=
  let before := session.lines.size
  let (ending, session) := session.step budget source
  (⟨ending, session.lines.toList.drop before⟩, session)

/-- Runs source texts in order. -/
def reports (budget : Nat) (session : Session) : List String → List Report
  | [] => []
  | source :: sources =>
    let (report, session) := session.report budget source
    report :: session.reports budget sources

end Session

/-- A budget that no program uses up within the life of a computer. -/
def unlimited : Nat := 0x4000000000000000

end Lox
