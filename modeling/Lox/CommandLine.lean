import Lox.Echo
import Lox.Session
import Lox.Syntax.Json
import Lox.Syntax.Sexp
import Lox.Text

/-!
# Command line

A call of the program names a source file to run, or none to read lines
interactively.  Options ask for the tokens or the syntax tree of the file instead of
a run.

**Arguments.** `Arguments.read` goes through the arguments from left to right and
stops at the first that settles the matter: a request for help, or a mistake.  The
value of an option and the name of a file are looked at when the next argument, or
the end, is reached.

**Answers.** `CommandLine.work` says what is written to the two output streams and
with which code the program ends; nothing but the file and the interactive input
decides it.
-/

namespace Lox

/-- Forms in which a syntax tree is written. -/
inductive TreeFormat where
  | sexp
  | json
  deriving DecidableEq, Repr

/-- The form with a given name. -/
def TreeFormat.ofName? : String → Option TreeFormat
  | "sexp" => some .sexp
  | "json" => some .json
  | _ => none

/-- What the arguments ask for. -/
structure Options where
  /-- The source file. -/
  file : Option String
  /-- Write the tokens instead of running. -/
  dumpTokens : Bool
  /-- Write the syntax tree instead of running. -/
  dumpTree : Bool
  /-- Form of the syntax tree; the symbolic form if none is given. -/
  treeFormat : Option TreeFormat
  /-- Report how long the run took. -/
  time : Bool
  /-- Report compile errors with the source text. -/
  fancy : Bool
  deriving DecidableEq, Repr

/-- The options of a call without arguments. -/
def Options.none : Options := ⟨.none, false, false, .none, false, false⟩

/-- What becomes of reading the arguments. -/
inductive Request where
  /-- The program is to do its work. -/
  | work (options : Options)
  /-- Help was asked for. -/
  | help
  /-- The arguments make no sense. -/
  | misuse

namespace Arguments

/-- An argument whose value is still to be looked at. -/
inductive Pending where
  /-- Nothing. -/
  | none
  /-- The form of the syntax tree, if its value was given. -/
  | treeFormat (value : Option String)
  /-- The source file. -/
  | file (name : String)

/-- State of reading arguments. -/
structure State where
  /-- What was asked for so far. -/
  options : Options
  /-- The last argument, if its value is still to be looked at. -/
  pending : Pending
  /-- A file was named. -/
  hasFile : Bool
  /-- The form of the syntax tree was asked for. -/
  hasFormat : Bool
  /-- All further arguments are names of files. -/
  onlyFiles : Bool

/-- Nothing read yet. -/
def State.initial : State := ⟨.none, .none, false, false, false⟩

/-- Looks at the value of the last argument; none if it makes no sense. -/
def State.settle (s : State) : Option State :=
  match s.pending with
  | .none => some s
  | .treeFormat .none => Option.none
  | .treeFormat (some value) =>
    (TreeFormat.ofName? value).map fun format =>
      { s with options := { s.options with treeFormat := some format }, pending := .none }
  | .file name =>
    if name.isEmpty then Option.none
    else some { s with options := { s.options with file := some name }, pending := .none }

/-- What one argument leads to. -/
inductive Step where
  | next (s : State)
  | help
  | misuse

/-- Settles the last argument and goes on. -/
def State.settling (s : State) (next : State → Step) : Step :=
  match s.settle with
  | .none => .misuse
  | some s => next s

/-- Takes an option that may be given once. -/
def State.flag (s : State) (isSet : Options → Bool) (set : Options → Options) : Step :=
  s.settling fun s =>
    if isSet s.options then .misuse else .next { s with options := set s.options }

/-- Takes the name of the file. -/
def State.name (s : State) (name : String) : Step :=
  s.settling fun s =>
    if s.hasFile then .misuse
    else .next { s with pending := .file name, hasFile := true }

/-- Takes the option for the form of the syntax tree, with its value if it is
attached. -/
def State.format (s : State) (value : Option String) : Step :=
  s.settling fun s =>
    if s.hasFormat then .misuse
    else .next { s with pending := .treeFormat value, hasFormat := true }

/-- Splits an argument at its first equals sign. -/
def splitValue (argument : String) : String × Option String :=
  let text := argument.toList
  match text.dropWhile (· ≠ '=') with
  | [] => (argument, .none)
  | _ :: value =>
    (String.ofList (text.takeWhile (· ≠ '=')), some (String.ofList value))

/-- Takes an argument that starts with two dashes. -/
def State.long (s : State) (argument : String) : Step :=
  match splitValue argument with
  | ("--dump-tokens", .none) => s.flag (·.dumpTokens) ({ · with dumpTokens := true })
  | ("--dump-ast", .none) => s.flag (·.dumpTree) ({ · with dumpTree := true })
  | ("--time", .none) => s.flag (·.time) ({ · with time := true })
  | ("--fancy", .none) => s.flag (·.fancy) ({ · with fancy := true })
  | ("--ast-format", value) => s.format value
  | ("--help", .none) => s.settling fun _ => .help
  | _ => .misuse

/-- Takes an argument that starts with one dash and goes on. -/
def State.short (s : State) (letters : List Char) : Step :=
  if letters.head? = some 'h' then s.settling fun _ => .help else .misuse

/-- Takes an argument that is no option: the awaited value of the last one, or the
name of a file. -/
def State.plain (s : State) (argument : String) : Step :=
  match s.pending with
  | .treeFormat .none => .next { s with pending := .treeFormat (some argument) }
  | _ => s.name argument

/-- Takes one argument. -/
def State.take (s : State) (argument : String) : Step :=
  if s.onlyFiles then s.name argument
  else
    match argument.toList with
    | ['-', '-'] => .next { s with onlyFiles := true }
    | '-' :: '-' :: _ => s.long argument
    | '-' :: c :: letters => s.short (c :: letters)
    | _ => s.plain argument

/-- Takes all arguments from left to right. -/
def readFrom (s : State) : List String → Request
  | [] =>
    match s.settle with
    | .none => .misuse
    | some s => .work s.options
  | argument :: arguments =>
    match s.take argument with
    | .next s => readFrom s arguments
    | .help => .help
    | .misuse => .misuse

/-- What the arguments ask for. -/
def read (arguments : List String) : Request := readFrom .initial arguments

end Arguments

/-- What is found under the name of a source file. -/
inductive FileContent where
  | text (source : String)
  | missing
  | directory
  | notText

/-- Why a source file cannot be read. -/
def FileContent.reason : FileContent → String
  | .text _ => ""
  | .missing => "No such file or directory (os error 2)"
  | .directory => "Is a directory (os error 21)"
  | .notText => "stream did not contain valid UTF-8"

/-- How a call of the program ends. -/
structure Answer where
  /-- The code for the caller. -/
  code : Nat
  /-- What is written to the first output stream. -/
  out : String
  /-- What is written to the second output stream. -/
  err : String
  /-- A report of the time taken follows on the second output stream. -/
  timed : Bool

/-- The whole text for the second output stream, once the time taken is known. -/
def Answer.errWithTime (answer : Answer) (time : String) : String :=
  if answer.timed then answer.err ++ "finished in " ++ time ++ "\n" else answer.err

namespace CommandLine

/-- Code of a call that went well. -/
def success : Nat := 0

/-- Code for arguments that make no sense. -/
def usageCode : Nat := 64

/-- Code for a source text that does not compile. -/
def dataCode : Nat := 65

/-- Code for a program that stops with an error. -/
def softwareCode : Nat := 70

/-- Code for a file that cannot be read. -/
def inputCode : Nat := 74

/-- Texts as lines. -/
def asLines (texts : List String) : String :=
  String.join (texts.map fun text => text.push '\n')

/-- The answer to a text that does not compile. -/
def refuse (errors : List CompileError) : Answer :=
  ⟨dataCode, "", asLines (errors.map CompileError.text), false⟩

/-- Writes the tokens of a source text. -/
def dumpTokens (source : String) : Answer :=
  match scan source with
  | .error errors => refuse errors
  | .ok tokens => ⟨success, asLines (tokens.map Token.display), "", false⟩

/-- A program in one of the forms, with a line feed at its end. -/
def treeText (program : Program) : TreeFormat → String
  | .sexp => program.sexp
  | .json => program.json.pretty.push '\n'

/-- Writes the syntax tree of a source text. -/
def dumpTree (format : TreeFormat) (source : String) : Answer :=
  match scan source with
  | .error errors => refuse errors
  | .ok tokens =>
    match Program.ofTokens tokens with
    | .error errors => refuse errors
    | .ok program => ⟨success, treeText program format, "", false⟩

/-- The code for the way a run ends. -/
def endingCode : Ending → Nat
  | .finished => success
  | .refused _ => dataCode
  | .failed _ => softwareCode
  | .exhausted => softwareCode

/-- Runs a source text. -/
def runSource (timed : Bool) (source : String) : Answer :=
  let (report, _) :=
    (Session.initial defaultMaxCallDepth .capturing).report unlimited source
  ⟨endingCode report.ending, asLines report.printed, asLines report.ending.reports, timed⟩

/-- Does what the options ask for with a source file. -/
def onFile (options : Options) (name : String) : FileContent → Answer
  | .text source =>
    if options.dumpTokens then dumpTokens source
    else if options.dumpTree then dumpTree (options.treeFormat.getD .sexp) source
    else runSource options.time source
  | content =>
    ⟨inputCode, "",
      "error: read source file '" ++ name ++ "': " ++ content.reason ++ "\n", false⟩

/-- The session that interactive input starts with. -/
def openSession : Session := .initial defaultMaxCallDepth .capturing

/-- Runs one line of interactive input.  Blank lines do nothing, and an error ends
only its line. -/
def respond (session : Session) (line : List Char) : Answer × Session :=
  let line := trim line
  if line.isEmpty then (⟨success, "", "", false⟩, session)
  else
    let (report, session) := session.report unlimited (String.ofList (Echo.wrap line))
    (⟨success, asLines report.printed, asLines report.ending.reports, false⟩, session)

/-- Runs lines of interactive input in order. -/
def respondAll (session : Session) : List (List Char) → Answer
  | [] => ⟨success, "", "", false⟩
  | line :: lines =>
    let (first, session) := respond session line
    let others := respondAll session lines
    ⟨success, first.out ++ others.out, first.err ++ others.err, false⟩

/-- Runs interactive input. -/
def interactive (input : String) : Answer :=
  respondAll openSession (splitLines input.toList)

/-- The answer to a call whose arguments ask for work. -/
def work (options : Options) (files : String → FileContent) (input : String) : Answer :=
  match options.file with
  | none => interactive input
  | some name => onFile options name (files name)

end CommandLine

end Lox
