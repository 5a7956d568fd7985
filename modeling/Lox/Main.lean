import Lox.CommandLine

/-!
# The program

The outer layer: it reads the arguments, the source file and the interactive input,
and writes what `Lox.CommandLine` answers.
-/

namespace Lox

/-- The text of help. -/
def helpText : String :=
  "A tree-walking interpreter for a small Lox dialect\n\n" ++
  "Usage: lox [OPTIONS] [FILE]\n\n" ++
  "Arguments:\n" ++
  "  [FILE]  Source file to run (omit for REPL)\n\n" ++
  "Options:\n" ++
  "      --dump-tokens          Dump tokens and exit\n" ++
  "      --dump-ast             Dump AST and exit\n" ++
  "      --ast-format <FORMAT>  AST output format: sexp or json\n" ++
  "      --time                 Report how long the run took on stderr\n" ++
  "      --fancy                Render compile errors with source snippets\n" ++
  "  -h, --help                 Print help\n"

/-- What is found under the name of a source file. -/
def readFileContent (name : String) : IO FileContent := do
  try
    let bytes ← IO.FS.readBinFile name
    match String.fromUTF8? bytes with
    | some source => return .text source
    | none => return .notText
  catch
    | .inappropriateType .. => return .directory
    | _ => return .missing

/-- Runs lines from the standard input until it ends. -/
partial def converse (session : Session) : IO UInt32 := do
  let line ← (← IO.getStdin).getLine
  if line.isEmpty then return 0
  let (answer, session) := CommandLine.respond session line.toList
  IO.print answer.out
  IO.eprint answer.err
  converse session

/-- Does what the options ask for. -/
def perform (options : Options) : IO UInt32 := do
  match options.file with
  | none => converse CommandLine.openSession
  | some name =>
    let content ← readFileContent name
    let before ← IO.monoMsNow
    let answer := CommandLine.onFile options name content
    IO.print answer.out
    let after ← IO.monoMsNow
    IO.eprint (answer.errWithTime (toString (after - before) ++ "ms"))
    return answer.code.toUInt32

end Lox

/-- The program: its code tells the caller how the call ended. -/
def main (arguments : List String) : IO UInt32 := do
  match Lox.Arguments.read arguments with
  | .work options => Lox.perform options
  | .help =>
    IO.print Lox.helpText
    return 0
  | .misuse =>
    IO.eprint Lox.helpText
    return Lox.CommandLine.usageCode.toUInt32
