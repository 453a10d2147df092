import Splice.Command

/-!
# `Splice.Main` — the program

Reads the command line, the file of variables and the input, and writes what `Splice.Command`
answers. The prompt answers each line as it comes.
-/

namespace Splice.Command

/-- The file of variables that the command line asks for, if it can be read. -/
def readContextFile (arguments : Arguments) : IO (Except FileError String) := do
  match arguments.contextFile with
  | none => return .error .missing
  | some path =>
    try
      return .ok (← IO.FS.readFile path)
    catch
      | .noFileOrDirectory .. => return .error .missing
      | error => return .error (.other (toString error))

/-- Writes an answer; the result says whether it was a value. -/
def Answer.write : Answer → IO Bool
  | shown text => do
    IO.println text
    return true
  | failed message => do
    IO.eprintln message
    return false

/-- Answers the lines of the input until it ends. -/
partial def prompt (context : Context) (showTree : Bool) : IO Unit := do
  let output ← IO.getStdout
  output.putStr promptText
  output.flush
  let line ← (← IO.getStdin).getLine
  match inputLines line with
  | [] => return ()
  | source :: _ =>
    let _ ← (answer context showTree source).write
    prompt context showTree

/-- Does what a command line asks for; the result is the exit code. -/
def execute (words : List String) : IO UInt32 := do
  match Arguments.read? words with
  | none => return exitUsage.toUInt32
  | some arguments =>
    let file ← readContextFile arguments
    match context (fun _ => file) arguments with
    | .error error =>
      IO.eprintln error.message
      return exitSetup.toUInt32
    | .ok context =>
      match arguments.expression with
      | none =>
        prompt context arguments.showTree
        return 0
      | some source =>
        if ← (answer context arguments.showTree source).write then return 0
        else return exitFailure.toUInt32

end Splice.Command

/-- The program. -/
def main (words : List String) : IO UInt32 := Splice.Command.execute words
