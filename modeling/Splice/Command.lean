import Splice.Eval

/-!
# `Splice.Command` — the command line

An expression from the command line is evaluated, or printed as a tree. Its variables come from a
file of structured data and from definitions. Without an expression, a prompt reads one from every
line.

## Contents
- `Arguments`, `Arguments.read?`: what the command line asks for.
- `SetupError`, `context`: the variables, and why there are none.
- `answer`, `Response`: what is written for an expression.
- `converse`, `run`: what is written for a command line, given the contents of files and the input.
-/

namespace Splice.Command

/-- What the command line asks for. -/
structure Arguments where
  contextFile : Option String
  definitions : List String
  /-- Trees are printed and nothing is evaluated. -/
  showTree : Bool
  expression : Option String

namespace Arguments

/-- Nothing is asked for. -/
def nothing : Arguments :=
  { contextFile := none, definitions := [], showTree := false, expression := none }

/-- Asks for a file. There is at most one. -/
def addFile? (a : Arguments) (path : String) : Option Arguments :=
  if a.contextFile.isSome then none else some { a with contextFile := some path }

/-- Asks for one more definition. -/
def addDefinition (a : Arguments) (definition : String) : Arguments :=
  { a with definitions := a.definitions ++ [definition] }

/-- Asks for trees. -/
def addShowTree? (a : Arguments) : Option Arguments :=
  if a.showTree then none else some { a with showTree := true }

/-- Asks for an expression. There is at most one. -/
def addExpression? (a : Arguments) (source : String) : Option Arguments :=
  if a.expression.isSome then none else some { a with expression := some source }

/-- Asks for a word that is no option. -/
def addWord? (a : Arguments) (word : String) : Option Arguments :=
  if word = "--ast" then a.addShowTree?
  else if "-".isPrefixOf word && word.length != 1 then none
  else a.addExpression? word

end Arguments

/-- An option with a value. -/
inductive ValueOption where
  | contextFile
  | definition
  deriving DecidableEq

/-- The word that an option is given with, and the short one, to which its value may be joined. -/
def ValueOption.words : ValueOption → List Char × List Char
  | contextFile => ("--context".toList, "-c".toList)
  | definition => ("--define".toList, "-D".toList)

/-- Asks for what an option says. -/
def ValueOption.add? (option : ValueOption) (a : Arguments) (value : String) : Option Arguments :=
  match option with
  | contextFile => a.addFile? value
  | definition => some (a.addDefinition value)

/-- What follows `start` in `word`, if it starts with it. -/
def after? (start word : List Char) : Option (List Char) :=
  if start.isPrefixOf word then some (word.drop start.length) else none

/-- Whether a word gives an option, and the value that is joined to it. Equality signs before the
value do not count. -/
def ValueOption.joined? (option : ValueOption) (word : List Char) : Option (Option String) :=
  let value (cs : List Char) : String := String.ofList (cs.dropWhile (· == '='))
  match after? option.words.1 word with
  | some [] => some none
  | some ('=' :: cs) => some (some (value cs))
  | _ =>
    match after? option.words.2 word with
    | some [] => some none
    | some cs => some (some (value cs))
    | none => none

/-- The option that a word gives, and the value that is joined to it. -/
def option? (word : String) : Option (ValueOption × Option String) :=
  [ValueOption.contextFile, .definition].findSome? fun option =>
    (option.joined? word.toList).map fun value => (option, value)

/-- What the words of a command line ask for, after what was asked for already; absent if they are
against the rules. -/
def Arguments.readFrom? (a : Arguments) : List String → Option Arguments
  | [] => some a
  | word :: rest =>
    match option? word, rest with
    | some (option, some value), rest => (option.add? a value).bind (readFrom? · rest)
    | some (option, none), value :: rest => (option.add? a value).bind (readFrom? · rest)
    | some (_, none), [] => none
    | none, rest => (a.addWord? word).bind (readFrom? · rest)

/-- What the words of a command line ask for. -/
def Arguments.read? (words : List String) : Option Arguments := Arguments.nothing.readFrom? words

/-! ## The variables -/

/-- Why a file cannot be read. -/
inductive FileError where
  | missing
  | other (description : String)

/-- The wording of a file's error. -/
def FileError.message : FileError → String
  | missing => "No such file or directory (os error 2)"
  | other description => description

/-- Why there are no variables. -/
inductive SetupError where
  | unreadable (path : String) (error : FileError)
  | malformed (path : String) (error : Json.Error)
  | notAnObject (path : String)
  | notADefinition (text : String)

/-- The wording of the error. -/
def SetupError.message : SetupError → String
  | unreadable path error => s!"Could not read context file '{path}': {error.message}"
  | malformed path error => s!"Context file '{path}' is not valid JSON: {error.message}"
  | notAnObject path => s!"Context file '{path}' must hold a JSON object"
  | notADefinition text => s!"Expected NAME=VALUE, found '{text}'"

/-- The name of the scope of the variables. -/
def scopeName : String := "context"

/-- The variables of a file. -/
def ofFile (readFile : String → Except FileError String) (path : String) :
    Except SetupError Context := do
  let text ← (readFile path).mapError (SetupError.unreadable path)
  let json ← (Json.read text).mapError (SetupError.malformed path)
  match Context.ofJson? scopeName json with
  | some context => return context
  | none => throw (.notAnObject path)

/-- The value that a definition gives: structured data if it can be read, else text. -/
def definedValue (text : String) : Value :=
  match Json.read text with
  | .ok json => .ofJson json
  | .error _ => .text text

/-- Adds the variable of a definition. Blanks around its name do not count. -/
def define (context : Context) (definition : String) : Except SetupError Context :=
  let cs := definition.toList
  match cs.dropWhile (· != '=') with
  | [] => .error (.notADefinition definition)
  | _ :: value =>
    let name := Text.trim (cs.takeWhile (· != '='))
    .ok (context.define (String.ofList name) (definedValue (String.ofList value)))

/-- The variables: those of the file first, and then the definitions in order. -/
def context (readFile : String → Except FileError String) (arguments : Arguments) :
    Except SetupError Context := do
  let initial ← match arguments.contextFile with
    | some path => ofFile readFile path
    | none => pure (Context.new scopeName)
  arguments.definitions.foldlM define initial

/-! ## Answers -/

/-- What is written for one expression: a line to the output, or one to the errors. -/
inductive Answer where
  | shown (text : String)
  | failed (message : String)

/-- The answer to an expression: its tree or its value. -/
def answer (context : Context) (showTree : Bool) (source : String) : Answer :=
  if showTree then
    match Node.read source with
    | .ok node => .shown node.print
    | .error error => .failed error.message
  else
    match (evaluate Host.empty (some context) source Journal.new).1 with
    | .ok v => .shown v.display
    | .error failure => .failed failure.message

/-- What a run leaves behind. -/
structure Response where
  exitCode : Nat
  output : String
  errors : String

/-- The exit code for an expression without a value. -/
def exitFailure : Nat := 65

/-- The exit code for variables that cannot be set up. -/
def exitSetup : Nat := 66

/-- The exit code for a command line that is against the rules. -/
def exitUsage : Nat := 1

/-- What the prompt shows before it reads a line. -/
def promptText : String := "> "

/-- What a line adds to the output and to the errors. -/
def Answer.lines : Answer → String × String
  | shown text => (text ++ "\n", "")
  | failed message => ("", message ++ "\n")

/-- What the prompt writes: an answer to every line of the input. -/
def converse (context : Context) (showTree : Bool) : List String → Response
  | [] => { exitCode := 0, output := promptText, errors := "" }
  | line :: rest =>
    let (output, errors) := (answer context showTree line).lines
    let later := converse context showTree rest
    { exitCode := 0
      output := promptText ++ output ++ later.output
      errors := errors ++ later.errors }

/-- The lines of a text; a carriage return before the end of a line does not count. -/
def inputLines (input : String) : List String :=
  match (Text.splitOn '\n' input.toList).reverse with
  | [] => []
  | last :: ended =>
    let line (cs : List Char) : List Char := if cs.getLast? = some '\r' then cs.dropLast else cs
    ((if last.isEmpty then [] else [last]) ++ ended.map line).reverse.map String.ofList

/-- What is written for a command line, given the contents of the files and the input. -/
def run (readFile : String → Except FileError String) (input : String) (words : List String) :
    Response :=
  match Arguments.read? words with
  | none => { exitCode := exitUsage, output := "", errors := "" }
  | some arguments =>
    match context readFile arguments with
    | .error error => { exitCode := exitSetup, output := "", errors := error.message ++ "\n" }
    | .ok context =>
      match arguments.expression with
      | none => converse context arguments.showTree (inputLines input)
      | some source =>
        match answer context arguments.showTree source with
        | .shown text => { exitCode := 0, output := text ++ "\n", errors := "" }
        | .failed message => { exitCode := exitFailure, output := "", errors := message ++ "\n" }

end Splice.Command
