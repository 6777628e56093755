import Calculator.CommandLine.Answer
import Calculator.Text.WhiteSpace

/-!
# Whole runs

A run as a function of its arguments and its input. The input is bytes, and a
line of it is decoded when it is read: bytes that are no UTF-8 end the run at
their line and not before. What follows a prompt is said by `atLine` and `atEnd`,
for a run over given lines as well as for one that reads them as it goes on.
-/

namespace Calculator.CommandLine

open Event

/-- The lines of some bytes with their line feeds, when the bytes `seen`, newest
first, already belong to the first of them. -/
def byteLinesFrom (seen : List UInt8) : List UInt8 → List (List UInt8)
  | [] => if seen.isEmpty then [] else [seen.reverse]
  | b :: bs =>
    if b = 10 then (b :: seen).reverse :: byteLinesFrom [] bs else byteLinesFrom (b :: seen) bs

/-- The lines of an input, without a value where the bytes are no text. -/
def inputLines (bytes : List UInt8) : List (Option String) :=
  (byteLinesFrom [] bytes).map fun line => String.fromUTF8? ⟨line.toArray⟩

/-- Expressions are taken without the white space around them. -/
def trimmed (line : String) : String := String.ofList (Text.trim line.toList)

def unreadable : Event := errLine "failed to read input: stream did not contain valid UTF-8"

/-- What happened in a run. -/
structure Outcome where
  events : List Event
  exit : Nat := 0
  /-- The path and the text of the file that was written. -/
  file : Option (String × String) := none
  deriving DecidableEq, Repr

/-- What is left to do when everything is read. -/
inductive Finish where
  | exit (code : Nat)
  /-- Write a program, and run it if that is asked for. -/
  | write (text : String)
  deriving DecidableEq, Repr

namespace Options

def prompt (o : Options) : Event :=
  if o.interactive then .out "> "
  else if o.compile then .out "Expression to compile: "
  else .out "Enter expression: "

/-- The answer to the only line of a run. -/
def answerOne (o : Options) (line : String) : List Event × Finish :=
  if o.compile then
    match o.answerCompile (trimmed line) with
    | (events, .error report) => (events ++ [errLine report], .exit 1)
    | (events, .ok text) => (events, .write text)
  else
    let (events, exit) := o.answerSingle (trimmed line)
    (events, .exit exit)

/-- What follows a prompt when there is a line. A conversation goes on after it,
unless it is no text. -/
def atLine (o : Options) : Option String → List Event × Option Finish
  | none => ([unreadable], some (.exit 1))
  | some line =>
    if o.interactive then (o.answerTurn (trimmed line), none)
    else
      let (events, finish) := o.answerOne line
      (events, some finish)

/-- What follows a prompt when the input has ended. That counts as an empty line where
one line is needed. -/
def atEnd (o : Options) : List Event × Finish :=
  if o.interactive then ([.out "\n"], .exit 0) else o.answerOne ""

/-- The outcome of a run that finishes after some events. `write` attempts to write a
path and gives the reason if that fails. -/
def finished (o : Options) (write : String → Except String Unit) (events : List Event) :
    Finish → Outcome
  | .exit code => { events, exit := code }
  | .write text =>
    let attempt := write o.path
    let (more, exit) := o.answerWritten text attempt
    { events := events ++ more, exit,
      file := if attempt.isOk then some (o.path, text) else none }

/-- All events of a run, whether they are shown or not. -/
def runAll (o : Options) (write : String → Except String Unit) : List (Option String) → Outcome
  | [] =>
    let (events, finish) := o.atEnd
    o.finished write (o.prompt :: events) finish
  | line :: rest =>
    match o.atLine line with
    | (events, some finish) => o.finished write (o.prompt :: events) finish
    | (events, none) =>
      let after := o.runAll write rest
      { after with events := o.prompt :: events ++ after.events }

/-- The run as it is seen at the verbosity asked for. -/
def runShown (o : Options) (write : String → Except String Unit) (lines : List (Option String)) :
    Outcome :=
  let outcome := o.runAll write lines
  { outcome with events := outcome.events.filter (Event.isShown o.verbosity) }

end Options

def Stop.outcome : Stop → Outcome
  | .help => { events := [.out helpText] }
  | .version => { events := [.out versionText] }
  | .mistake m => { events := [errLine ("error: " ++ m.message), .err usageText], exit := 2 }

/-- A run with the given arguments and input. -/
def run (arguments : List String) (write : String → Except String Unit) (input : List UInt8) :
    Outcome :=
  match Options.read arguments with
  | .error stop => stop.outcome
  | .ok o => o.runShown write (inputLines input)

end Calculator.CommandLine
