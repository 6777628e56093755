import Calculator.CommandLine.Event
import Calculator.CommandLine.Options
import Calculator.Ewe.Machine
import Calculator.Source

/-!
# Answering one line

What a run shows for one line of its input. Every line is worked on with a new
memory. A listing of the tokens comes before anything else is tried, and only
if the whole line has tokens.
-/

namespace Calculator.CommandLine

open Event

def wordText (v : Int64) : String := String.ofList (Numeral.ofWord v)

/-! ## The steps of an answer -/

def logScanned (ts : List Token) : List Event :=
  ts.map fun t => .log .trace
    s!"scanned token kind={t.kind.label} line={t.position.line} column={t.position.column}"

def tokenLine (t : Token) : String :=
  s!"{t.position.line}:{t.position.column} {t.kind.label} {t.text}"

/-- List the tokens of a line. -/
def listTokens (line : String) : List Event × Option Error :=
  match (Lexer.ofString line).drain with
  | (ts, none) => (logScanned ts ++ ts.map fun t => outLine (tokenLine t), none)
  | (ts, some e) => (logScanned ts, some e)

def parseLine (line : String) : List Event × Except Error Expr :=
  let (r, p) := (Parser.ofString line).parse
  let scanned := logScanned p.lexer.scanned.reverse
  match r with
  | .ok tree => (scanned ++ [.log .debug s!"parsed expression height={tree.height}"], .ok tree.expr)
  | .error e => (scanned, .error e)

def evaluateExpr (e : Expr) : List Event × Except Error Int64 :=
  let (r, m) := e.evaluate {}
  let stored := m.history.reverse.map fun v =>
    Event.log .trace ("storing to memory value=" ++ wordText v)
  match r with
  | .ok v => (stored ++ [.log .debug ("evaluated expression value=" ++ wordText v)], .ok v)
  | .error f => (stored, .error (.arithmetic f))

namespace Options

/-- Read an expression and show what was asked for on the way. -/
def readExpr (o : Options) (line : String) : List Event × Except Error Expr :=
  match if o.tokens then listTokens line else ([], none) with
  | (listing, some e) => (listing, .error e)
  | (listing, none) =>
    match parseLine line with
    | (parsing, .error e) => (listing ++ parsing, .error e)
    | (parsing, .ok e) =>
      (listing ++ parsing ++ (if o.ast then [outLine e.toString] else []), .ok e)

def calculateLine (o : Options) (line : String) : List Event × Except Error Int64 :=
  match o.readExpr line with
  | (reading, .error e) => (reading, .error e)
  | (reading, .ok e) =>
    let (evaluating, r) := evaluateExpr e
    (reading ++ evaluating, r)

/-! ## Answers -/

/-- Without a mode, the one line has to have a value. The number is the exit code. -/
def answerSingle (o : Options) (line : String) : List Event × Nat :=
  match o.calculateLine line with
  | (events, .ok v) => (events ++ [outLine ("The result is " ++ wordText v)], 0)
  | (events, .error e) => (events ++ [errLine (e.report line)], 1)

/-- In a conversation, blank lines are passed over and errors end nothing. -/
def answerTurn (o : Options) (line : String) : List Event :=
  if line.isEmpty then []
  else
    match o.calculateLine line with
    | (events, .ok v) => events ++ [outLine ("= " ++ wordText v)]
    | (events, .error e) =>
      events ++ [.log .debug ("expression rejected error=" ++ e.message), errLine (e.report line)]

/-- A line to compile: the program, or the report of why there is none. -/
def answerCompile (o : Options) (line : String) : List Event × Except String String :=
  match o.readExpr line with
  | (events, .ok e) => (events, .ok (Ewe.render (Ewe.program e)))
  | (events, .error e) => (events, .error (e.report line))

/-- Run a program that was just written. -/
def runProgram (text : String) : List Event × Nat :=
  match Ewe.load text with
  | .error f => ([errLine ("failed to run program: " ++ f.message)], 1)
  | .ok p =>
    let loaded := Event.log .debug
      s!"loaded EWE program statements={p.statements.length} aliases={p.aliases.size}"
    match p.run with
    | .error f => ([loaded, errLine ("failed to run program: " ++ f.message)], 1)
    | .ok vs => (loaded :: vs.map fun v => outLine ("= " ++ wordText v), 0)

/-- What follows an attempt to write the program, which may have been refused. -/
def answerWritten (o : Options) (text : String) : Except String Unit → List Event × Nat
  | .error reason => ([errLine ("failed to write " ++ o.path ++ ": " ++ reason)], 1)
  | .ok () =>
    let written := [.log .info ("wrote EWE program path=" ++ o.path), outLine ("wrote " ++ o.path)]
    if o.run then
      let (events, exit) := runProgram text
      (written ++ events, exit)
    else (written, 0)

end Options

end Calculator.CommandLine
