import Calculator.CommandLine.Run

/-!
# The program

Reads lines, shows events and writes the compiled program. What to show is
decided by the modules this one calls.
-/

namespace Calculator

open CommandLine

/-- Write one event where it belongs. -/
def showEvent (verbosity : Nat) (e : Event) : IO Unit := do
  if e.isShown verbosity then
    match e with
    | .out text =>
      let out ← IO.getStdout
      out.putStr text
      out.flush
    | .err text => (← IO.getStderr).putStr text
    | .log level text => (← IO.getStderr).putStrLn (level.name ++ " " ++ text)

def showEvents (verbosity : Nat) (events : List Event) : IO Unit :=
  events.forM (showEvent verbosity)

/-- Read the bytes of a line with its line feed. -/
partial def readBytes (seen : ByteArray) : IO ByteArray := do
  let next ← (← IO.getStdin).read 1
  if next.isEmpty then return seen
  let seen := seen ++ next
  if next.toList = [10] then return seen else readBytes seen

/-- Read a line, or say that the input has ended. -/
def readLine : IO (Option (Option String)) := do
  let bytes ← readBytes .empty
  if bytes.isEmpty then return none else return some (String.fromUTF8? bytes)

/-- Why a file could not be written. -/
def refusal : IO.Error → String
  | .noFileOrDirectory _ code details => s!"{details} (os error {code})"
  | .inappropriateType _ code details => s!"{details} (os error {code})"
  | .permissionDenied _ code details => s!"{details} (os error {code})"
  | .resourceExhausted _ code details => s!"{details} (os error {code})"
  | .invalidArgument _ code details => s!"{details} (os error {code})"
  | e => toString e

def attemptWrite (path text : String) : IO (Except String Unit) := do
  try
    IO.FS.writeFile path text
    return .ok ()
  catch e => return .error (refusal e)

/-- Do what is left to do. The result is the exit code. -/
def finish (o : Options) : Finish → IO Nat
  | .exit code => return code
  | .write text => do
    let (events, exit) := o.answerWritten text (← attemptWrite o.path text)
    showEvents o.verbosity events
    return exit

/-- Ask for a line, and for more of them as long as the run goes on. -/
partial def interact (o : Options) : IO Nat := do
  showEvent o.verbosity o.prompt
  let (events, next) :=
    match ← readLine with
    | none => o.atEnd.map id some
    | some line => o.atLine line
  showEvents o.verbosity events
  match next with
  | some rest => finish o rest
  | none => interact o

end Calculator

open Calculator in
def main (arguments : List String) : IO UInt32 := do
  match CommandLine.Options.read arguments with
  | .error stop =>
    showEvents 0 stop.outcome.events
    return stop.outcome.exit.toUInt32
  | .ok o =>
    return (← interact o).toUInt32
