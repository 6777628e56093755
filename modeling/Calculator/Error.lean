import Calculator.Arithmetic
import Calculator.Text.Line
import Calculator.Text.Position

/-!
# Errors of an expression

An expression is rejected for a character that starts no token, for a token
that does not fit, or for a fault of its arithmetic. The first two have a
position, and a report shows the line and marks the column.
-/

namespace Calculator

/-- A broken rule of use between a reader and its token source. No rejection of
an expression is one: whatever the text, a parser keeps these rules. -/
inductive Breach where
  /-- A token was pushed back while another one was waiting to be read again. This is
  an assertion of debug builds. Without it, the call has no effect. -/
  | tokenPending
  /-- A token was pushed back before one had been read. -/
  | nothingRead
  /-- Parentheses were left that had not been entered. -/
  | notNested
  deriving DecidableEq, Repr

def Breach.message : Breach → String
  | .tokenPending => "push_back called twice without an intervening next_token"
  | .nothingRead => "no token to push back"
  | .notNested => "no parentheses to leave"

inductive Error where
  /-- A character that no token starts with. -/
  | unrecognized (position : Position) (found : Char)
  /-- A token that does not fit where it stands. -/
  | unexpected (position : Position) (expected found : String)
  | arithmetic (fault : Fault)
  | breach (rule : Breach)
  deriving DecidableEq, Repr

namespace Error

def position? : Error → Option Position
  | .unrecognized p _ => some p
  | .unexpected p _ _ => some p
  | .arithmetic _ => none
  | .breach _ => none

def message : Error → String
  | .unrecognized p c => s!"{p.line}:{p.column}: unrecognized character '{c}'"
  | .unexpected p expected found => s!"{p.line}:{p.column}: expected {expected}, but got {found}"
  | .arithmetic fault => "arithmetic error: " ++ fault.message
  | .breach rule => rule.message

/-- The message under the line it speaks of, with a caret below the column. A
line past the end of the text is empty, and a column past the end of its line
is the column just after the line. -/
def report (e : Error) (source : String) : String :=
  match e.position? with
  | none => e.message
  | some p =>
    let line := (Text.lines source.toList)[p.line - 1]?.getD []
    let indent := min (p.column - 1) line.length + 1
    String.ofList ('\'' :: line ++ ['\'', '\n'] ++ List.replicate indent ' ') ++ "^ " ++ e.message

end Error

end Calculator
