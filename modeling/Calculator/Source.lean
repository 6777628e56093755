import Calculator.Ewe.Compiler
import Calculator.Expr.Evaluation
import Calculator.Expr.Parser

/-!
# Working on a source text

What can be asked of one expression given as text. A request starts with a new
memory unless one is given.
-/

namespace Calculator

def parse (source : String) : Except Error Expr := (Parser.ofString source).parse.1.map Subtree.expr

def calculate (source : String) : Except Error Int64 := do
  let e ← parse source
  e.calculate.mapError .arithmetic

/-- Evaluate against a memory that is already in use. -/
def calculateWith (source : String) (m : Memory) : Except Error Int64 × Memory :=
  match parse source with
  | .error e => (.error e, m)
  | .ok e =>
    let (value, m') := e.evaluate m
    (value.mapError .arithmetic, m')

/-- The code of an expression alone. -/
def compile (source : String) : Except Error String := do
  let e ← parse source
  return Ewe.render (Ewe.block e)

/-- A complete program for an expression. -/
def compileProgram (source : String) : Except Error String := do
  let e ← parse source
  return Ewe.render (Ewe.program e)

end Calculator
