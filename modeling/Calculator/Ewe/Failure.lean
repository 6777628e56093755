import Calculator.Arithmetic

/-!
# Failures of EWE programs

A program fails at a line, either because the line cannot be read or because
its statement cannot be executed.
-/

namespace Calculator.Ewe

inductive Problem where
  | directive (text : String)
  | statement (text : String)
  | operand (text : String)
  /-- An address outside of the memory. -/
  | address (value : Int64)
  | arithmetic (fault : Fault)
  deriving DecidableEq, Repr

structure Failure where
  line : Nat
  problem : Problem
  deriving DecidableEq, Repr

def Problem.message : Problem → String
  | .directive text => "malformed directive `" ++ text ++ "`"
  | .statement text => "unrecognized statement `" ++ text ++ "`"
  | .operand text => "unrecognized operand `" ++ text ++ "`"
  | .address value =>
    "address " ++ String.ofList (Numeral.ofWord value) ++ " is outside machine memory"
  | .arithmetic fault => fault.message

def Failure.message (f : Failure) : String := s!"line {f.line}: " ++ f.problem.message

end Calculator.Ewe
