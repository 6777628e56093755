import Calculator.Ewe.Statement

/-!
# EWE assembly

Code is written with symbolic registers, one line for each statement, comment
or register definition.
-/

namespace Calculator.Ewe

inductive Register where
  | tmp | tmp2 | negateNum | uno | tres | mem | sp | stack
  deriving DecidableEq, Repr

namespace Register

def name : Register → String
  | tmp => "tmp"
  | tmp2 => "tmp2"
  | negateNum => "negateNum"
  | uno => "uno"
  | tres => "tres"
  | mem => "mem"
  | sp => "sp"
  | stack => "stack"

/-- The cell that holds the register. -/
def address : Register → Nat
  | tmp => 0
  | tmp2 => 1
  | negateNum => 2
  | uno => 3
  | tres => 4
  | mem => 5
  | sp => 6
  | stack => 7

/-- Every register, in the order of the cells. -/
def all : List Register := [tmp, tmp2, negateNum, uno, tres, mem, sp, stack]

end Register

inductive Line where
  | comment (text : String)
  | code (s : Statement Register)
  /-- A statement with a label in front of it. -/
  | labelled (label : String) (s : Statement Register)
  /-- The definition of a register. -/
  | equ (r : Register)
  deriving DecidableEq, Repr

/-! ## The text of a line -/

/-- An offset is written with its sign. -/
def offsetText (k : Int64) : List Char :=
  if k < 0 then Numeral.ofWord k else '+' :: Numeral.ofWord k

def cellText (a : Nat) : List Char := 'M' :: '[' :: Numeral.ofNat a ++ [']']

def Place.text : Place Register → List Char
  | .cell r => r.name.toList
  | .indirect r k => 'M' :: '[' :: r.name.toList ++ offsetText k ++ [']']

def Operand.text : Operand Register → List Char
  | .literal v => Numeral.ofWord v
  | .place p => p.text

def Statement.text : Statement Register → List Char
  | .move dst src => dst.text ++ " := ".toList ++ src.text
  | .compute dst lhs op rhs =>
    dst.text ++ " := ".toList ++ lhs.text ++ [' ', op.symbol, ' '] ++ rhs.text
  | .writeInt src => "writeInt(".toList ++ src.text ++ [')']
  | .halt => "halt".toList

/-- `cs` with blanks up to the width `n`. -/
def pad (n : Nat) (cs : List Char) : List Char := cs ++ List.replicate (n - cs.length) ' '

/-- Statements are indented by five columns, and the names of registers are
padded to ten. -/
def Line.text : Line → List Char
  | .comment text => '#' :: text.toList
  | .code s => "     ".toList ++ s.text
  | .labelled label s => label.toList ++ ": ".toList ++ s.text
  | .equ r => "equ ".toList ++ pad 10 r.name.toList ++ cellText r.address

/-- The text of some lines, each of which ends in a line feed. -/
def render (ls : List Line) : String := String.ofList (ls.flatMap fun l => l.text ++ ['\n'])

end Calculator.Ewe
