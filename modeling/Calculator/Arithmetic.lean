import Calculator.Text.Numeral

/-!
# Arithmetic on words

Values are signed words of 64 bits. Every operation is computed on integers of
any size and then has to fit a word again, so a result is either exact or a
fault. Division rounds towards negative infinity, and the remainder has the
sign of the divisor.
-/

namespace Calculator

/-- Why an operation has no result. -/
inductive Fault where
  | divisionByZero
  | moduloByZero
  | overflow
  deriving DecidableEq, Repr

def Fault.message : Fault → String
  | .divisionByZero => "division by zero"
  | .moduloByZero => "modulo by zero"
  | .overflow => "integer overflow"

/-- The word that holds `n`; there is none outside the range. -/
def narrow (n : Int) : Except Fault Int64 :=
  match Numeral.word? n with
  | some v => .ok v
  | none => .error .overflow

/-- The negation of `v`, which overflows for the smallest word only. -/
def negated (v : Int64) : Except Fault Int64 := narrow (-v.toInt)

inductive Op where
  | add | sub | mul | div | mod
  deriving DecidableEq, Repr

namespace Op

def symbol : Op → Char
  | .add => '+'
  | .sub => '-'
  | .mul => '*'
  | .div => '/'
  | .mod => '%'

def ofChar? : Char → Option Op
  | '+' => some .add
  | '-' => some .sub
  | '*' => some .mul
  | '/' => some .div
  | '%' => some .mod
  | _ => none

/-- The operator written as the whole of a text. -/
def ofSymbol? : List Char → Option Op
  | [c] => ofChar? c
  | _ => none

def apply (op : Op) (l r : Int64) : Except Fault Int64 :=
  match op with
  | .add => narrow (l.toInt + r.toInt)
  | .sub => narrow (l.toInt - r.toInt)
  | .mul => narrow (l.toInt * r.toInt)
  | .div => if r = 0 then .error .divisionByZero else narrow (l.toInt.fdiv r.toInt)
  | .mod => if r = 0 then .error .moduloByZero else narrow (l.toInt.fmod r.toInt)

@[simp] theorem ofChar?_symbol (op : Op) : ofChar? op.symbol = some op := by cases op <;> rfl

end Op

end Calculator
