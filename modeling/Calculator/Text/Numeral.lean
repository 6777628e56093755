/-!
# Decimal numerals

Reading is exact: a numeral is an optional sign and at least one ASCII digit,
and its value has to fit the type that is asked for. Writing gives the shortest
numeral, with a minus sign for negative numbers only.
-/

namespace Calculator.Numeral

/-- The value of one digit. -/
def digit (c : Char) : Nat := c.toNat - '0'.toNat

/-- The number that a run of digits stands for. -/
def natural? (cs : List Char) : Option Nat :=
  if !cs.isEmpty && cs.all Char.isDigit then some (cs.foldl (fun n c => 10 * n + digit c) 0)
  else none

/-- The number that digits with an optional sign stand for. -/
def integer? : List Char → Option Int
  | '+' :: cs => (natural? cs).map Int.ofNat
  | '-' :: cs => (natural? cs).map fun n => -Int.ofNat n
  | cs => (natural? cs).map Int.ofNat

/-- The word that holds `n`, if one does. -/
def word? (n : Int) : Option Int64 :=
  if Int64.minValue.toInt ≤ n ∧ n ≤ Int64.maxValue.toInt then some (Int64.ofInt n) else none

/-- Read a signed number of 64 bits. -/
def signed? (cs : List Char) : Option Int64 := (integer? cs).bind word?

/-- Read an unsigned number of 64 bits, which may have a plus sign. -/
def unsigned? (cs : List Char) : Option Nat :=
  let digits := match cs with
    | '+' :: ds => ds
    | ds => ds
  (natural? digits).filter (· < UInt64.size)

/-- The decimal digits of `n`. -/
def ofNat (n : Nat) : List Char := Nat.toDigits 10 n

def ofInt : Int → List Char
  | .ofNat n => ofNat n
  | .negSucc n => '-' :: ofNat (n + 1)

def ofWord (v : Int64) : List Char := ofInt v.toInt

end Calculator.Numeral
