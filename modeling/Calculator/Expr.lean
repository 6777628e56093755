import Calculator.Arithmetic

/-!
# Expressions

An expression works on words and on one memory cell: `memory` reads the cell,
and `store` writes the value of its operand there and has that value itself.
-/

namespace Calculator

inductive Expr where
  | number (value : Int64)
  | memory
  | negate (operand : Expr)
  | store (operand : Expr)
  | binary (op : Op) (lhs rhs : Expr)
  deriving DecidableEq, Repr

namespace Expr

/-- The number of levels of the tree; a leaf has one. -/
def height : Expr → Nat
  | number _ | memory => 1
  | negate e | store e => e.height + 1
  | binary _ l r => max l.height r.height + 1

/-- The S-expression of `e`, followed by `after`. -/
def sexpr (e : Expr) (after : List Char) : List Char :=
  match e with
  | number v => Numeral.ofWord v ++ after
  | memory => 'R' :: after
  | negate e => '(' :: '-' :: ' ' :: e.sexpr (')' :: after)
  | store e => '(' :: 'S' :: ' ' :: e.sexpr (')' :: after)
  | binary op l r => '(' :: op.symbol :: ' ' :: l.sexpr (' ' :: r.sexpr (')' :: after))

/-- The operator first form, such as `(+ (S 5) R)`. -/
def toString (e : Expr) : String := String.ofList (e.sexpr [])

end Expr

end Calculator
