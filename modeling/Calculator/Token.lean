import Calculator.Arithmetic
import Calculator.Text.Position

/-!
# Tokens

A token has a kind, the position of its first character and, for words and
numbers, its text.
-/

namespace Calculator

inductive Token.Kind where
  | identifier
  | number
  | keyword
  | operator (op : Op)
  | openParen
  | closeParen
  | eof
  deriving DecidableEq, Repr

/-- The name of a kind in token listings. -/
def Token.Kind.label : Token.Kind → String
  | .identifier => "Identifier"
  | .number => "Number"
  | .keyword => "Keyword"
  | .operator .add => "Add"
  | .operator .sub => "Sub"
  | .operator .mul => "Times"
  | .operator .div => "Divide"
  | .operator .mod => "Mod"
  | .openParen => "LParen"
  | .closeParen => "RParen"
  | .eof => "Eof"

structure Token where
  kind : Token.Kind
  position : Position
  /-- The text of an identifier, a number or a keyword. -/
  lexeme : Option String := none
  deriving DecidableEq, Repr

namespace Token

/-- The keyword spelled exactly `word`. -/
def isKeyword (t : Token) (word : String) : Bool :=
  t.kind == .keyword && t.lexeme == some word

/-- The text of the token, which is empty where none is kept. -/
def text (t : Token) : String := t.lexeme.getD ""

/-- How diagnostics name the token. -/
def describe (t : Token) : String :=
  match t.kind with
  | .identifier => "identifier \"" ++ t.text ++ "\""
  | .number | .keyword => "\"" ++ t.text ++ "\""
  | .operator op => "\"" ++ op.symbol.toString ++ "\""
  | .openParen => "\"(\""
  | .closeParen => "\")\""
  | .eof => "EOF"

/-- How much of the input the token takes up: the end takes up nothing. -/
def weight (t : Token) : Nat := if t.kind = .eof then 0 else 1

end Token

end Calculator
