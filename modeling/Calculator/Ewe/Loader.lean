import Calculator.Ewe.Failure
import Calculator.Ewe.Statement
import Calculator.Text.Cut
import Calculator.Text.Line
import Calculator.Text.WhiteSpace

/-!
# Loading EWE programs

A program text is read completely before anything runs. All definitions of
names are read first, wherever they stand, and the last one of a name holds;
then every other line is read as a statement. Blank lines and lines that start
with `#` are skipped.
-/

namespace Calculator.Ewe

open Text

/-- The cells that names stand for. -/
structure Aliases where
  entries : List (List Char × Nat) := []
  deriving DecidableEq, Repr

namespace Aliases

def find? (t : Aliases) (name : List Char) : Option Nat := t.entries.lookup name

/-- Let `name` stand for `address` from now on. -/
def insert (t : Aliases) (name : List Char) (address : Nat) : Aliases :=
  ⟨(name, address) :: t.entries.filter (·.1 ≠ name)⟩

def size (t : Aliases) : Nat := t.entries.length

end Aliases

/-- The number of a line and its text. -/
abbrev CodeLine := Nat × List Char

/-- The trimmed lines that say something, with their numbers. -/
def codeLines (text : List Char) : List CodeLine :=
  ((lines text).zipIdx 1).filterMap fun (line, n) =>
    match trim line with
    | [] => none
    | '#' :: _ => none
    | cs => some (n, cs)

/-! ## Operands -/

/-- The text between the brackets of a memory reference. -/
def reference? (text : List Char) : Option (List Char) :=
  ((dropLead? ['M', '['] text).bind (dropLast? ']')).map trim

/-- The address in a reference to a fixed cell. -/
def address? (text : List Char) : Option Nat := (reference? text).bind Numeral.unsigned?

def isSign (c : Char) : Bool := c == '+' || c == '-'

/-- A name with an optional offset, which has a sign. -/
def indirect? (aliases : Aliases) (text : List Char) : Option (Place Nat) :=
  match text.dropWhile fun c => !isSign c with
  | [] => (aliases.find? text).map (.indirect · 0)
  | offset => do
    let base ← aliases.find? (trim (text.takeWhile fun c => !isSign c))
    let k ← Numeral.signed? (trim offset)
    return .indirect base k

def place (aliases : Aliases) (text : List Char) : Except Problem (Place Nat) :=
  let found :=
    match address? text with
    | some a => some (.cell a)
    | none =>
      match reference? text with
      | some inner => indirect? aliases inner
      | none => (aliases.find? text).map .cell
  match found with
  | some p => .ok p
  | none => .error (.operand (String.ofList text))

def operand (aliases : Aliases) (text : List Char) : Except Problem (Operand Nat) :=
  match Numeral.signed? text with
  | some v => .ok (.literal v)
  | none => (place aliases text).map .place

/-- The left side of an assignment, where no number may stand. -/
def target (aliases : Aliases) (text : List Char) : Except Problem (Place Nat) :=
  match Numeral.signed? text with
  | some _ => .error (.operand (String.ofList text))
  | none => place aliases text

/-! ## Statements -/

def isLabelChar (c : Char) : Bool := c.isAlphanum || c == '_'

/-- The statement behind a label, or the whole text if there is none. The colon
of an assignment ends no label. -/
def unlabelled (text : List Char) : List Char :=
  let label := text.takeWhile (· ≠ ':')
  match text.dropWhile (· ≠ ':') with
  | [] => text
  | _ :: rest =>
    if !label.isEmpty && label.all isLabelChar && rest.head? ≠ some '=' then trim rest else text

/-- The two sides of the first `:=`. -/
def sides? : List Char → Option (List Char × List Char)
  | [] => none
  | ':' :: '=' :: cs => some ([], cs)
  | c :: cs => (sides? cs).map fun (l, r) => (c :: l, r)

/-- What stands between the parentheses of `writeInt`. -/
def written? (text : List Char) : Option (List Char) :=
  (dropLead? "writeInt(".toList text).bind (dropLast? ')')

def statement (aliases : Aliases) (text : List Char) : Except Problem (Statement Nat) :=
  if text = "halt".toList then .ok .halt
  else
    match written? text with
    | some inner => (operand aliases (trim inner)).map .writeInt
    | none =>
      match sides? text with
      | none => .error (.statement (String.ofList text))
      | some (left, right) => do
        let dst ← target aliases (trim left)
        match words right with
        | [src] => return .move dst (← operand aliases src)
        | [lhs, symbol, rhs] =>
          match Op.ofSymbol? symbol with
          | none => .error (.statement (String.ofList text))
          | some op => return .compute dst (← operand aliases lhs) op (← operand aliases rhs)
        | _ => .error (.statement (String.ofList text))

/-! ## Programs -/

/-- What follows the word that starts a definition. -/
def definition? (text : List Char) : Option (List Char) := dropLead? "equ ".toList text

/-- The name and the cell of a definition. -/
def binding? (text : List Char) : Option (List Char × Nat) :=
  match words text with
  | [name, cell] => (address? cell).map (name, ·)
  | _ => none

/-- Add the definitions in `ls` to those in `t`. -/
def collectAliases (t : Aliases) : List CodeLine → Except Failure Aliases
  | [] => .ok t
  | (n, text) :: ls =>
    match definition? text with
    | none => collectAliases t ls
    | some rest =>
      match binding? rest with
      | none => .error ⟨n, .directive (String.ofList text)⟩
      | some (name, address) => collectAliases (t.insert name address) ls

/-- The statements in `ls`, each with the number of its line. -/
def collectStatements (aliases : Aliases) :
    List CodeLine → Except Failure (List (Nat × Statement Nat))
  | [] => .ok []
  | (n, text) :: ls =>
    match definition? text with
    | some _ => collectStatements aliases ls
    | none =>
      match statement aliases (unlabelled text) with
      | .error problem => .error ⟨n, problem⟩
      | .ok s => (collectStatements aliases ls).map ((n, s) :: ·)

/-- A program that is ready to run. -/
structure Program where
  aliases : Aliases
  statements : List (Nat × Statement Nat)
  deriving DecidableEq, Repr

def load (text : String) : Except Failure Program := do
  let ls := codeLines text.toList
  let aliases ← collectAliases {} ls
  let statements ← collectStatements aliases ls
  return { aliases, statements }

end Calculator.Ewe
