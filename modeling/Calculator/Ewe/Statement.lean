import Calculator.Arithmetic

/-!
# Statements of the EWE machine

The machine works on a flat memory of words. A statement names memory by cells
of some type: by symbolic registers in code that is being written, by numbers
in code that is ready to run.
-/

namespace Calculator.Ewe

/-- Something that can be assigned to. -/
inductive Place (α : Type) where
  | cell (address : α)
  /-- The cell whose address is the value of `base` plus `offset`. -/
  | indirect (base : α) (offset : Int64)
  deriving DecidableEq, Repr

inductive Operand (α : Type) where
  | literal (value : Int64)
  | place (p : Place α)
  deriving DecidableEq, Repr

inductive Statement (α : Type) where
  | move (dst : Place α) (src : Operand α)
  | compute (dst : Place α) (lhs : Operand α) (op : Op) (rhs : Operand α)
  | writeInt (src : Operand α)
  | halt
  deriving DecidableEq, Repr

variable {α β : Type}

def Place.map (f : α → β) : Place α → Place β
  | .cell a => .cell (f a)
  | .indirect a k => .indirect (f a) k

def Operand.map (f : α → β) : Operand α → Operand β
  | .literal v => .literal v
  | .place p => .place (p.map f)

def Statement.map (f : α → β) : Statement α → Statement β
  | .move dst src => .move (dst.map f) (src.map f)
  | .compute dst lhs op rhs => .compute (dst.map f) (lhs.map f) op (rhs.map f)
  | .writeInt src => .writeInt (src.map f)
  | .halt => .halt

end Calculator.Ewe
