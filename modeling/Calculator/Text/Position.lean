/-!
# Positions in a source text

A position is a line and a column, both counted from one. A column counts
characters, whatever their width, and a line feed starts the next line.
-/

namespace Calculator

structure Position where
  line : Nat
  column : Nat
  deriving DecidableEq, Repr

namespace Position

/-- Where every text starts. -/
def start : Position := ⟨1, 1⟩

/-- The position after the character `c`. -/
def next (p : Position) (c : Char) : Position :=
  if c = '\n' then ⟨p.line + 1, 1⟩ else ⟨p.line, p.column + 1⟩

/-- The position after all of `cs`. -/
def skip (p : Position) (cs : List Char) : Position := cs.foldl next p

@[simp] theorem skip_nil (p : Position) : p.skip [] = p := rfl

@[simp] theorem skip_cons (p : Position) (c : Char) (cs : List Char) :
    p.skip (c :: cs) = (p.next c).skip cs := rfl

end Position

end Calculator
