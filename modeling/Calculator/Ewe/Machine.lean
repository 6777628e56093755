import Calculator.Ewe.Loader

/-!
# Running EWE programs

The machine has 65536 words, all of them zero at first. Addresses are computed
in 64 bits and stay at the largest or smallest word when they would leave that
range. A statement returns the machine also when it fails.
-/

namespace Calculator.Ewe

/-- The number of words that can be addressed. -/
def capacity : Nat := 65536

/-- The memory up to the highest word written so far. All words above are zero. -/
structure Cells where
  values : Array Int64 := #[]
  deriving DecidableEq, Repr

namespace Cells

def read (c : Cells) (a : Nat) : Int64 := c.values.getD a 0

/-- Make room for the words up to `a`. -/
def grow (c : Cells) (a : Nat) : Cells :=
  if a < c.values.size then c else ⟨c.values ++ Array.replicate (a + 1 - c.values.size) 0⟩

/-- Write a word, for which room is made first. -/
def write (c : Cells) (a : Nat) (v : Int64) : Cells := ⟨(c.grow a).values.setIfInBounds a v⟩

theorem size_grow (c : Cells) (a : Nat) :
    (c.grow a).values.size = max c.values.size (a + 1) := by
  rw [grow]
  split
  · omega
  · rw [Array.size_append, Array.size_replicate]
    omega

/-- The room that is made holds zeros, as which it was read before. -/
theorem read_grow (c : Cells) (a b : Nat) : (c.grow a).read b = c.read b := by
  rw [grow]
  split
  · rfl
  · simp only [read, Array.getD_eq_getD_getElem?, Array.getElem?_append]
    grind

/-- A write changes the word it goes to and no other. -/
theorem read_write (c : Cells) (a b : Nat) (v : Int64) :
    (c.write a v).read b = if b = a then v else c.read b := by
  have room : a < (c.grow a).values.size := by
    rw [size_grow]
    omega
  rw [← read_grow c a b]
  simp only [read, write, Array.getD_eq_getD_getElem?, Array.getElem?_setIfInBounds]
  grind

end Cells

/-- The word closest to `n`. -/
def saturate (n : Int) : Int64 :=
  Int64.ofInt (max Int64.minValue.toInt (min n Int64.maxValue.toInt))

/-- The address that a place stands for, inside of the memory or not. -/
def Place.effective (c : Cells) : Place Nat → Int64
  | .cell a => saturate a
  | .indirect base k => saturate ((c.read base).toInt + k.toInt)

def Place.address (c : Cells) (p : Place Nat) : Except Problem Nat :=
  let a := p.effective c
  if 0 ≤ a.toInt ∧ a.toInt < capacity then .ok a.toInt.toNat else .error (.address a)

def Operand.value (c : Cells) : Operand Nat → Except Problem Int64
  | .literal v => .ok v
  | .place p => (p.address c).map c.read

structure Machine where
  cells : Cells := {}
  output : Array Int64 := #[]
  deriving DecidableEq, Repr

namespace Machine

/-- Put a value at a place. The address is checked before anything is changed. -/
def store (m : Machine) (p : Place Nat) (v : Int64) : Except Problem Unit × Machine :=
  match p.address m.cells with
  | .error problem => (.error problem, m)
  | .ok a => (.ok (), { m with cells := m.cells.write a v })

def print (m : Machine) (v : Int64) : Machine := { m with output := m.output.push v }

/-- Execute one statement. The answer says whether to go on, which a statement that
halts denies. -/
def step (m : Machine) : Statement Nat → Except Problem Bool × Machine
  | .move dst src =>
    match src.value m.cells with
    | .error problem => (.error problem, m)
    | .ok v => (m.store dst v).map (·.map fun _ => true) id
  | .compute dst lhs op rhs =>
    match lhs.value m.cells with
    | .error problem => (.error problem, m)
    | .ok l =>
      match rhs.value m.cells with
      | .error problem => (.error problem, m)
      | .ok r =>
        match op.apply l r with
        | .error fault => (.error (.arithmetic fault), m)
        | .ok v => (m.store dst v).map (·.map fun _ => true) id
  | .writeInt src =>
    match src.value m.cells with
    | .error problem => (.error problem, m)
    | .ok v => (.ok true, m.print v)
  | .halt => (.ok false, m)

/-- How an execution ended. -/
inductive Status where
  /-- Every statement was executed, and none of them halts. -/
  | running
  | halted
  | failed (f : Failure)
  deriving DecidableEq, Repr

/-- Execute statements in order until one halts or fails. -/
def execute (m : Machine) : List (Nat × Statement Nat) → Status × Machine
  | [] => (.running, m)
  | (n, s) :: rest =>
    match m.step s with
    | (.error problem, m₁) => (.failed ⟨n, problem⟩, m₁)
    | (.ok false, m₁) => (.halted, m₁)
    | (.ok true, m₁) => m₁.execute rest

/-- Code behind other code runs where that ends without halting or failing. -/
theorem execute_append (m : Machine) (xs ys : List (Nat × Statement Nat)) :
    m.execute (xs ++ ys) =
      match m.execute xs with
      | (.running, m') => m'.execute ys
      | stopped => stopped := by
  induction xs generalizing m with
  | nil => rfl
  | cons x xs ih =>
    obtain ⟨n, s⟩ := x
    rw [List.cons_append, execute, execute]
    rcases m.step s with ⟨problem | _ | _, m₁⟩
    · rfl
    · rfl
    · exact ih m₁

end Machine

/-- What a loaded program prints. -/
def Program.run (p : Program) : Except Failure (List Int64) :=
  match ({} : Machine).execute p.statements with
  | (.failed f, _) => .error f
  | (_, m) => .ok m.output.toList

/-- Load a program and run it. -/
def run (text : String) : Except Failure (List Int64) := (load text).bind Program.run

end Calculator.Ewe
