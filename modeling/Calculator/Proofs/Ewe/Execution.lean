import Calculator.Ewe.Compiler
import Calculator.Proofs.Ewe.Effect
import Calculator.Proofs.Word

/-!
# Executing assembly lines

Lines are executed as the statements they hold, each with the number of its line
and with the cells of the registers in place of their names. There is one law
for every way in which the compiler writes a line.
-/

namespace Calculator.Ewe

/-- The registers lie below the stack, and the last of them is its first cell. -/
theorem Register.address_le (r : Register) : r.address ≤ 7 := by cases r <;> decide

/-- The statement on a line, if there is one. -/
def Line.statement? : Line → Option (Statement Register)
  | .code s | .labelled _ s => some s
  | .comment _ | .equ _ => none

/-- The statements on some lines, the first of which has the number `n`. -/
def numbered (n : Nat) : List Line → List (Nat × Statement Nat)
  | [] => []
  | l :: ls =>
    match l.statement? with
    | none => numbered (n + 1) ls
    | some s => (n, s.map Register.address) :: numbered (n + 1) ls

theorem numbered_append (n : Nat) (ls ks : List Line) :
    numbered n (ls ++ ks) = numbered n ls ++ numbered (n + ls.length) ks := by
  induction ls generalizing n with
  | nil => rfl
  | cons l ls ih =>
    have shift : n + 1 + ls.length = n + (l :: ls).length := by simp; omega
    rw [List.cons_append, numbered, numbered, ih, shift]
    cases l.statement? <;> rfl

namespace Machine

/-- The value of a register. -/
def get (m : Machine) (r : Register) : Int64 := m.cells.read r.address

/-- Write a word to a cell. -/
def write (m : Machine) (a : Nat) (v : Int64) : Machine := m.perform (.write a v)

@[simp] theorem read_write (m : Machine) (a b : Nat) (v : Int64) :
    (m.write a v).cells.read b = if b = a then v else m.cells.read b := Cells.read_write ..

@[simp] theorem get_write (m : Machine) (a : Nat) (v : Int64) (r : Register) :
    (m.write a v).get r = if r.address = a then v else m.get r := read_write ..

/-- Execute the statements on some lines. -/
def runLines (m : Machine) (n : Nat) (ls : List Line) : Status × Machine :=
  m.execute (numbered n ls)

/-! ## Lines after lines -/

theorem runLines_append_of_running {m t : Machine} {n : Nat} {ls : List Line}
    (h : m.runLines n ls = (.running, t)) (ks : List Line) :
    m.runLines n (ls ++ ks) = t.runLines (n + ls.length) ks := by
  rw [runLines, numbered_append, execute_append, ← runLines, h, runLines]

theorem runLines_append_of_failed {m t : Machine} {n : Nat} {ls : List Line} {f : Failure}
    (h : m.runLines n ls = (.failed f, t)) (ks : List Line) :
    m.runLines n (ls ++ ks) = (.failed f, t) := by
  rw [runLines, numbered_append, execute_append, ← runLines, h]

/-! ## Registers -/

variable (m : Machine) (n : Nat) (ls : List Line)

theorem runLines_comment (text : String) :
    m.runLines n (.comment text :: ls) = m.runLines (n + 1) ls := rfl

theorem runLines_labelled (label : String) (s : Statement Register) :
    m.runLines n (.labelled label s :: ls) = m.runLines n (.code s :: ls) := rfl

theorem runLines_halt : m.runLines n (.code .halt :: ls) = (.halted, m) := rfl

/-- A register is always inside of the memory. -/
theorem address_cell (c : Cells) (r : Register) :
    (Place.cell r.address).address c = .ok r.address := by
  have low := r.address_le
  have effective : ((Place.cell r.address).effective c).toInt = r.address :=
    toInt_saturate (by omega) (by omega)
  rw [Place.address, effective, if_pos (by rw [capacity]; omega), Int.toNat_natCast]

theorem value_reg (r : Register) :
    ((reg r).map Register.address).value m.cells = .ok (m.get r) := by
  simp only [reg, Operand.map, Place.map, Operand.value, address_cell]
  rfl

theorem runLines_set_literal (r : Register) (v : Int64) :
    m.runLines n (set r (.literal v) :: ls) = (m.write r.address v).runLines (n + 1) ls := by
  simp only [runLines, numbered, set, Line.statement?, Statement.map, Place.map, Operand.map,
    execute_cons, Statement.effect, Operand.value, Place.assign, address_cell]
  rfl

theorem runLines_set_reg (r x : Register) :
    m.runLines n (set r (reg x) :: ls) = (m.write r.address (m.get x)).runLines (n + 1) ls := by
  simp only [runLines, numbered, set, Line.statement?, Statement.map, Place.map, execute_cons,
    Statement.effect, value_reg, Place.assign, address_cell]
  rfl

theorem runLines_print (r : Register) :
    m.runLines n (.code (.writeInt (reg r)) :: ls) =
      (m.perform (.print (m.get r))).runLines (n + 1) ls := by
  simp only [runLines, numbered, Line.statement?, Statement.map, execute_cons, Statement.effect,
    value_reg]
  rfl

variable {m}

theorem runLines_compute {x y : Register} {op : Op} {v : Int64} (r : Register)
    (h : op.apply (m.get x) (m.get y) = .ok v) :
    m.runLines n (.code (.compute (.cell r) (reg x) op (reg y)) :: ls) =
      (m.write r.address v).runLines (n + 1) ls := by
  simp only [runLines, numbered, Line.statement?, Statement.map, Place.map, execute_cons,
    Statement.effect, value_reg, h, Place.assign, address_cell]
  rfl

theorem runLines_compute_fault {x y : Register} {op : Op} {f : Fault} (r : Register)
    (h : op.apply (m.get x) (m.get y) = .error f) :
    m.runLines n (.code (.compute (.cell r) (reg x) op (reg y)) :: ls) =
      (.failed ⟨n, .arithmetic f⟩, m) := by
  simp only [runLines, numbered, Line.statement?, Statement.map, execute_cons, Statement.effect,
    value_reg, h]

/-! ## Slots of the stack -/

/-- A slot is found above the cell that `sp` points to. -/
theorem address_slot {a k : Nat} {w : Int64} (hw : w = .ofNat k) (sp : m.get .sp = .ofNat a)
    (h : a + k < capacity) :
    ((slot w).map Register.address).address m.cells = .ok (a + k) := by
  have small : a + k < 65536 := h
  have effective : (((slot w).map Register.address).effective m.cells).toInt = a + k := by
    rw [hw, slot, Place.map, Place.effective, ← get, sp, Int64.toInt_ofNat_of_lt (by omega),
      Int64.toInt_ofNat_of_lt (by omega), toInt_saturate (by omega) (by omega)]
  rw [Place.address, effective, if_pos (by omega)]
  simp
  omega

/-- There is no slot above the last cell of the memory. -/
theorem address_slot_outside {a : Nat} (sp : m.get .sp = .ofNat a) (small : a < 2 ^ 63)
    (h : capacity ≤ a) :
    ∃ problem, ((slot 0).map Register.address).address m.cells = .error problem := by
  have effective :
      (capacity : Int) ≤ (((slot 0).map Register.address).effective m.cells).toInt := by
    rw [slot, Place.map, Place.effective, ← get, sp, Int64.toInt_ofNat_of_lt small]
    exact le_toInt_saturate (by simpa using h)
  rw [Place.address, if_neg (by omega)]
  exact ⟨_, rfl⟩

theorem runLines_fetch {a k : Nat} {w : Int64} (r : Register) (hw : w = .ofNat k)
    (sp : m.get .sp = .ofNat a) (h : a + k < capacity) :
    m.runLines n (fetch r w :: ls) =
      (m.write r.address (m.cells.read (a + k))).runLines (n + 1) ls := by
  simp only [runLines, numbered, fetch, set, Line.statement?, Statement.map, Operand.map,
    execute_cons, Statement.effect, Operand.value, address_slot hw sp h, Place.assign]
  simp only [Place.map, address_cell]
  rfl

/-- A register is copied to a slot. -/
theorem runLines_move_slot {a k : Nat} {w : Int64} (x : Register) (hw : w = .ofNat k)
    (sp : m.get .sp = .ofNat a) (h : a + k < capacity) :
    m.runLines n (.code (.move (slot w) (reg x)) :: ls) =
      (m.write (a + k) (m.get x)).runLines (n + 1) ls := by
  simp only [runLines, numbered, Line.statement?, Statement.map, execute_cons, Statement.effect,
    value_reg, Place.assign, address_slot hw sp h]
  rfl

theorem runLines_move_slot_outside {a : Nat} (x : Register) (sp : m.get .sp = .ofNat a)
    (small : a < 2 ^ 63) (h : capacity ≤ a) :
    ∃ f, m.runLines n (.code (.move (slot 0) (reg x)) :: ls) = (.failed f, m) := by
  obtain ⟨problem, outside⟩ := address_slot_outside sp small h
  refine ⟨⟨n, problem⟩, ?_⟩
  simp only [runLines, numbered, Line.statement?, Statement.map, execute_cons, Statement.effect,
    value_reg, Place.assign, outside]
  rfl

end Machine

end Calculator.Ewe
