import Calculator.Proofs.Ewe.Effect
import Calculator.Proofs.Word
import Mathlib.Order.Lattice

/-!
# A memory of fixed size

The machine keeps its memory in an array that grows up to the highest word written
so far. That is not to be seen from outside: every program runs as on a machine
that has all of its words from the start. The array never grows beyond the last
word that can be addressed, so a base above that word is read as zero on both
machines.
-/

namespace Calculator.Ewe

/-! ## The machine with all words -/

/-- All words that can be addressed. -/
def Words : Type := Fin capacity → Int64

namespace Words

/-- The value that an address is computed from. Outside of the memory it is zero. -/
def base (w : Words) (a : Nat) : Int64 := if h : a < capacity then w ⟨a, h⟩ else 0

/-- The number that a place leads to, of any size. -/
def reach (w : Words) : Place Nat → Int
  | .cell a => a
  | .indirect b k => (w.base b).toInt + k.toInt

def locate (w : Words) (p : Place Nat) : Except Problem (Fin capacity) :=
  if h : 0 ≤ w.reach p ∧ w.reach p < capacity then .ok ⟨(w.reach p).toNat, by omega⟩
  else .error (.address (saturate (w.reach p)))

def value (w : Words) : Operand Nat → Except Problem Int64
  | .literal v => .ok v
  | .place p => do return w (← w.locate p)

def store (w : Words) (p : Place Nat) (v : Int64) : Except Problem Words := do
  let a ← w.locate p
  return fun b => if b = a then v else w b

end Words

structure FixedMachine where
  words : Words := fun _ => 0
  output : List Int64 := []

namespace FixedMachine

/-- Execute one statement. There is no machine after one that halts. -/
def step (m : FixedMachine) : Statement Nat → Except Problem (Option FixedMachine)
  | .move dst src => do
    let v ← m.words.value src
    return some { m with words := ← m.words.store dst v }
  | .compute dst lhs op rhs => do
    let l ← m.words.value lhs
    let r ← m.words.value rhs
    let v ← (op.apply l r).mapError .arithmetic
    return some { m with words := ← m.words.store dst v }
  | .writeInt src => do
    let v ← m.words.value src
    return some { m with output := m.output ++ [v] }
  | .halt => return none

/-- What some statements print until one of them halts. -/
def run (m : FixedMachine) : List (Nat × Statement Nat) → Except Failure (List Int64)
  | [] => .ok m.output
  | (n, s) :: rest =>
    match m.step s with
    | .error problem => .error ⟨n, problem⟩
    | .ok none => .ok m.output
    | .ok (some m') => m'.run rest

end FixedMachine

/-! ## What executing a statement can do -/

theorem Place.lt_capacity {c : Cells} {p : Place Nat} {a : Nat} (h : p.address c = .ok a) :
    a < capacity := by
  simp only [Place.address] at h
  split at h
  · next inside =>
    obtain rfl := Except.ok.inj h
    omega
  · contradiction

theorem Place.assign_eq_ok {c : Cells} {p : Place Nat} {v : Int64} {e : Effect}
    (h : p.assign c v = .ok e) : ∃ a, a < capacity ∧ e = .write a v := by
  rcases found : p.address c with problem | a <;> rw [assign, found] at h
  · contradiction
  · exact ⟨a, lt_capacity found, (Except.ok.inj h).symm⟩

/-- Every statement writes to a word that can be addressed, if it writes at all. -/
theorem Statement.lt_capacity {c : Cells} {s : Statement Nat} {a : Nat} {v : Int64}
    (h : s.effect c = .ok (some (.write a v))) : a < capacity := by
  have assigned {p : Place Nat} {w : Int64}
      (h : (p.assign c w).map some = .ok (some (.write a v))) : a < capacity := by
    rcases found : p.assign c w with problem | e <;> rw [found] at h
    · contradiction
    · obtain ⟨b, inside, rfl⟩ := Place.assign_eq_ok found
      cases h
      exact inside
  cases s with
  | move dst src =>
    simp only [effect] at h
    split at h
    · contradiction
    · exact assigned h
  | compute dst lhs op rhs =>
    simp only [effect] at h
    split at h
    · contradiction
    · split at h
      · contradiction
      · split at h
        · contradiction
        · exact assigned h
  | writeInt src =>
    rcases read : src.value c with problem | w <;> rw [effect, read] at h <;> cases h
  | halt => cases h

namespace Cells

theorem size_write (c : Cells) (a : Nat) (v : Int64) :
    (c.write a v).values.size = max c.values.size (a + 1) := by
  rw [write, Array.size_setIfInBounds, size_grow]

/-- Words that were never written are zero. -/
theorem read_of_size_le {c : Cells} {a : Nat} (h : c.values.size ≤ a) : c.read a = 0 := by
  simp [read, Array.getD_eq_getD_getElem?, h]

end Cells

namespace Machine

/-- The array has not grown beyond the memory. -/
def Bounded (m : Machine) : Prop := m.cells.values.size ≤ capacity

theorem Bounded.perform {m : Machine} {s : Statement Nat} {e : Effect} (h : m.Bounded)
    (effect : s.effect m.cells = .ok (some e)) : (m.perform e).Bounded := by
  cases e with
  | write a v =>
    have inside := Statement.lt_capacity effect
    rw [Bounded, Machine.perform, Cells.size_write]
    exact max_le h inside
  | print v => exact h

theorem Bounded.execute {m t : Machine} {status : Status} {xs : List (Nat × Statement Nat)}
    (h : m.Bounded) (run : m.execute xs = (status, t)) : t.Bounded := by
  induction xs generalizing m with
  | nil =>
    cases run
    exact h
  | cons x xs ih =>
    obtain ⟨n, s⟩ := x
    rw [execute_cons] at run
    split at run
    · cases run
      exact h
    · cases run
      exact h
    · next e effect => exact ih (h.perform effect) run

/-! ## The two machines -/

/-- The machine with all words that behaves as `m` does. -/
def fixed (m : Machine) : FixedMachine where
  words a := m.cells.read a
  output := m.output.toList

variable {m : Machine}

theorem base_fixed (h : m.Bounded) (a : Nat) : m.fixed.words.base a = m.cells.read a := by
  rw [Words.base]
  split
  · rfl
  · next outside => exact (Cells.read_of_size_le (h.trans (by omega))).symm

theorem effective_eq (h : m.Bounded) (p : Place Nat) :
    p.effective m.cells = saturate (m.fixed.words.reach p) := by
  cases p with
  | cell a => rfl
  | indirect b k => rw [Place.effective, Words.reach, base_fixed h]

/-- A number is an address exactly if the word closest to it is. -/
theorem toInt_saturate_iff {n : Int} :
    0 ≤ (saturate n).toInt ∧ (saturate n).toInt < capacity ↔ 0 ≤ n ∧ n < capacity := by
  rw [capacity, saturate, Int64.toInt_minValue, Int64.toInt_maxValue, Int64.toInt_ofInt_of_le] <;>
    omega

theorem locate_fixed (h : m.Bounded) (p : Place Nat) :
    p.address m.cells = (m.fixed.words.locate p).map Fin.val := by
  simp only [Place.address, Words.locate, effective_eq h, toInt_saturate_iff]
  split
  · next inside =>
    have exact : (saturate (m.fixed.words.reach p)).toInt = m.fixed.words.reach p := by
      rw [capacity] at inside
      exact toInt_saturate (by omega) (by omega)
    rw [exact]
    rfl
  · rfl

theorem value_fixed (h : m.Bounded) (x : Operand Nat) :
    m.fixed.words.value x = x.value m.cells := by
  cases x with
  | literal v => rfl
  | place p =>
    rw [Words.value, Operand.value, locate_fixed h]
    cases m.fixed.words.locate p <;> rfl

theorem fixed_write (m : Machine) (a : Fin capacity) (v : Int64) :
    (m.perform (.write a v)).fixed =
      { m.fixed with words := fun b => if b = a then v else m.fixed.words b } := by
  simp only [fixed, perform, Cells.read_write, Fin.val_inj]

theorem fixed_print (m : Machine) (v : Int64) :
    (m.perform (.print v)).fixed = { m.fixed with output := m.fixed.output ++ [v] } := by
  simp only [fixed, perform, print, Array.toList_push]

theorem store_fixed (h : m.Bounded) (p : Place Nat) (v : Int64) :
    (do return some { m.fixed with words := ← m.fixed.words.store p v }) =
      ((p.assign m.cells v).map some).map (Option.map fun e => (m.perform e).fixed) := by
  rw [Place.assign, Words.store, locate_fixed h]
  rcases m.fixed.words.locate p with problem | a
  · rfl
  · simp only [Except.map, Option.map_some, fixed_write]
    rfl

/-- One statement does the same on both machines. -/
theorem step_fixed (h : m.Bounded) (s : Statement Nat) :
    m.fixed.step s = (s.effect m.cells).map (Option.map fun e => (m.perform e).fixed) := by
  cases s with
  | move dst src =>
    rw [FixedMachine.step, Statement.effect, value_fixed h]
    rcases src.value m.cells with problem | v
    · rfl
    · exact store_fixed h dst v
  | compute dst lhs op rhs =>
    rw [FixedMachine.step, Statement.effect, value_fixed h, value_fixed h]
    rcases lhs.value m.cells with problem | l
    · rfl
    rcases rhs.value m.cells with problem | r
    · rfl
    simp only [bind, Except.bind]
    rcases op.apply l r with fault | v
    · rfl
    · exact store_fixed h dst v
  | writeInt src =>
    rw [FixedMachine.step, Statement.effect, value_fixed h]
    rcases src.value m.cells with problem | v
    · rfl
    · simp only [Except.map, Option.map_some, fixed_print]
      rfl
  | halt => rfl

theorem run_fixed (h : m.Bounded) (xs : List (Nat × Statement Nat)) :
    m.fixed.run xs =
      match m.execute xs with
      | (.failed f, _) => .error f
      | (_, t) => .ok t.output.toList := by
  induction xs generalizing m with
  | nil => rfl
  | cons x xs ih =>
    obtain ⟨n, s⟩ := x
    rw [FixedMachine.run, execute_cons, step_fixed h]
    rcases effect : s.effect m.cells with problem | _ | e
    · rfl
    · rfl
    · exact ih (h.perform effect)

/-- The machine is in the state that some statements lead to from the start. -/
def Reachable (m : Machine) : Prop := ∃ xs status, ({} : Machine).execute xs = (status, m)

theorem bounded_start : ({} : Machine).Bounded := Nat.zero_le capacity

theorem Reachable.bounded (h : m.Reachable) : m.Bounded := by
  obtain ⟨xs, status, run⟩ := h
  exact bounded_start.execute run

end Machine

theorem Program.run_eq_fixed (p : Program) : p.run = ({} : FixedMachine).run p.statements := by
  have start : ({} : Machine).fixed = {} := rfl
  rewrite [← start, Machine.run_fixed Machine.bounded_start, Program.run]
  rfl

/-- Every program runs as on a machine that has all words from the start. The array
behind the words stays within the memory, a write is seen at its own address only,
a statement that fails leaves the machine as it was, and a run that fails ends with
what the statements before the failing one left. -/
theorem growing_memory_is_unobservable :
    (∀ p : Program, p.run = ({} : FixedMachine).run p.statements) ∧
    ∀ m : Machine, m.Reachable →
      m.cells.values.size ≤ capacity ∧
      (∀ n s a v, s.effect m.cells = .ok (some (.write a v)) →
        a < capacity ∧ ∃ t, m.execute [(n, s)] = (.running, t) ∧ t.output = m.output ∧
          ∀ b, t.cells.read b = if b = a then v else m.cells.read b) ∧
      (∀ s problem t, m.step s = (.error problem, t) → t = m) ∧
      ∀ xs f t, m.execute xs = (.failed f, t) →
        ∃ before s after, xs = before ++ (f.line, s) :: after ∧
          m.execute before = (.running, t) ∧ s.effect t.cells = .error f.problem := by
  refine ⟨Program.run_eq_fixed, fun m reachable => ⟨reachable.bounded, ?_, ?_, ?_⟩⟩
  · intro n s a v effect
    refine ⟨Statement.lt_capacity effect, m.perform (.write a v), ?_, rfl, ?_⟩
    · rewrite [Machine.execute_cons, effect]
      rfl
    · intro b
      exact m.cells.read_write a b v
  · intro s problem t failed
    exact (Machine.step_eq_error.1 failed).2
  · intro xs f t failed
    exact Machine.exists_of_failed failed

/-- A base above the memory leads to the word at its offset. An address that does
not fit a word is reported as the largest one, and nothing is written. -/
theorem address_beyond_words_writes_nothing :
    let m : Machine := { cells := ⟨#[0, 0, Int64.maxValue]⟩ }
    let x : Nat × Statement Nat := (2, .move (.indirect 2 1) (.literal 5))
    ({} : Machine).execute [(1, .move (.indirect 70000 2) (.literal Int64.maxValue))] =
        (.running, m) ∧
      m.cells.values.size ≤ capacity ∧
      m.execute [x] = (.failed ⟨2, .address Int64.maxValue⟩, m) ∧
      (m.step x.2).1 = .error (.address Int64.maxValue) ∧ (m.step x.2).2 = m ∧
      ∃ before s after, [x] = before ++ (2, s) :: after ∧ m.execute before = (.running, m) ∧
        s.effect m.cells = .error (.address Int64.maxValue) := by
  intro m x
  have reached : ({} : Machine).execute
      [(1, .move (.indirect 70000 2) (.literal Int64.maxValue))] = (.running, m) := by
    decide +kernel
  have failed : m.execute [x] = (.failed ⟨2, .address Int64.maxValue⟩, m) := by decide +kernel
  obtain ⟨bounded, -, same, kept⟩ := growing_memory_is_unobservable.2 m ⟨_, _, reached⟩
  have stopped : (m.step x.2).1 = .error (.address Int64.maxValue) := by decide +kernel
  have unchanged : (m.step x.2).2 = m := by
    rcases stepped : m.step x.2 with ⟨result, t⟩
    rw [stepped] at stopped
    exact same x.2 _ t (stepped.trans (congrArg (·, t) stopped))
  exact ⟨reached, bounded, failed, stopped, unchanged, kept _ _ _ failed⟩

end Calculator.Ewe
