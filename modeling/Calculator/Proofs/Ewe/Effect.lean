import Calculator.Ewe.Machine

/-!
# What a statement does

What a statement changes is one word of the memory or the output, and the machine is
read before it is changed. The effect of a statement is therefore found from the
memory in front of it, and executing the statement is to perform its effect. All that
holds of every run rests on this.
-/

namespace Calculator.Ewe

/-- What executing a statement changes. -/
inductive Effect where
  | write (address : Nat) (value : Int64)
  | print (value : Int64)
  deriving DecidableEq, Repr

def Place.assign (c : Cells) (p : Place Nat) (v : Int64) : Except Problem Effect :=
  (p.address c).map (.write · v)

/-- The effect of a statement. One that halts has none. -/
def Statement.effect (c : Cells) : Statement Nat → Except Problem (Option Effect)
  | .move dst src =>
    match src.value c with
    | .error problem => .error problem
    | .ok v => (dst.assign c v).map some
  | .compute dst lhs op rhs =>
    match lhs.value c with
    | .error problem => .error problem
    | .ok l =>
      match rhs.value c with
      | .error problem => .error problem
      | .ok r =>
        match op.apply l r with
        | .error fault => .error (.arithmetic fault)
        | .ok v => (dst.assign c v).map some
  | .writeInt src => (src.value c).map fun v => some (.print v)
  | .halt => .ok none

namespace Machine

def perform (m : Machine) : Effect → Machine
  | .write a v => { m with cells := m.cells.write a v }
  | .print v => m.print v

/-! ## One statement -/

/-- How a step ends that has this effect. -/
def after (m : Machine) : Except Problem (Option Effect) → Except Problem Bool × Machine
  | .error problem => (.error problem, m)
  | .ok none => (.ok false, m)
  | .ok (some e) => (.ok true, m.perform e)

theorem store_eq (m : Machine) (p : Place Nat) (v : Int64) :
    (m.store p v).map (·.map fun _ => true) id = m.after ((p.assign m.cells v).map some) := by
  rw [store, Place.assign]
  cases p.address m.cells <;> rfl

/-- A statement is executed by performing its effect. -/
theorem step_eq (m : Machine) (s : Statement Nat) : m.step s = m.after (s.effect m.cells) := by
  cases s with
  | move dst src =>
    rw [step, Statement.effect]
    rcases src.value m.cells with problem | v
    · rfl
    · exact m.store_eq dst v
  | compute dst lhs op rhs =>
    rw [step, Statement.effect]
    rcases lhs.value m.cells with problem | l
    · rfl
    rcases rhs.value m.cells with problem | r
    · rfl
    dsimp only
    rcases op.apply l r with fault | v
    · rfl
    · exact m.store_eq dst v
  | writeInt src =>
    rw [step, Statement.effect]
    cases src.value m.cells <;> rfl
  | halt => rfl

theorem step_eq_error {m t : Machine} {s : Statement Nat} {problem : Problem} :
    m.step s = (.error problem, t) ↔ s.effect m.cells = .error problem ∧ t = m := by
  rw [step_eq]
  rcases s.effect m.cells with other | _ | e <;> simp [after, eq_comm]

/-! ## Many statements -/

theorem execute_cons (m : Machine) (n : Nat) (s : Statement Nat)
    (rest : List (Nat × Statement Nat)) :
    m.execute ((n, s) :: rest) =
      match s.effect m.cells with
      | .error problem => (.failed ⟨n, problem⟩, m)
      | .ok none => (.halted, m)
      | .ok (some e) => (m.perform e).execute rest := by
  rw [execute, step_eq]
  rcases s.effect m.cells with problem | _ | e <;> rfl

/-- An execution that fails has executed everything in front of the statement that
fails, and nothing of that statement. -/
theorem exists_of_failed {m t : Machine} {f : Failure} {xs : List (Nat × Statement Nat)}
    (h : m.execute xs = (.failed f, t)) :
    ∃ before s after, xs = before ++ (f.line, s) :: after ∧ m.execute before = (.running, t) ∧
      s.effect t.cells = .error f.problem := by
  induction xs generalizing m with
  | nil => cases h
  | cons x xs ih =>
    obtain ⟨n, s⟩ := x
    rw [execute_cons] at h
    split at h
    · next problem effect =>
      cases h
      exact ⟨[], s, xs, rfl, rfl, effect⟩
    · cases h
    · next e effect =>
      obtain ⟨before, s', after, rfl, run, failed⟩ := ih h
      refine ⟨(n, s) :: before, s', after, rfl, ?_, failed⟩
      simp only [execute_cons, effect, run]

end Machine

end Calculator.Ewe
