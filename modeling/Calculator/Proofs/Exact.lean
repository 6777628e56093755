import Calculator.Expr.Evaluation
import Calculator.Proofs.Word
import Mathlib.Data.Rat.Floor

/-!
# Evaluation is exact

The reference is evaluation on integers of any size. It never fails, and it keeps
a record of its steps: one for every node, in the order of evaluation. A step
shows whether words can follow it. As long as they can, evaluation has the value
and the memory of the reference. At the first step that words cannot follow, it
stops with the fault of this step, and the memory keeps what was stored before.
-/

namespace Calculator

/-! ## The reference -/

/-- The operation on integers of any size. A quotient is rounded down, and the remainder is what it
leaves. -/
def Op.exact (op : Op) (l r : Int) : Int :=
  match op with
  | .add => l + r
  | .sub => l - r
  | .mul => l * r
  | .div => ⌊(l / r : ℚ)⌋
  | .mod => l - r * ⌊(l / r : ℚ)⌋

/-- What a node does when its operands have their values. -/
inductive Step where
  | leaf (n : Int)
  | negation (n : Int)
  | storing (n : Int)
  | operation (op : Op) (l r : Int)

namespace Step

def result : Step → Int
  | .leaf n => n
  | .negation n => -n
  | .storing n => n
  | .operation op l r => op.exact l r

/-- The fault of a divisor that is zero. -/
def zeroFault? : Step → Option Fault
  | .operation .div _ r => if r = 0 then some .divisionByZero else none
  | .operation .mod _ r => if r = 0 then some .moduloByZero else none
  | _ => none

/-- Why words cannot follow the step, if they cannot: it divides by zero, or its result is not in
their range. -/
def fault? (s : Step) : Option Fault :=
  s.zeroFault?.or (if -2 ^ 63 ≤ s.result ∧ s.result < 2 ^ 63 then none else some .overflow)

def stored? : Step → Option Int
  | .storing n => some n
  | _ => none

end Step

/-- The value that was stored last, or `m` if none was. -/
def lastStored (m : Int) (steps : List Step) : Int :=
  (steps.filterMap Step.stored?).getLast?.getD m

/-- Evaluation on integers of any size. -/
structure Course where
  /-- The steps, in the order of evaluation. -/
  steps : List Step
  value : Int
  /-- The memory afterwards. -/
  memory : Int

def Expr.course (e : Expr) (m : Int) : Course :=
  match e with
  | number v => ⟨[.leaf v.toInt], v.toInt, m⟩
  | memory => ⟨[.leaf m], m, m⟩
  | negate e =>
    let c := e.course m
    ⟨c.steps ++ [.negation c.value], -c.value, c.memory⟩
  | store e =>
    let c := e.course m
    ⟨c.steps ++ [.storing c.value], c.value, c.value⟩
  | binary op l r =>
    let c := l.course m
    let d := r.course c.memory
    ⟨c.steps ++ d.steps ++ [.operation op c.value d.value], op.exact c.value d.value, d.memory⟩

/-! ## One step -/

/-- The word operations round down as well. -/
theorem floor_div_eq_fdiv (l r : Int) : ⌊(l / r : ℚ)⌋ = l.fdiv r := by
  obtain ⟨n, rfl | rfl⟩ := r.eq_nat_or_neg
  · rw [Int.fdiv_eq_ediv_of_nonneg _ (Int.natCast_nonneg n), ← Rat.floor_intCast_div_natCast,
      Int.cast_natCast]
  · rw [← neg_neg l, Int.neg_fdiv_neg, Int.fdiv_eq_ediv_of_nonneg _ (Int.natCast_nonneg n),
      ← Rat.floor_intCast_div_natCast]
    push_cast
    rw [neg_div_neg_eq]

theorem Op.exact_mod (l r : Int) : Op.mod.exact l r = l.fmod r := by
  rw [Op.exact, floor_div_eq_fdiv, Int.fmod_def]

/-- The word, or the fault, is that of the step. -/
def Step.Computes (s : Step) : Except Fault Int64 → Prop
  | .ok v => s.fault? = none ∧ v.toInt = s.result
  | .error f => s.fault? = some f

namespace Step.Computes

theorem narrow {s : Step} (divisible : s.zeroFault? = none) :
    s.Computes (Calculator.narrow s.result) := by
  by_cases fits : -2 ^ 63 ≤ s.result ∧ s.result < 2 ^ 63
  · have exact : (Int64.ofInt s.result).toInt = s.result := Int64.toInt_ofInt_of_le fits.1 fits.2
    rw [narrow_eq_ok.2 exact]
    exact ⟨by rw [Step.fault?, divisible, if_pos fits]; rfl, exact⟩
  · rw [narrow_eq_overflow fits, Step.Computes, Step.fault?, divisible, if_neg fits]
    rfl

theorem leaf (v : Int64) : (Step.leaf v.toInt).Computes (.ok v) :=
  ⟨if_pos ⟨v.le_toInt, v.toInt_lt⟩, rfl⟩

theorem storing (v : Int64) : (Step.storing v.toInt).Computes (.ok v) :=
  ⟨if_pos ⟨v.le_toInt, v.toInt_lt⟩, rfl⟩

theorem negated (v : Int64) : (Step.negation v.toInt).Computes (Calculator.negated v) :=
  narrow rfl

theorem apply (op : Op) (v w : Int64) :
    (Step.operation op v.toInt w.toInt).Computes (op.apply v w) := by
  have nonzero (h : w ≠ 0) : w.toInt ≠ 0 := fun zero => h (Int64.toInt_inj.1 zero)
  cases op with
  | add | sub | mul => exact narrow rfl
  | div =>
    by_cases zero : w = 0
    · subst zero
      rfl
    · rw [Op.apply, if_neg zero, ← floor_div_eq_fdiv]
      exact narrow (s := .operation .div v.toInt w.toInt) (if_neg (nonzero zero))
  | mod =>
    by_cases zero : w = 0
    · subst zero
      rfl
    · rw [Op.apply, if_neg zero, ← Op.exact_mod]
      exact narrow (s := .operation .mod v.toInt w.toInt) (if_neg (nonzero zero))

end Step.Computes

/-! ## Courses -/

@[simp] theorem lastStored_append (m : Int) (a b : List Step) :
    lastStored m (a ++ b) = lastStored (lastStored m a) b := by
  simp only [lastStored, List.filterMap_append, List.getLast?_append]
  cases (b.filterMap Step.stored?).getLast? <;> rfl

/-- Words can follow all the steps. -/
def Faultless (steps : List Step) : Prop := ∀ s ∈ steps, s.fault? = none

/-- Evaluation agrees with a reference that starts with the memory `m`: it has its value and its
memory, or it stops with the first fault of the record. -/
def Agrees (m : Int) (c : Course) : Except Fault Int64 × Memory → Prop
  | (.ok v, m') => Faultless c.steps ∧ v.toInt = c.value ∧ m'.value.toInt = c.memory ∧
      lastStored m c.steps = c.memory
  | (.error f, m') => ∃ before s after, c.steps = before ++ s :: after ∧ Faultless before ∧
      s.fault? = some f ∧ m'.value.toInt = lastStored m before

namespace Agrees

variable {m : Int} {c : Course} {f : Fault} {m' : Memory} {v : Int64}

/-- A fault stays the first one, whatever would have come after it. -/
theorem fault_append {steps : List Step} {x y : Int} (h : Agrees m c (.error f, m')) :
    Agrees m ⟨c.steps ++ steps, x, y⟩ (.error f, m') := by
  obtain ⟨before, s, after, split, faultless, fault, memory⟩ := h
  exact ⟨before, s, after ++ steps, by simp [split], faultless, fault, memory⟩

/-- A reference may start with steps that words can follow. -/
theorem prepend {steps : List Step} {outcome : Except Fault Int64 × Memory}
    (faultless : Faultless steps) (h : Agrees (lastStored m steps) c outcome) :
    Agrees m ⟨steps ++ c.steps, c.value, c.memory⟩ outcome := by
  obtain ⟨f | v, m'⟩ := outcome
  · obtain ⟨before, s, after, split, faultless', fault, memory⟩ := h
    refine ⟨steps ++ before, s, after, by simp [split], ?_, fault, by simpa using memory⟩
    exact List.forall_mem_append.2 ⟨faultless, faultless'⟩
  · obtain ⟨faultless', value, memory, stored⟩ := h
    exact ⟨List.forall_mem_append.2 ⟨faultless, faultless'⟩, value, memory, by simpa using stored⟩

/-- One step alone, which stores nothing. -/
theorem single {s : Step} {x : Except Fault Int64} (computes : s.Computes x)
    (quiet : s.stored? = none) :
    Agrees m'.value.toInt ⟨[s], s.result, m'.value.toInt⟩ (x, m') := by
  have kept (n : Int) : lastStored n [s] = n := by simp [lastStored, quiet]
  cases x with
  | error f => exact ⟨[], s, [], rfl, nofun, computes, rfl⟩
  | ok v => exact ⟨by simpa [Faultless] using computes.1, computes.2, rfl, kept _⟩

/-- A step behind a value, which stores nothing. -/
theorem followed {s : Step} {x : Except Fault Int64} (h : Agrees m c (.ok v, m'))
    (computes : s.Computes x) (quiet : s.stored? = none) :
    Agrees m ⟨c.steps ++ [s], s.result, c.memory⟩ (x, m') := by
  obtain ⟨faultless, -, memory, stored⟩ := h
  have last : Agrees m'.value.toInt ⟨[s], s.result, m'.value.toInt⟩ (x, m') := single computes quiet
  rw [memory, ← stored] at last
  rw [← stored]
  exact prepend faultless last

theorem stored (h : Agrees m c (.ok v, m')) :
    Agrees m ⟨c.steps ++ [.storing c.value], c.value, c.value⟩ (.ok v, m'.store v) := by
  obtain ⟨faultless, value, -, -⟩ := h
  rw [← value]
  refine ⟨List.forall_mem_append.2 ⟨faultless, ?_⟩, rfl, rfl, by simp [lastStored, Step.stored?]⟩
  simpa [Faultless] using (Step.Computes.storing v).1

end Agrees

/-- Evaluation agrees with the reference. -/
theorem agrees_evaluate (e : Expr) (m : Memory) :
    Agrees m.value.toInt (e.course m.value.toInt) (e.evaluate m) := by
  induction e generalizing m with
  | number v => exact .single (s := .leaf v.toInt) (.leaf v) rfl
  | memory => exact .single (s := .leaf m.value.toInt) (.leaf m.value) rfl
  | negate e ih =>
    have operand := ih m
    rcases run : e.evaluate m with ⟨f | v, m₁⟩ <;> simp only [Expr.evaluate, run] at operand ⊢
    · exact operand.fault_append
    · have value := operand.2.1
      exact operand.followed (value ▸ .negated v) rfl
  | store e ih =>
    have operand := ih m
    rcases run : e.evaluate m with ⟨f | v, m₁⟩ <;> simp only [Expr.evaluate, run] at operand ⊢
    · exact operand.fault_append
    · exact operand.stored
  | binary op l r ihl ihr =>
    have left := ihl m
    rcases run : l.evaluate m with ⟨f | v, m₁⟩ <;> rw [run] at left
    · simp only [Expr.evaluate, run, Expr.course, List.append_assoc]
      exact left.fault_append
    -- the right operand starts with the memory that the left one leaves
    obtain ⟨faultless, value, memory, stored⟩ := left
    have right := ihr m₁
    rw [memory, ← stored] at right
    have both := right.prepend faultless
    rw [stored] at both
    rcases run' : r.evaluate m₁ with ⟨f | w, m₂⟩ <;>
      simp only [Expr.evaluate, run, run'] at both ⊢
    · exact both.fault_append
    · have value' := both.2.1
      exact both.followed (value ▸ value' ▸ .apply op v w) rfl

/-- Evaluation does what the reference does on integers of any size, as long as no divisor is zero
and every result is a word. Otherwise it stops at the first step, in the order of evaluation, of
which this is not true, with the fault of the step. The memory then holds what was stored last
before this step. -/
theorem evaluation_is_exact (e : Expr) (m : Memory) :
    let c := e.course m.value.toInt
    ((∀ s ∈ c.steps, s.fault? = none) ∧
      ∃ v m', e.evaluate m = (.ok v, m') ∧ v.toInt = c.value ∧ m'.value.toInt = c.memory) ∨
    ∃ before s after f m', c.steps = before ++ s :: after ∧ (∀ b ∈ before, b.fault? = none) ∧
      s.fault? = some f ∧ e.evaluate m = (.error f, m') ∧
      m'.value.toInt = lastStored m.value.toInt before := by
  intro c
  have agrees := agrees_evaluate e m
  rcases run : e.evaluate m with ⟨f | v, m'⟩ <;> rw [run] at agrees
  · obtain ⟨before, s, after, split, faultless, fault, memory⟩ := agrees
    exact .inr ⟨before, s, after, f, m', split, faultless, fault, rfl, memory⟩
  · obtain ⟨faultless, value, memory, -⟩ := agrees
    exact .inl ⟨faultless, v, m', rfl, value, memory⟩

end Calculator
