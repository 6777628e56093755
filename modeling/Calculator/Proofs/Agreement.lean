import Calculator.Proofs.Ewe.Capacity
import Calculator.Proofs.Parser.Acceptance
import Calculator.Source

/-!
# Compiled programs agree with direct evaluation

The limit of the parser keeps trees low, and a low tree needs few cells. So the
program of a text always fits the memory, and running it gives the value or the
fault that evaluating the text gives. A text that is rejected is rejected alike
for both.
-/

namespace Calculator

/-- An operator needs at most three cells more than its operands. -/
theorem Expr.need_le (e : Expr) : e.need + 3 ≤ 3 * e.height := by
  induction e with
  | number v => exact Nat.le_refl 3
  | memory => exact Nat.le_refl 3
  | negate e ih | store e ih =>
    simp only [need, height]
    omega
  | binary op l r ihl ihr =>
    simp only [need, height]
    omega

variable {source : String} {e : Expr} {x : Error}

theorem height_le_of_parse (h : parse source = .ok e) : e.height ≤ 256 := by
  rcases hp : (Parser.ofString source).parse with ⟨_ | tree, r⟩
  · simp [parse, hp, Except.map] at h
  · obtain rfl : tree.expr = e := by simpa [parse, hp, Except.map] using h
    obtain ⟨_, _, _, _, _, _, high⟩ := @derives_of_parse source 256 tree r hp
    exact high

theorem isRejection_of_parse (h : parse source = .error x) : x.IsRejection := by
  rcases hp : (Parser.ofString source).parse with ⟨y | tree, r⟩
  · obtain rfl : y = x := by simpa [parse, hp, Except.map] using h
    exact Parser.isRejection_of_parse hp
  · simp [parse, hp, Except.map] at h

/-- The memory is large enough for every text that is accepted. -/
theorem need_lt_of_parse (h : parse source = .ok e) : 8 + e.need < Ewe.capacity := by
  have low := height_le_of_parse h
  have few := e.need_le
  simp only [Ewe.capacity]
  omega

/-- A text is rejected by both ways of working on it, or both come to the same
fault, or both come to the same value. -/
theorem calculate_cases (source : String) :
    (∃ x, x.IsRejection ∧ calculate source = .error x ∧ compileProgram source = .error x) ∨
    (∃ text f line, calculate source = .error (.arithmetic f) ∧ compileProgram source = .ok text ∧
      Ewe.run text = .error ⟨line, .arithmetic f⟩) ∨
    ∃ text v, calculate source = .ok v ∧ compileProgram source = .ok text ∧
      Ewe.run text = .ok [v] := by
  rcases parsed : parse source with x | e
  · refine .inl ⟨x, isRejection_of_parse parsed, ?_, ?_⟩
    · rw [calculate, parsed]
      rfl
    · rw [compileProgram, parsed]
      rfl
  · have fits := need_lt_of_parse parsed
    have program : compileProgram source = .ok (Ewe.render (Ewe.program e)) := by
      rw [compileProgram, parsed]
      rfl
    have value : calculate source = e.calculate.mapError .arithmetic := by
      rw [calculate, parsed]
      rfl
    rcases outcome : e.calculate with f | v
    · rw [outcome] at value
      exact .inr (.inl ⟨_, f, _, value, program, Ewe.run_program_of_fault fits outcome⟩)
    · rw [outcome] at value
      exact .inr (.inr ⟨_, v, value, program, Ewe.run_program_of_value fits outcome⟩)

/-- Running the program of a text gives what evaluating the text gives: the same
value, the same fault or the same rejection. -/
theorem compiled_run_agrees (source : String) :
    (∀ v, calculate source = .ok v ↔
      ∃ text, compileProgram source = .ok text ∧ Ewe.run text = .ok [v]) ∧
    (∀ f, calculate source = .error (.arithmetic f) ↔
      ∃ text line, compileProgram source = .ok text ∧
        Ewe.run text = .error ⟨line, .arithmetic f⟩) ∧
    (∀ x, calculate source = .error x ∧ x.IsRejection ↔ compileProgram source = .error x) ∧
    (∀ text failure, compileProgram source = .ok text → Ewe.run text = .error failure →
      ∃ f, failure.problem = .arithmetic f) := by
  rcases calculate_cases source with
    ⟨x, rejection, value, program⟩ | ⟨text, f, line, value, program, run⟩ |
    ⟨text, v, value, program, run⟩
  · refine ⟨?_, ?_, ?_, ?_⟩
    · simp [value, program]
    · intro f
      have : x ≠ .arithmetic f := by
        rintro rfl
        exact rejection
      simp [value, program, this]
    · intro y
      simp only [value, program, Except.error.injEq]
      exact ⟨And.left, fun h => ⟨h, h ▸ rejection⟩⟩
    · simp [program]
  · refine ⟨?_, ?_, ?_, ?_⟩
    · simp [value, program, run]
    · simp [value, program, run]
    · simp only [value, program, Except.error.injEq, reduceCtorEq, iff_false, not_and]
      rintro _ rfl rejection
      exact rejection
    · simp only [program, Except.ok.injEq]
      rintro _ failure rfl failed
      rw [run] at failed
      exact ⟨f, by rw [← Except.error.inj failed]⟩
  · refine ⟨?_, ?_, ?_, ?_⟩
    · simp [value, program, run]
    · simp [value, program, run]
    · simp [value, program]
    · simp only [program, Except.ok.injEq]
      rintro _ failure rfl failed
      simp [run] at failed

/-- The program of a division by zero fails, and by the arithmetic only. -/
theorem division_by_zero_agrees :
    ∃ text failure, compileProgram "1/0" = .ok text ∧ Ewe.run text = .error failure ∧
      ∃ f, failure.problem = .arithmetic f := by
  obtain ⟨-, faults, -, only⟩ := compiled_run_agrees "1/0"
  obtain ⟨text, line, program, run⟩ := (faults .divisionByZero).1 (by decide +kernel)
  exact ⟨text, _, program, run, only text _ program run⟩

end Calculator
