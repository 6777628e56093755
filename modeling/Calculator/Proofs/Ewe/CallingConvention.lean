import Calculator.Proofs.Ewe.Loading
import Calculator.Proofs.Ewe.Simulation

/-!
# Code blocks in turn

The text of a code block is loaded with the names that the end of a program
defines. A block finds the registers as it left them, so blocks can follow each
other: together they act like the evaluation of their expressions in turn against
one memory.
-/

namespace Calculator

/-- Evaluate expressions in turn against one memory, up to the first fault. The
value is that of the last one, or `v` if there is none. -/
def Expr.evaluateAll (v : Int64) : List Expr → Memory → Except Fault Int64 × Memory
  | [], m => (.ok v, m)
  | e :: es, m =>
    match e.evaluate m with
    | (.error f, m₁) => (.error f, m₁)
    | (.ok w, m₁) => evaluateAll w es m₁

namespace Ewe

/-- The names that the end of every program defines are those of the registers. -/
theorem collectAliases_epilogue :
    collectAliases {} (codeLines (render epilogue).toList) = .ok registerAliases := by
  have clean : ∀ l ∈ epilogue, l.Clean := by
    simp [epilogue, Line.Clean, fetch, set, update]
  rw [codeLines_render clean, collectAliases_codeTexts clean]
  congr 1

theorem collectStatements_blocks (es : List Expr) :
    collectStatements registerAliases (codeLines (render (es.flatMap block)).toList) =
      .ok (numbered 1 (es.flatMap block)) := by
  have clean : ∀ l ∈ es.flatMap block, l.Clean := by
    intro l hl
    obtain ⟨e, -, he⟩ := List.mem_flatMap.1 hl
    exact clean_emit e (by simp) l he
  rw [codeLines_render clean, collectStatements_codeTexts clean]

/-- Blocks that run one after the other act like evaluations against one memory. -/
theorem runLines_blocks {a hi : Nat} (low : 7 ≤ a) (fits : hi < capacity) (es : List Expr)
    (room : ∀ e ∈ es, a + e.need ≤ hi) (m : Memory) (n : Nat) (s : Machine) (ready : Ready s a)
    (mem : s.get .mem = m.value) :
    match Expr.evaluateAll (s.cells.read a) es m with
    | (.ok v, m') => ∃ t, s.runLines n (es.flatMap block) = (.running, t) ∧ Delivers a hi v m' s t
    | (.error f, m') => ∃ line t,
        s.runLines n (es.flatMap block) = (.failed ⟨line, .arithmetic f⟩, t) ∧ Spares a m' s t := by
  induction es generalizing m n s with
  | nil => exact ⟨s, rfl, rfl, mem, rfl, fun _ _ _ _ _ => rfl⟩
  | cons e es ih =>
    have here := room e (by simp)
    have step := simulates e m a n s low (by omega) ready mem
    rw [List.flatMap_cons, Expr.evaluateAll]
    rcases eval : e.evaluate m with ⟨f | v, m₁⟩
    · rw [eval] at step
      obtain ⟨t, run, spares⟩ := step
      exact ⟨_, t, Machine.runLines_append_of_failed run _, spares⟩
    · rw [eval] at step
      obtain ⟨t, run, delivers⟩ := step
      have frame : Frame a hi s t := delivers.frame.mono (by omega) here
      have rest := ih (fun e he => room e (by simp [he])) m₁ (n + (block e).length) t
        (frame.ready low ready) delivers.memory
      rw [delivers.value] at rest
      simp only [Machine.runLines_append_of_running run]
      rcases evals : Expr.evaluateAll v es m₁ with ⟨f | w, m₂⟩
      · rw [evals] at rest
        obtain ⟨line, u, runᵤ, spares⟩ := rest
        refine ⟨line, u, runᵤ, spares.memory, fun b hb hba => ?_⟩
        rw [spares.below b hb hba, frame.stack hb (by omega)]
      · rw [evals] at rest
        obtain ⟨u, runᵤ, value, memᵤ, frameᵤ⟩ := rest
        exact ⟨u, runᵤ, value, memᵤ, frame.trans frameᵤ⟩

/-- The calling convention of code blocks, from their texts: a block delivers the
value of its expression or stops with its fault, and blocks in turn do what
evaluations in turn do. -/
theorem blocks_simulate_evaluation (m : Memory) (a : Nat) (s : Machine) (low : 7 ≤ a)
    (ready : Ready s a) (mem : s.get .mem = m.value) :
    ∃ aliases, collectAliases {} (codeLines (render epilogue).toList) = .ok aliases ∧
      (∀ e : Expr, a + e.need ≤ 65535 →
        ∃ code, collectStatements aliases (codeLines (render (block e)).toList) = .ok code ∧
          (∀ v m', e.evaluate m = (.ok v, m') → ∃ t, s.execute code = (.running, t) ∧
            t.cells.read a = v ∧ t.get .mem = m'.value ∧ t.get .sp = .ofNat a ∧
            (∀ b, b ≠ Register.tmp.address → b ≠ Register.tmp2.address →
              b ≠ Register.mem.address → ¬ (a ≤ b ∧ b ≤ a + e.need) →
              t.cells.read b = s.cells.read b) ∧
            t.output = s.output) ∧
          (∀ f m', e.evaluate m = (.error f, m') → ∃ line t,
            s.execute code = (.failed ⟨line, .arithmetic f⟩, t) ∧ t.get .mem = m'.value ∧
            ∀ b, 7 ≤ b → b < a → t.cells.read b = s.cells.read b)) ∧
      (∀ es : List Expr, (∀ e ∈ es, a + e.need ≤ 65535) →
        ∃ code,
          collectStatements aliases (codeLines (render (es.flatMap block)).toList) = .ok code ∧
          match Expr.evaluateAll (s.cells.read a) es m with
          | (.ok v, m') => ∃ t,
              s.execute code = (.running, t) ∧ Ready t a ∧ Delivers a 65535 v m' s t
          | (.error f, m') => ∃ line t,
              s.execute code = (.failed ⟨line, .arithmetic f⟩, t) ∧ Spares a m' s t) := by
  refine ⟨registerAliases, collectAliases_epilogue, fun e fits => ?_, fun es room => ?_⟩
  · refine ⟨_, collectStatements_block e, fun v m' eval => ?_, fun f m' eval => ?_⟩
    all_goals
      have run := simulates e m a 1 s low (by rw [capacity]; omega) ready mem
      rw [eval] at run
    · obtain ⟨t, run, delivers⟩ := run
      exact ⟨t, run, delivers.value, delivers.memory, (delivers.frame.ready low ready).sp,
        fun b h₀ h₁ h₅ hb => delivers.frame.read b h₀ h₁ h₅ (by omega), delivers.frame.output⟩
    · obtain ⟨t, run, spares⟩ := run
      exact ⟨_, t, run, spares.memory, spares.below⟩
  · refine ⟨_, collectStatements_blocks es, ?_⟩
    have run := runLines_blocks low (by decide) es room m 1 s ready mem
    rcases eval : Expr.evaluateAll (s.cells.read a) es m with ⟨f | v, m'⟩
    · rw [eval] at run
      exact run
    · rw [eval] at run
      obtain ⟨t, run, delivers⟩ := run
      exact ⟨t, run, delivers.frame.ready low ready, delivers⟩

/-- What was stored before a division by zero is in `mem` when the code stops. -/
theorem store_remains_at_division_by_zero :
    ∃ aliases code line t,
      collectAliases {} (codeLines (render epilogue).toList) = .ok aliases ∧
      collectStatements aliases (codeLines (render
        (block (.binary .div (.store (.number 7)) (.number 0)))).toList) = .ok code ∧
      ({ cells := ⟨#[0, 0, 0, 1, 3, 9, 8]⟩ } : Machine).execute code =
        (.failed ⟨line, .arithmetic .divisionByZero⟩, t) ∧ t.get .mem = 7 := by
  obtain ⟨aliases, names, single, -⟩ := blocks_simulate_evaluation ⟨[9]⟩ 8
    { cells := ⟨#[0, 0, 0, 1, 3, 9, 8]⟩ } (by decide)
    ⟨by decide, by decide, by decide, by decide⟩ (by decide)
  obtain ⟨code, loaded, -, fault⟩ :=
    single (.binary .div (.store (.number 7)) (.number 0)) (by decide)
  obtain ⟨line, t, run, mem, -⟩ := fault .divisionByZero ⟨[7, 9]⟩ (by decide)
  exact ⟨aliases, code, line, t, names, loaded, run, mem⟩

end Ewe

end Calculator
