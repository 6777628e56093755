import Calculator.Proofs.Ewe.Loading
import Calculator.Proofs.Ewe.Simulation

/-!
# How much a compiled program can hold

A program starts its stack above the cell 7. It computes the value of its
expression as long as the cells that the expression needs exist, and it fails
as soon as one of them does not: no address wraps around or is moved into the
memory.
-/

namespace Calculator.Ewe

/-! ## Code without room fails -/

/-- The code of `e` fails wherever it has too little room. -/
def Overruns (e : Expr) : Prop :=
  ∀ (a n : Nat) (s : Machine), 7 ≤ a → a < 2 ^ 63 → Ready s a → capacity ≤ a + e.need →
    ∃ f t, s.runLines n (block e) = (.failed f, t)

theorem overruns_number (v : Int64) : Overruns (.number v) := by
  intro a n s low small ready full
  have sp : (s.write Register.tmp.address v).get .sp = .ofNat a := by
    rw [Machine.get_write, if_neg (by decide), ready.sp]
  obtain ⟨f, run⟩ := Machine.runLines_move_slot_outside (n + 1 + 1) [.comment "End Number"] .tmp sp
    small (by simpa [Expr.need] using full)
  refine ⟨f, s.write Register.tmp.address v, ?_⟩
  rw [block, emit, Machine.runLines_comment, Machine.runLines_set_literal, put, run]

theorem overruns_memory : Overruns .memory := by
  intro a n s low small ready full
  obtain ⟨f, run⟩ :=
    Machine.runLines_move_slot_outside (n + 1) [.comment "End Recall"] .mem ready.sp
    small (by simpa [Expr.need] using full)
  exact ⟨f, s, run⟩

/-- An operand without room fails in its frame, or already when `sp` has no word
for the frame. -/
theorem Overruns.framed {e : Expr} {a k : Nat} {w : Int64} {s : Machine} {r : Register}
    (overrun : Overruns e) (n : Nat) (notes : List String) (low : 7 ≤ a) (small : a < 2 ^ 63)
    (ready : Ready s a) (held : ∀ {t b}, Ready t b → t.get r = .ofNat k) (hk : k < 2 ^ 63)
    (full : capacity ≤ a + k + e.need) :
    ∃ f t, s.runLines n (framed r w notes e) = (.failed f, t) := by
  have sum : Op.add.apply (s.get .sp) (s.get r) = Op.add.apply (.ofNat a) (.ofNat k) := by
    rw [ready.sp, held ready]
  rcases up : Op.add.apply (.ofNat a) (.ofNat k) with f | v
  · exact ⟨_, s, Machine.runLines_compute_fault _ _ _ (sum.trans up)⟩
  · have small' : a + k < 2 ^ 63 := Op.lt_of_apply_add_eq_ok small hk up
    obtain ⟨f, t, run⟩ :=
      overrun (a + k) (n + 1 + notes.length) _ (by omega) small' (ready.move _) full
    refine ⟨f, t, ?_⟩
    rw [ready.enter (held ready) small', Machine.runLines_append_of_failed run]

/-- Code that starts with an operand one cell up fails if that operand has no room. -/
theorem Overruns.unary {e e' : Expr} {note : String} {rest : List Line} (overrun : Overruns e)
    (need : e'.need = 1 + e.need)
    (code : block e' = .comment note :: (Ewe.framed .uno 1 [] e ++ rest)) : Overruns e' := by
  intro a n s low small ready full
  obtain ⟨f, t, run⟩ :=
    overrun.framed (w := 1) (k := 1) (n + 1) [] low small ready Ready.uno (by decide) (by omega)
  exact ⟨f, t, by rw [code]; exact Machine.runLines_append_of_failed run _⟩

/-- If the left operand has room, its code ends as evaluation does; so either it
stops with a fault or the right operand is reached and has no room. -/
theorem Overruns.binary {l r : Expr} (op : Op) (overl : Overruns l) (overr : Overruns r) :
    Overruns (.binary op l r) := by
  intro a n s low small ready full
  rw [block_binary]
  by_cases fullₗ : capacity ≤ a + 3 + l.need
  · obtain ⟨f, t, run⟩ := overl.framed (w := 3) (k := 3) (n + 1) ["Left operand"] low small ready
      Ready.tres (by decide) fullₗ
    exact ⟨f, t, Machine.runLines_append_of_failed run _⟩
  · have mem : s.get .mem = (Memory.mk [s.get .mem]).value := rfl
    rcases eval : l.evaluate ⟨[s.get .mem]⟩ with ⟨f | v, m'⟩
    · obtain ⟨t, run, -⟩ :=
        (simulates l).framed_error (w := 3) (k := 3) (n + 1) ["Left operand"] low
        (by omega) Ready.tres ready mem eval
      exact ⟨_, t, Machine.runLines_append_of_failed run _⟩
    · obtain ⟨t, staged, ready', -⟩ := (simulates l).stage_left n ("Start " ++ blockName op) low
        (by omega) ready mem eval
      obtain ⟨f, u, run⟩ := overr.framed (w := 3) (k := 3) (n + (block l).length + 6)
        ["Right operand"] low small ready' Ready.tres (by decide) (by rw [Expr.need] at full; omega)
      exact ⟨f, u, by rw [staged]; exact Machine.runLines_append_of_failed run _⟩

theorem overruns (e : Expr) : Overruns e := by
  induction e with
  | number v => exact overruns_number v
  | memory => exact overruns_memory
  | negate e ih => exact ih.unary rfl (block_negate e)
  | store e ih => exact ih.unary rfl (block_store e)
  | binary op l r ihl ihr => exact ihl.binary op ihr

/-! ## Whole programs -/

/-- The prologue sets the registers up and lets `sp` point to the cell 8. -/
theorem runLines_prologue :
    ∃ t : Machine, (∀ ls, ({} : Machine).runLines 1 (prologue ++ ls) = t.runLines 8 ls) ∧
      Ready t 8 ∧ t.get .mem = 0 ∧ t.output = #[] := by
  let s : Machine := ((((({} : Machine).write Register.sp.address 7).write
    Register.negateNum.address 0).write Register.uno.address 1).write Register.tres.address 3)
  have up : Op.add.apply (s.get .sp) (s.get .uno) = .ok 8 := by decide
  refine ⟨s.write Register.sp.address 8, fun ls => ?_, ⟨?_, ?_, ?_, ?_⟩, ?_, rfl⟩
  · simp only [prologue, List.cons_append, List.nil_append, Machine.runLines_comment,
      Machine.runLines_labelled]
    rw [← set, Machine.runLines_set_literal, Machine.runLines_set_literal,
      Machine.runLines_set_literal, Machine.runLines_set_literal, update,
      Machine.runLines_compute _ _ _ up]
  all_goals decide

/-- The epilogue prints the word in the cell 8 and halts. -/
theorem runLines_epilogue {s : Machine} (n : Nat) (ready : Ready s 8) (out : s.output = #[]) :
    ∃ t, s.runLines n epilogue = (.halted, t) ∧ t.output = #[s.cells.read 8] := by
  have down : Op.sub.apply (s.get .sp) (s.get .uno) = .ok (.ofNat 7) := by
    rw [ready.sp, ready.uno]
    exact @Op.apply_sub_ofNat 7 1 (by decide)
  have ready₁ : Ready (s.write Register.sp.address (.ofNat 7)) 7 := ready.move 7
  have value : (s.write Register.sp.address (.ofNat 7)).cells.read (7 + 1) = s.cells.read 8 := by
    rw [Machine.read_write, if_neg (by decide)]
  let t := (s.write Register.sp.address (.ofNat 7)).write Register.tmp.address (s.cells.read 8)
  have tmp : t.get .tmp = s.cells.read 8 := by simp [t]
  refine ⟨t.perform (.print (s.cells.read 8)), ?_, ?_⟩
  · simp only [epilogue, List.cons_append]
    rw [Machine.runLines_comment, update, Machine.runLines_compute _ _ _ down,
      ready₁.fetch (w := 1) (k := 1) _ _ _ rfl (by decide), value, Machine.runLines_print, tmp,
      Machine.runLines_halt]
  · change s.output.push _ = _
    rw [out]
    rfl

/-- Running the text of a program is executing its lines. -/
theorem run_program (e : Expr) :
    run (render (program e)) =
      match ({} : Machine).runLines 1 (program e) with
      | (.failed f, _) => .error f
      | (_, m) => .ok m.output.toList := by
  rw [run, load_program]
  rfl

/-- From the prologue on, a program is the code of its expression at the cell 8. -/
theorem runLines_program (e : Expr) :
    ∃ s : Machine, Ready s 8 ∧ s.get .mem = 0 ∧ s.output = #[] ∧
      ({} : Machine).runLines 1 (program e) = s.runLines 8 (block e ++ epilogue) := by
  obtain ⟨s, run, ready, mem, out⟩ := runLines_prologue
  exact ⟨s, ready, mem, out, by rw [program, run, emit_eq]⟩

theorem run_program_of_value {e : Expr} {v : Int64} (fits : 8 + e.need < capacity)
    (value : e.calculate = .ok v) : run (render (program e)) = .ok [v] := by
  obtain ⟨s, ready, mem, out, start⟩ := runLines_program e
  have sim := simulates e {} 8 8 s (by decide) fits ready mem
  rcases eval : e.evaluate {} with ⟨f | w, m⟩
  · simp [Expr.calculate, eval] at value
  obtain rfl : w = v := by simpa [Expr.calculate, eval] using value
  rw [eval] at sim
  obtain ⟨t, run, delivers⟩ := sim
  obtain ⟨u, halt, printed⟩ := runLines_epilogue (8 + (block e).length)
    (delivers.frame.ready (by decide) ready) (delivers.frame.output.trans out)
  rw [run_program, start, Machine.runLines_append_of_running run, halt]
  simp [printed, delivers.value]

theorem run_program_of_fault {e : Expr} {f : Fault} (fits : 8 + e.need < capacity)
    (fault : e.calculate = .error f) :
    run (render (program e)) = .error ⟨faultLine e {} 8, .arithmetic f⟩ := by
  obtain ⟨s, ready, mem, out, start⟩ := runLines_program e
  have sim := simulates e {} 8 8 s (by decide) fits ready mem
  rcases eval : e.evaluate {} with ⟨g | w, m⟩
  · obtain rfl : g = f := by simpa [Expr.calculate, eval] using fault
    rw [eval] at sim
    obtain ⟨t, run, -⟩ := sim
    rw [run_program, start, Machine.runLines_append_of_failed run]
  · simp [Expr.calculate, eval] at fault

theorem run_program_of_overrun {e : Expr} (full : capacity ≤ 8 + e.need) :
    ∃ f, run (render (program e)) = .error f := by
  obtain ⟨s, ready, -, -, start⟩ := runLines_program e
  obtain ⟨f, t, run⟩ := overruns e 8 8 s (by decide) (by decide) ready full
  exact ⟨f, by rw [run_program, start, Machine.runLines_append_of_failed run]⟩

/-! ## What can go wrong while a program runs -/

/-- Whether a problem can come up while statements are executed. -/
def Problem.isDynamic : Problem → Bool
  | .address _ | .arithmetic _ => true
  | .directive _ | .statement _ | .operand _ => false

theorem Place.isDynamic_of_address {c : Cells} {p : Place Nat} {problem : Problem}
    (h : p.address c = .error problem) : problem.isDynamic := by
  rw [Place.address] at h
  split at h
  · simp at h
  · obtain rfl := Except.error.inj h
    rfl

theorem Place.isDynamic_of_assign {c : Cells} {p : Place Nat} {v : Int64} {problem : Problem}
    (h : (p.assign c v).map some = .error problem) : problem.isDynamic := by
  rw [Place.assign] at h
  cases ha : p.address c with
  | error q =>
    rw [ha] at h
    exact Except.error.inj h ▸ Place.isDynamic_of_address ha
  | ok a => simp [ha, Except.map] at h

theorem Operand.isDynamic_of_value {c : Cells} {x : Operand Nat} {problem : Problem}
    (h : x.value c = .error problem) : problem.isDynamic := by
  cases x with
  | literal v => simp [Operand.value] at h
  | place p =>
    rw [Operand.value] at h
    cases ha : p.address c with
    | error q =>
      rw [ha] at h
      exact Except.error.inj h ▸ Place.isDynamic_of_address ha
    | ok a => simp [ha, Except.map] at h

theorem Statement.isDynamic_of_effect {c : Cells} {s : Statement Nat} {problem : Problem}
    (h : s.effect c = .error problem) : problem.isDynamic := by
  cases s with
  | move dst src =>
    simp only [Statement.effect] at h
    split at h
    · next hv => exact Except.error.inj h ▸ Operand.isDynamic_of_value hv
    · exact Place.isDynamic_of_assign h
  | compute dst lhs op rhs =>
    simp only [Statement.effect] at h
    split at h
    · next hv => exact Except.error.inj h ▸ Operand.isDynamic_of_value hv
    split at h
    · next hv => exact Except.error.inj h ▸ Operand.isDynamic_of_value hv
    split at h
    · obtain rfl := Except.error.inj h
      rfl
    · exact Place.isDynamic_of_assign h
  | writeInt src =>
    simp only [Statement.effect] at h
    cases hv : src.value c with
    | error q =>
      rw [hv] at h
      exact Except.error.inj h ▸ Operand.isDynamic_of_value hv
    | ok v => simp [hv, Except.map] at h
  | halt => simp [Statement.effect] at h

theorem Machine.isDynamic_of_execute {m t : Machine} {xs : List (Nat × Statement Nat)} {f : Failure}
    (h : m.execute xs = (.failed f, t)) : f.problem.isDynamic := by
  obtain ⟨_, _, _, -, -, failed⟩ := Machine.exists_of_failed h
  exact Statement.isDynamic_of_effect failed

theorem isDynamic_of_run_program {e : Expr} {f : Failure}
    (h : run (render (program e)) = .error f) : f.problem.isDynamic := by
  rw [run_program] at h
  split at h
  · next hx =>
    obtain rfl := Except.error.inj h
    exact Machine.isDynamic_of_execute hx
  · simp at h

/-- A program computes the value of its expression exactly as long as the memory
holds the cells it needs. It never gives a wrong answer, and it never fails to
load. -/
theorem program_capacity (e : Expr) :
    (∀ out, run (render (program e)) = .ok out ↔
      8 + e.need ≤ 65535 ∧ ∃ v, e.calculate = .ok v ∧ out = [v]) ∧
    (8 + e.need ≤ 65535 → ∀ f, e.calculate = .error f →
      ∃ line, run (render (program e)) = .error ⟨line, .arithmetic f⟩) ∧
    (65535 < 8 + e.need → ∀ out, run (render (program e)) ≠ .ok out) ∧
    (∀ f, run (render (program e)) = .error f → ∀ text,
      f.problem ≠ .directive text ∧ f.problem ≠ .statement text ∧ f.problem ≠ .operand text) := by
  have full (h : 65535 < 8 + e.need) (out : List Int64) : run (render (program e)) ≠ .ok out := by
    obtain ⟨f, run⟩ := run_program_of_overrun (show capacity ≤ 8 + e.need from h)
    simp [run]
  refine ⟨fun out => ⟨fun ok => ?_, ?_⟩, fun fits f fault => ?_, full, fun f fail text => ?_⟩
  · have fits : 8 + e.need ≤ 65535 := by
      by_contra h
      exact full (by omega) out ok
    refine ⟨fits, ?_⟩
    rcases value : e.calculate with f | v
    · simp [run_program_of_fault (Nat.lt_succ_of_le fits) value] at ok
    · rw [run_program_of_value (Nat.lt_succ_of_le fits) value] at ok
      exact ⟨v, rfl, (Except.ok.inj ok).symm⟩
  · rintro ⟨fits, v, value, rfl⟩
    exact run_program_of_value (Nat.lt_succ_of_le fits) value
  · exact ⟨_, run_program_of_fault (Nat.lt_succ_of_le fits) fault⟩
  · have dynamic := isDynamic_of_run_program fail
    refine ⟨?_, ?_, ?_⟩ <;> intro h <;> simp [h, Problem.isDynamic] at dynamic

theorem need_repeat_negate (n : Nat) : (Nat.repeat Expr.negate n .memory).need = n := by
  induction n with
  | zero => rfl
  | succ n ih => rw [Nat.repeat, Expr.need, ih, Nat.add_comm]

/-- The negation of the smallest word faults in its program, and there are
expressions too high for the memory. -/
theorem program_capacity_is_reached :
    (∃ line, run (render (program (.negate (.number Int64.minValue)))) =
      .error ⟨line, .arithmetic .overflow⟩) ∧
    ∀ out, run (render (program (Nat.repeat .negate 65528 .memory))) ≠ .ok out := by
  have full : 65535 < 8 + (Nat.repeat Expr.negate 65528 .memory).need := by
    rw [need_repeat_negate]
    decide
  refine ⟨?_, (program_capacity (Nat.repeat .negate 65528 .memory)).2.2.1 full⟩
  exact (program_capacity (.negate (.number Int64.minValue))).2.1 (by decide) .overflow (by decide)

end Calculator.Ewe
