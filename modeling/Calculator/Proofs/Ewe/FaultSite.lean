import Calculator.Proofs.Agreement

/-!
# Where a program fails

Evaluation goes from left to right and takes the operands before the operation,
so a fault belongs to one node of the expression: the first one whose operands
have values and whose own operation has none. The program of the expression
fails on the line where the code of this node combines its operands.
-/

namespace Calculator

open Ewe

/-- An expression with a hole in the place of one node. -/
inductive Context where
  | hole
  | negate (c : Context)
  | store (c : Context)
  | left (op : Op) (c : Context) (r : Expr)
  | right (op : Op) (l : Expr) (c : Context)
  deriving DecidableEq, Repr

namespace Context

def fill : Context → Expr → Expr
  | hole, x => x
  | negate c, x => .negate (c.fill x)
  | store c, x => .store (c.fill x)
  | left op c r, x => .binary op (c.fill x) r
  | right op l c, x => .binary op l (c.fill x)

/-- The lines of code in front of the hole. -/
def before : Context → List Line
  | hole => []
  | negate c => .comment "Start Negate" :: update .sp .add .uno :: c.before
  | store c => .comment "Start Store" :: update .sp .add .uno :: c.before
  | left op c _ =>
    .comment ("Start " ++ blockName op) :: update .sp .add .tres :: .comment "Left operand" ::
      c.before
  | right op l c =>
    .comment ("Start " ++ blockName op) :: framed .tres 3 ["Left operand"] l ++
      put 1 :: update .sp .add .tres :: .comment "Right operand" :: c.before

/-- The lines of code behind the hole. -/
def after : Context → List Line
  | hole => []
  | negate c =>
    c.after ++ [update .sp .sub .uno, fetch .tmp 1,
      .code (.compute (.cell .tmp) (reg .negateNum) .sub (reg .tmp)), put 0,
      .comment "End Negate"]
  | store c =>
    c.after ++ [update .sp .sub .uno, fetch .tmp 1, put 0, set .mem (reg .tmp),
      .comment "End Store"]
  | left op c r =>
    c.after ++ [update .sp .sub .tres, fetch .tmp 3, put 1] ++
      framed .tres 3 ["Right operand"] r ++ [put 2, fetch .tmp 1, fetch .tmp2 2,
        update .tmp op .tmp2, put 0, .comment ("End " ++ blockName op)]
  | right op _ c =>
    c.after ++ [update .sp .sub .tres, fetch .tmp 3, put 2, fetch .tmp 1, fetch .tmp2 2,
      update .tmp op .tmp2, put 0, .comment ("End " ++ blockName op)]

/-- What is put into the hole has its own code there. -/
theorem block_fill (c : Context) (x : Expr) :
    block (c.fill x) = c.before ++ block x ++ c.after := by
  induction c with
  | hole => exact (List.append_nil _).symm
  | negate c ih => simp [fill, before, after, block_negate, framed, ih]
  | store c ih => simp [fill, before, after, block_store, framed, ih]
  | left op c r ih | right op l c ih => simp [fill, before, after, block_binary, framed, ih]

theorem program_fill (c : Context) (x : Expr) :
    program (c.fill x) = prologue ++ c.before ++ block x ++ (c.after ++ epilogue) := by
  simp [program, emit_eq, block_fill]

end Context

/-- With the memory `m`, the first fault in `e` is `f`, and it comes from the
operation of the node `x` in the context `c`. -/
inductive FirstFault : Expr → Memory → Context → Expr → Fault → Prop where
  | negation {e : Expr} {m m₁ : Memory} {v : Int64} {f : Fault} :
      e.evaluate m = (.ok v, m₁) → negated v = .error f →
      FirstFault (.negate e) m .hole (.negate e) f
  | operation {op : Op} {l r : Expr} {m m₁ m₂ : Memory} {v w : Int64} {f : Fault} :
      l.evaluate m = (.ok v, m₁) → r.evaluate m₁ = (.ok w, m₂) → op.apply v w = .error f →
      FirstFault (.binary op l r) m .hole (.binary op l r) f
  | negate {e x : Expr} {m : Memory} {c : Context} {f : Fault} :
      FirstFault e m c x f → FirstFault (.negate e) m (.negate c) x f
  | store {e x : Expr} {m : Memory} {c : Context} {f : Fault} :
      FirstFault e m c x f → FirstFault (.store e) m (.store c) x f
  | left {op : Op} {l r x : Expr} {m : Memory} {c : Context} {f : Fault} :
      FirstFault l m c x f → FirstFault (.binary op l r) m (.left op c r) x f
  | right {op : Op} {l r x : Expr} {m m₁ : Memory} {v : Int64} {c : Context} {f : Fault} :
      l.evaluate m = (.ok v, m₁) → FirstFault r m₁ c x f →
      FirstFault (.binary op l r) m (.right op l c) x f

namespace FirstFault

variable {e x : Expr} {m m' : Memory} {c : Context} {f : Fault}

theorem fill_eq (h : FirstFault e m c x f) : c.fill x = e := by
  induction h with
  | negation | operation => rfl
  | negate _ ih | store _ ih | left _ ih | right _ _ ih => rw [Context.fill, ih]

theorem evaluate_eq (h : FirstFault e m c x f) : ∃ m', e.evaluate m = (.error f, m') := by
  induction h with
  | negation value fault => exact ⟨_, by rw [Expr.evaluate, value, ← fault]⟩
  | operation lhs rhs fault => exact ⟨_, by simp only [Expr.evaluate, lhs, rhs, fault]; rfl⟩
  | negate _ ih | store _ ih | left _ ih =>
    obtain ⟨m', ih⟩ := ih
    exact ⟨m', by rw [Expr.evaluate, ih]⟩
  | right lhs _ ih =>
    obtain ⟨m', ih⟩ := ih
    exact ⟨m', by simp only [Expr.evaluate, lhs, ih]⟩

/-- Every fault comes from some node. -/
theorem of_evaluate (h : e.evaluate m = (.error f, m')) : ∃ c x, FirstFault e m c x f := by
  induction e generalizing m m' with
  | number v => cases h
  | memory => cases h
  | negate e ih =>
    rw [Expr.evaluate] at h
    rcases value : e.evaluate m with ⟨g | v, m₁⟩ <;> rw [value] at h
    · obtain ⟨⟨⟩, -⟩ := Prod.mk.inj h
      obtain ⟨c, x, site⟩ := ih value
      exact ⟨_, x, site.negate⟩
    · exact ⟨_, _, .negation value (Prod.mk.inj h).1⟩
  | store e ih =>
    rw [Expr.evaluate] at h
    rcases value : e.evaluate m with ⟨g | v, m₁⟩ <;> rw [value] at h
    · obtain ⟨⟨⟩, -⟩ := Prod.mk.inj h
      obtain ⟨c, x, site⟩ := ih value
      exact ⟨_, x, site.store⟩
    · cases h
  | binary op l r ihl ihr =>
    rw [Expr.evaluate] at h
    rcases lhs : l.evaluate m with ⟨g | v, m₁⟩ <;> rw [lhs] at h
    · obtain ⟨⟨⟩, -⟩ := Prod.mk.inj h
      obtain ⟨c, x, site⟩ := ihl lhs
      exact ⟨_, x, site.left⟩
    dsimp only at h
    rcases rhs : r.evaluate m₁ with ⟨g | w, m₂⟩ <;> rw [rhs] at h
    · obtain ⟨⟨⟩, -⟩ := Prod.mk.inj h
      obtain ⟨c, x, site⟩ := ihr rhs
      exact ⟨_, x, site.right lhs⟩
    · exact ⟨_, _, .operation lhs rhs (Prod.mk.inj h).1⟩

/-- An expression with a value has no fault. -/
theorem not_of_value {v : Int64} (value : e.evaluate m = (.ok v, m')) :
    ¬ FirstFault e m c x f := by
  intro h
  obtain ⟨_, fault⟩ := h.evaluate_eq
  rw [value] at fault
  cases fault

/-- Only one node has the first fault. -/
theorem unique {c' : Context} {x' : Expr} {f' : Fault} (h : FirstFault e m c x f)
    (h' : FirstFault e m c' x' f') : c' = c ∧ x' = x ∧ f' = f := by
  induction h generalizing c' with
  | negation value fault =>
    cases h' with
    | negation value' fault' =>
      cases value.symm.trans value'
      cases fault.symm.trans fault'
      exact ⟨rfl, rfl, rfl⟩
    | negate inner => exact (not_of_value value inner).elim
  | operation lhs rhs fault =>
    cases h' with
    | operation lhs' rhs' fault' =>
      cases lhs.symm.trans lhs'
      cases rhs.symm.trans rhs'
      cases fault.symm.trans fault'
      exact ⟨rfl, rfl, rfl⟩
    | left inner => exact (not_of_value lhs inner).elim
    | right lhs' inner =>
      cases lhs.symm.trans lhs'
      exact (not_of_value rhs inner).elim
  | negate inner ih =>
    cases h' with
    | negation value => exact (not_of_value value inner).elim
    | negate inner' =>
      obtain ⟨rfl, same⟩ := ih inner'
      exact ⟨rfl, same⟩
  | store _ ih =>
    cases h' with
    | store inner' =>
      obtain ⟨rfl, same⟩ := ih inner'
      exact ⟨rfl, same⟩
  | left inner ih =>
    cases h' with
    | operation lhs => exact (not_of_value lhs inner).elim
    | left inner' =>
      obtain ⟨rfl, same⟩ := ih inner'
      exact ⟨rfl, same⟩
    | right lhs => exact (not_of_value lhs inner).elim
  | right lhs inner ih =>
    cases h' with
    | operation lhs' rhs' =>
      cases lhs.symm.trans lhs'
      exact (not_of_value rhs' inner).elim
    | left inner' => exact (not_of_value lhs inner').elim
    | right lhs' inner' =>
      cases lhs.symm.trans lhs'
      obtain ⟨rfl, same⟩ := ih inner'
      exact ⟨rfl, same⟩

end FirstFault

/-- The line on which a node combines the values of its operands. -/
def Expr.combining : Expr → List Char
  | negate _ => "     tmp := negateNum - tmp".toList
  | binary op _ _ => "     tmp := tmp ".toList ++ op.symbol :: " tmp2".toList
  | number _ | memory | store _ => []

theorem text_negation :
    (Line.code (.compute (.cell .tmp) (reg .negateNum) .sub (reg .tmp))).text =
      "     tmp := negateNum - tmp".toList := by
  decide +kernel

theorem text_operation (op : Op) :
    (update .tmp op .tmp2).text = "     tmp := tmp ".toList ++ op.symbol :: " tmp2".toList := by
  cases op <;> decide +kernel

/-- `s` is the line in the code of `x` that combines its operands, and `code` are
the lines before it: behind it, the result is only put into its cell. -/
def CombinesAt (x : Expr) (code : List Line) (s : Line) : Prop :=
  s.text = x.combining ∧ ∃ note, block x = code ++ [s, put 0, .comment note]

/-- The line of the first fault is that of the instruction that combines the
operands of its node. -/
theorem FirstFault.exists_combinesAt {e x : Expr} {m : Memory} {c : Context} {f : Fault}
    (h : FirstFault e m c x f) :
    ∃ code s, CombinesAt x code s ∧
      ∀ n, faultLine e m n = n + c.before.length + code.length := by
  induction h with
  | @negation e _ _ _ _ value _ =>
    refine ⟨.comment "Start Negate" :: framed .uno 1 [] e, _,
      ⟨text_negation, _, block_negate e⟩, fun n => ?_⟩
    simp only [faultLine, value, Context.before, List.length_nil, List.length_cons, length_framed]
    omega
  | @operation op l r _ _ _ _ _ _ lhs rhs _ =>
    refine ⟨.comment ("Start " ++ blockName op) :: framed .tres 3 ["Left operand"] l ++ put 1 ::
      framed .tres 3 ["Right operand"] r ++ [put 2, fetch .tmp 1, fetch .tmp2 2],
      update .tmp op .tmp2, ⟨text_operation op, "End " ++ blockName op, ?_⟩, fun n => ?_⟩
    · rw [block_binary]
      simp
    · simp only [faultLine, lhs, rhs, Context.before, List.length_nil, List.length_cons,
        List.length_append, List.cons_append, length_framed]
      omega
  | negate inner ih | left inner ih =>
    obtain ⟨code, s, here, line⟩ := ih
    obtain ⟨_, fault⟩ := inner.evaluate_eq
    refine ⟨code, s, here, fun n => ?_⟩
    simp only [faultLine, fault, line, Context.before, List.length_cons]
    omega
  | store inner ih =>
    obtain ⟨code, s, here, line⟩ := ih
    refine ⟨code, s, here, fun n => ?_⟩
    simp only [faultLine, line, Context.before, List.length_cons]
    omega
  | right lhs inner ih =>
    obtain ⟨code, s, here, line⟩ := ih
    obtain ⟨_, fault⟩ := inner.evaluate_eq
    refine ⟨code, s, here, fun n => ?_⟩
    simp only [faultLine, lhs, fault, line, Context.before, List.length_nil, List.length_cons,
      List.length_append, List.cons_append, length_framed]
    omega

/-- A program that fits the memory fails with the fault of its expression, on the
line that combines the operands of the node where evaluation first faults. -/
theorem program_fails_at_first_fault (e : Expr) :
    (∀ source, parse source = .ok e → 8 + e.need ≤ 65535) ∧
    (8 + e.need ≤ 65535 → ∀ f, e.calculate = .error f →
      ∃ c x code s, FirstFault e {} c x f ∧
        (∀ c' x' f', FirstFault e {} c' x' f' → c' = c ∧ x' = x ∧ f' = f) ∧
        c.fill x = e ∧
        (∀ y, program (c.fill y) = prologue ++ c.before ++ block y ++ (c.after ++ epilogue)) ∧
        CombinesAt x code s ∧
        ∃ line, line = (prologue ++ c.before ++ code).length ∧
          (Text.lines (render (program e)).toList)[line]? = some x.combining ∧
          run (render (program e)) = .error ⟨line + 1, .arithmetic f⟩) := by
  refine ⟨fun source parsed => Nat.le_of_lt_succ (need_lt_of_parse parsed), fun fits f fault => ?_⟩
  obtain ⟨m', eval⟩ : ∃ m', e.evaluate {} = (.error f, m') := ⟨_, Prod.ext fault rfl⟩
  obtain ⟨c, x, first⟩ := FirstFault.of_evaluate eval
  obtain ⟨code, s, here, number⟩ := first.exists_combinesAt
  refine ⟨c, x, code, s, first, fun _ _ _ => first.unique, first.fill_eq, c.program_fill, here,
    _, rfl, ?_, ?_⟩
  · obtain ⟨text, note, block⟩ := here
    rw [lines_render (clean_program e), ← first.fill_eq, c.program_fill, block, ← text]
    simp
  · have count : (prologue ++ c.before ++ code).length + 1 = 8 + c.before.length + code.length := by
      simp only [prologue, List.length_append, List.length_cons, List.length_nil]
      omega
    rw [run_program_of_fault (Nat.lt_succ_of_le fits) fault, number, count]

/-- In `1S + 7 % (R - 1)`, it is the remainder that faults. -/
theorem remainder_by_zero_fails_on_line :
    run (render (program (.binary .add (.store (.number 1))
      (.binary .mod (.number 7) (.binary .sub .memory (.number 1)))))) =
        .error ⟨67, .arithmetic .moduloByZero⟩ := by
  obtain ⟨c, x, code, s, -, unique, -, -, ⟨-, note, lines⟩, _, rfl, -, run⟩ :=
    (program_fails_at_first_fault (.binary .add (.store (.number 1))
      (.binary .mod (.number 7) (.binary .sub .memory (.number 1))))).2 (by decide)
        .moduloByZero (by decide)
  obtain ⟨rfl, rfl, -⟩ := unique _ _ _ (.right rfl (.operation rfl rfl rfl))
  have size : code.length + 3 = 43 := by simpa [block, emit] using (congrArg List.length lines).symm
  rw [run, List.length_append, show code.length = 40 by omega]
  rfl

end Calculator
