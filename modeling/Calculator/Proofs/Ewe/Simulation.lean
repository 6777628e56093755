import Calculator.Expr.Evaluation
import Calculator.Proofs.Ewe.Execution

/-!
# Compiled code simulates evaluation

The code of an expression works above the cell `a` that `sp` points to. If the
expression has a value, the code leaves it there and `sp` as it was; if it has
a fault, the code stops with that fault. The register `mem` follows the memory
cell in both cases. Apart from scratch registers nothing outside of the cells
that the expression needs is touched.
-/

namespace Calculator

/-- How many cells above its own the code of an expression needs. -/
def Expr.need : Expr → Nat
  | number _ | memory => 0
  | negate e | store e => 1 + e.need
  | binary _ l r => 3 + max l.need r.need

namespace Ewe

/-! ## The code of an expression from the code of its operands -/

/-- Compute `e` in a frame `k` cells up, where `r` holds `k`, and load its value. -/
def framed (r : Register) (k : Int64) (notes : List String) (e : Expr) : List Line :=
  update .sp .add r :: (notes.map .comment ++ (block e ++ [update .sp .sub r, fetch .tmp k]))

@[simp] theorem length_framed (r : Register) (k : Int64) (notes : List String) (e : Expr) :
    (framed r k notes e).length = notes.length + (block e).length + 3 := by
  simp [framed]
  omega

theorem block_negate (e : Expr) :
    block (.negate e) = .comment "Start Negate" :: (framed .uno 1 [] e ++
      [.code (.compute (.cell .tmp) (reg .negateNum) .sub (reg .tmp)), put 0,
        .comment "End Negate"]) := by
  rw [block, emit, emit_eq]
  simp [framed]

theorem block_store (e : Expr) :
    block (.store e) = .comment "Start Store" :: (framed .uno 1 [] e ++
      [put 0, set .mem (reg .tmp), .comment "End Store"]) := by
  rw [block, emit, emit_eq]
  simp [framed]

theorem block_binary (op : Op) (l r : Expr) :
    block (.binary op l r) = .comment ("Start " ++ blockName op) ::
      (framed .tres 3 ["Left operand"] l ++ put 1 ::
        (framed .tres 3 ["Right operand"] r ++
          [put 2, fetch .tmp 1, fetch .tmp2 2, update .tmp op .tmp2, put 0,
            .comment ("End " ++ blockName op)])) := by
  rw [block, emit, emit_eq, emit_eq]
  simp [framed]

/-! ## What code relies on and what it leaves alone -/

/-- The constants are in their registers, and `sp` points to the cell `a`. -/
structure Ready (m : Machine) (a : Nat) : Prop where
  negateNum : m.get .negateNum = 0
  uno : m.get .uno = 1
  tres : m.get .tres = 3
  sp : m.get .sp = .ofNat a

/-- Nothing was printed, and apart from `tmp`, `tmp2`, `mem` and the cells from
`lo` to `hi` all words are as they were. -/
structure Frame (lo hi : Nat) (s t : Machine) : Prop where
  output : t.output = s.output
  read : ∀ b, b ≠ Register.tmp.address → b ≠ Register.tmp2.address → b ≠ Register.mem.address →
    b < lo ∨ hi < b → t.cells.read b = s.cells.read b

theorem Frame.trans {lo hi : Nat} {s t u : Machine} (h : Frame lo hi s t) (g : Frame lo hi t u) :
    Frame lo hi s u :=
  ⟨g.output.trans h.output, fun b h₀ h₁ h₅ hb =>
    (g.read b h₀ h₁ h₅ hb).trans (h.read b h₀ h₁ h₅ hb)⟩

theorem Frame.mono {lo hi lo' hi' : Nat} {s t : Machine} (h : Frame lo hi s t) (hl : lo' ≤ lo)
    (hh : hi ≤ hi') : Frame lo' hi' s t :=
  ⟨h.output, fun b h₀ h₁ h₅ hb => h.read b h₀ h₁ h₅ (by omega)⟩

/-- Writing to a cell in the range keeps the frame. -/
theorem frame_write {lo hi a : Nat} (s : Machine) (v : Int64) (hl : lo ≤ a) (hh : a ≤ hi) :
    Frame lo hi s (s.write a v) := by
  refine ⟨rfl, fun b _ _ _ hb => ?_⟩
  rw [Machine.read_write, if_neg (by omega)]

/-- Writing to a register that code may use keeps the frame. -/
theorem frame_write_register {lo hi : Nat} (s : Machine) (v : Int64) {r : Register}
    (hr : r = .tmp ∨ r = .tmp2 ∨ r = .mem) : Frame lo hi s (s.write r.address v) := by
  refine ⟨rfl, fun b h₀ h₁ h₅ _ => ?_⟩
  have other : b ≠ r.address := by
    rcases hr with rfl | rfl | rfl
    · exact h₀
    · exact h₁
    · exact h₅
  rw [Machine.read_write, if_neg other]

/-- In the stack, only the range of a frame matters. -/
theorem Frame.stack {lo hi b : Nat} {s t : Machine} (h : Frame lo hi s t) (hb : 7 ≤ b)
    (outside : b < lo ∨ hi < b) : t.cells.read b = s.cells.read b := by
  refine h.read b ?_ ?_ ?_ outside <;> rw [Register.address] <;> omega

theorem Frame.ready {lo hi a : Nat} {s t : Machine} (h : Frame lo hi s t) (hl : 7 ≤ lo)
    (ready : Ready s a) : Ready t a where
  negateNum := (h.read 2 (by decide) (by decide) (by decide) (by omega)).trans ready.negateNum
  uno := (h.read 3 (by decide) (by decide) (by decide) (by omega)).trans ready.uno
  tres := (h.read 4 (by decide) (by decide) (by decide) (by omega)).trans ready.tres
  sp := (h.read 6 (by decide) (by decide) (by decide) (by omega)).trans ready.sp

/-- Moving `sp` keeps the constants. -/
theorem Ready.move {a : Nat} {s : Machine} (ready : Ready s a) (b : Nat) :
    Ready (s.write Register.sp.address (.ofNat b)) b where
  negateNum := by simpa [Register.address] using ready.negateNum
  uno := by simpa [Register.address] using ready.uno
  tres := by simpa [Register.address] using ready.tres
  sp := by simp

theorem runLines_notes (s : Machine) (n : Nat) (notes : List String) (ls : List Line) :
    s.runLines n (notes.map .comment ++ ls) = s.runLines (n + notes.length) ls := by
  induction notes generalizing n with
  | nil => rfl
  | cons note notes ih =>
    rw [List.map_cons, List.cons_append, Machine.runLines_comment, ih, List.length_cons]
    congr 1
    omega

/-- The code of an operand starts by moving `sp` up to its frame. -/
theorem Ready.enter {a k : Nat} {s : Machine} {r : Register} (ready : Ready s a)
    (held : s.get r = .ofNat k) (small : a + k < 2 ^ 63) (w : Int64) (n : Nat)
    (notes : List String) (e : Expr) :
    s.runLines n (framed r w notes e) =
      (s.write Register.sp.address (.ofNat (a + k))).runLines (n + 1 + notes.length)
        (block e ++ [update .sp .sub r, fetch .tmp w]) := by
  have up : Op.add.apply (s.get .sp) (s.get r) = .ok (.ofNat (a + k)) := by
    rw [ready.sp, held, Op.apply_add_ofNat small]
  rw [framed, update, Machine.runLines_compute _ _ _ up, runLines_notes]

section Slots

variable {a k : Nat} {w : Int64} {t : Machine} (n : Nat) (ls : List Line)

theorem Ready.put (ready : Ready t a) (hw : w = .ofNat k) (h : a + k < capacity) :
    t.runLines n (put w :: ls) = (t.write (a + k) (t.get .tmp)).runLines (n + 1) ls :=
  Machine.runLines_move_slot n ls .tmp hw ready.sp h

theorem Ready.fetch (ready : Ready t a) (r : Register) (hw : w = .ofNat k) (h : a + k < capacity) :
    t.runLines n (fetch r w :: ls) =
      (t.write r.address (t.cells.read (a + k))).runLines (n + 1) ls :=
  Machine.runLines_fetch n ls r hw ready.sp h

end Slots

/-! ## The simulation -/

/-- The line of the first fault of `e`, for a memory `m` and code that starts at
the line `n`. -/
def faultLine (e : Expr) (m : Memory) (n : Nat) : Nat :=
  match e with
  | .number _ | .memory => n
  | .negate e =>
    match e.evaluate m with
    | (.error _, _) => faultLine e m (n + 2)
    | (.ok _, _) => n + (block e).length + 4
  | .store e => faultLine e m (n + 2)
  | .binary _ l r =>
    match l.evaluate m with
    | (.error _, _) => faultLine l m (n + 3)
    | (.ok _, m₁) =>
      match r.evaluate m₁ with
      | (.error _, _) => faultLine r m₁ (n + (block l).length + 8)
      | (.ok _, _) => n + (block l).length + (block r).length + 13

/-- From `s` to `t` the value `v` came to the cell `a`, and only that cell and
those up to `hi` were used. -/
structure Delivers (a hi : Nat) (v : Int64) (m : Memory) (s t : Machine) : Prop where
  value : t.cells.read a = v
  memory : t.get .mem = m.value
  frame : Frame a hi s t

/-- From `s` to `t` the stack below the cell `a` was left alone. -/
structure Spares (a : Nat) (m : Memory) (s t : Machine) : Prop where
  memory : t.get .mem = m.value
  below : ∀ b, 7 ≤ b → b < a → t.cells.read b = s.cells.read b

/-- The code of `e` does what evaluation does, wherever it has enough room. -/
def Simulates (e : Expr) : Prop :=
  ∀ (m : Memory) (a n : Nat) (s : Machine), 7 ≤ a → a + e.need < capacity → Ready s a →
    s.get .mem = m.value →
    match e.evaluate m with
    | (.ok v, m') => ∃ t, s.runLines n (block e) = (.running, t) ∧ Delivers a (a + e.need) v m' s t
    | (.error f, m') => ∃ t,
      s.runLines n (block e) = (.failed ⟨faultLine e m n, .arithmetic f⟩, t) ∧ Spares a m' s t

section Framed

variable {e : Expr} {m m' : Memory} {a k : Nat} {w : Int64} {s : Machine} {r : Register}

/-- The code of an operand does in its frame what evaluation does. -/
theorem Simulates.in_frame (sim : Simulates e) (n : Nat) (low : 7 ≤ a)
    (fits : a + k + e.need < capacity) (ready : Ready s a) (mem : s.get .mem = m.value) :
    match e.evaluate m with
    | (.ok v, m') => ∃ t,
      (s.write Register.sp.address (.ofNat (a + k))).runLines n (block e) = (.running, t) ∧
        Delivers (a + k) (a + k + e.need) v m' (s.write Register.sp.address (.ofNat (a + k))) t
    | (.error f, m') => ∃ t,
      (s.write Register.sp.address (.ofNat (a + k))).runLines n (block e) =
        (.failed ⟨faultLine e m n, .arithmetic f⟩, t) ∧
        Spares (a + k) m' (s.write Register.sp.address (.ofNat (a + k))) t :=
  sim m (a + k) n _ (by omega) fits (ready.move _) (by simpa [Register.address] using mem)

/-- An operand with a value is loaded, and its frame is given back. -/
theorem Simulates.framed_ok {v : Int64} (sim : Simulates e) (n : Nat) (notes : List String)
    (hw : w = .ofNat k) (low : 7 ≤ a) (fits : a + k + e.need < capacity)
    (held : ∀ {t b}, Ready t b → t.get r = .ofNat k)
    (ready : Ready s a) (mem : s.get .mem = m.value) (eval : e.evaluate m = (.ok v, m')) :
    ∃ t, s.runLines n (framed r w notes e) = (.running, t) ∧ t.get .tmp = v ∧
      t.get .mem = m'.value ∧ Frame (a + k) (a + k + e.need) s t := by
  have small : a + k < 65536 := by rw [capacity] at fits; omega
  -- `sp` goes up, the operand is computed there, and `sp` comes down again
  have run := sim.in_frame (n + 1 + notes.length) low fits ready mem
  rw [eval] at run
  obtain ⟨t₁, run₁, value, mem₁', frame⟩ := run
  have ready₁ : Ready t₁ (a + k) := frame.ready (by omega) (ready.move _)
  have down : Op.sub.apply (t₁.get .sp) (t₁.get r) = .ok (.ofNat a) := by
    rw [ready₁.sp, held ready₁, Op.apply_sub_ofNat (by omega)]
  let t₂ := t₁.write Register.sp.address (.ofNat a)
  have sp₂ : t₂.get .sp = .ofNat a := by simp [t₂]
  have top : t₂.cells.read (a + k) = v := by
    rw [Machine.read_write, if_neg (by rw [Register.address]; omega), value]
  refine ⟨t₂.write Register.tmp.address v, ?_, ?_, ?_, frame.output, ?_⟩
  · rw [ready.enter (held ready) (by omega), Machine.runLines_append_of_running run₁, update,
      Machine.runLines_compute _ _ _ down, Machine.runLines_fetch _ _ _ hw sp₂ (by omega), top]
    rfl
  · simp
  · simpa [t₂, Register.address] using mem₁'
  · intro b h₀ h₁ h₅ hb
    have keep := frame.read b h₀ h₁ h₅ hb
    simp only [t₂, Machine.read_write] at keep ⊢
    rw [if_neg h₀, keep]
    split
    · next h₆ => rw [h₆]; exact ready.sp.symm
    · rfl

/-- An operand with a fault stops the code, whatever follows it. -/
theorem Simulates.framed_error {f : Fault} (sim : Simulates e) (n : Nat) (notes : List String)
    (low : 7 ≤ a) (fits : a + k + e.need < capacity)
    (held : ∀ {t b}, Ready t b → t.get r = .ofNat k)
    (ready : Ready s a) (mem : s.get .mem = m.value) (eval : e.evaluate m = (.error f, m')) :
    ∃ t, s.runLines n (framed r w notes e) =
        (.failed ⟨faultLine e m (n + 1 + notes.length), .arithmetic f⟩, t) ∧
      Spares a m' s t := by
  have small : a + k < 65536 := by rw [capacity] at fits; omega
  have run := sim.in_frame (n + 1 + notes.length) low fits ready mem
  rw [eval] at run
  obtain ⟨t, run, mem', below⟩ := run
  refine ⟨t, ?_, mem', ?_⟩
  · rw [ready.enter (held ready) (by omega), Machine.runLines_append_of_failed run]
  · intro b hb hba
    rw [below b hb (by omega), Machine.read_write, if_neg (by rw [Register.address]; omega)]

end Framed

theorem simulates_number (v : Int64) : Simulates (.number v) := by
  intro m a n s low fits ready mem
  have fits' : a + 0 < capacity := fits
  refine ⟨(s.write Register.tmp.address v).write a v, ?_, ?_, ?_, ?_⟩
  · have sp : (s.write Register.tmp.address v).get .sp = .ofNat a := by
      simpa [Register.address] using ready.sp
    rw [block, emit, Machine.runLines_comment, Machine.runLines_set_literal, put,
      Machine.runLines_move_slot (w := 0) (k := 0) _ _ _ rfl sp fits', Machine.runLines_comment]
    simp
    rfl
  · simp
  · have other : 5 ≠ a := by omega
    simpa [other, Register.address] using mem
  · exact (frame_write_register s v (.inl rfl)).trans (frame_write _ v (by omega) (by omega))

theorem simulates_memory : Simulates .memory := by
  intro m a n s low fits ready mem
  refine ⟨s.write a m.value, ?_, by simp, ?_, frame_write s _ (by omega) (by omega)⟩
  · rw [block, emit, Machine.runLines_comment,
      Machine.runLines_move_slot (w := 0) (k := 0) _ _ _ rfl ready.sp
        (show a + 0 < capacity from fits), mem]
    rfl
  · have other : Register.mem.address ≠ a := by rw [Register.address]; omega
    simpa [other] using mem

/-- What the fault of an operator leaves behind, once its operands are loaded. -/
theorem Frame.spares {lo hi a : Nat} {m : Memory} {s t : Machine} (h : Frame lo hi s t)
    (hl : a ≤ lo) (mem : t.get .mem = m.value) : Spares a m s t :=
  ⟨mem, fun b hb hba => h.stack hb (by omega)⟩

/-- Writing the value to the cell `a` is the last step of every code. -/
theorem Frame.delivers {hi a : Nat} {m : Memory} {s t : Machine} (h : Frame a hi s t)
    (low : 7 ≤ a) (ha : a ≤ hi) (mem : t.get .mem = m.value) (v : Int64) :
    Delivers a hi v m s (t.write a v) := by
  refine ⟨by simp, ?_, h.trans (frame_write t v (Nat.le_refl a) ha)⟩
  rw [Machine.get_write, if_neg (by rw [Register.address]; omega), mem]

/-- The last lines of an operator: its result goes through `tmp` to the cell `a`. -/
theorem Frame.finish {hi a : Nat} {m : Memory} {s t : Machine} {x y : Register} {op : Op}
    {w : Int64} (h : Frame a hi s t) (low : 7 ≤ a) (ha : a ≤ hi) (fits : a < capacity)
    (ready : Ready s a) (mem : t.get .mem = m.value)
    (result : op.apply (t.get x) (t.get y) = .ok w) (n : Nat) (note : String) :
    ∃ u, t.runLines n [.code (.compute (.cell .tmp) (reg x) op (reg y)), put 0, .comment note] =
        (.running, u) ∧ Delivers a hi w m s u := by
  have frame : Frame a hi s (t.write Register.tmp.address w) :=
    h.trans (frame_write_register t w (.inl rfl))
  have mem' : (t.write Register.tmp.address w).get .mem = m.value := by
    rw [Machine.get_write, if_neg (by decide), mem]
  refine ⟨_, ?_, frame.delivers low ha mem' w⟩
  rw [Machine.runLines_compute _ _ _ result,
    (frame.ready low ready).put (w := 0) (k := 0) _ _ rfl fits, Machine.runLines_comment,
    Machine.get_write, if_pos rfl]
  rfl

section Unary

variable {e : Expr} (sim : Simulates e)
include sim

theorem Simulates.negate : Simulates (.negate e) := by
  intro m a n s low fits ready mem
  have fits' : a + 1 + e.need < capacity := by rw [Expr.need] at fits; omega
  rw [Expr.evaluate, faultLine, block_negate, Machine.runLines_comment]
  rcases eval : e.evaluate m with ⟨f | v, m'⟩
  · obtain ⟨t, run, spares⟩ := sim.framed_error (n + 1) [] low fits' Ready.uno ready mem eval
    exact ⟨t, Machine.runLines_append_of_failed run _, spares⟩
  · obtain ⟨t, run, tmp, mem', frame⟩ :=
      sim.framed_ok (w := 1) (k := 1) (n + 1) [] rfl low fits' Ready.uno ready mem eval
    have readyₜ : Ready t a := frame.ready (by omega) ready
    have operand : Op.sub.apply (t.get .negateNum) (t.get .tmp) = negated v := by
      rw [readyₜ.negateNum, tmp, negated_eq_apply_sub]
    simp only [Machine.runLines_append_of_running run]
    rcases result : negated v with f | w
    · rw [result] at operand
      have line : n + 1 + (framed .uno 1 [] e).length = n + (block e).length + 4 := by
        rw [length_framed, List.length_nil]
        omega
      refine ⟨t, ?_, frame.spares (by omega) mem'⟩
      rw [Machine.runLines_compute_fault _ _ _ operand, line]
    · rw [result] at operand
      exact (frame.mono (by omega) (by rw [Expr.need]; omega)).finish low (by omega) (by omega)
        ready
        mem' operand _ _

theorem Simulates.store : Simulates (.store e) := by
  intro m a n s low fits ready mem
  have fits' : a + 1 + e.need < capacity := by rw [Expr.need] at fits; omega
  rw [Expr.evaluate, faultLine, block_store, Machine.runLines_comment]
  rcases eval : e.evaluate m with ⟨f | v, m'⟩
  · obtain ⟨t, run, spares⟩ := sim.framed_error (n + 1) [] low fits' Ready.uno ready mem eval
    exact ⟨t, Machine.runLines_append_of_failed run _, spares⟩
  · obtain ⟨t, run, tmp, mem', frame⟩ :=
      sim.framed_ok (w := 1) (k := 1) (n + 1) [] rfl low fits' Ready.uno ready mem eval
    have wide : Frame a (a + (Expr.store e).need) s t :=
      frame.mono (by omega) (by rw [Expr.need]; omega)
    have delivered := wide.delivers low (by omega) mem' v
    refine ⟨(t.write a v).write Register.mem.address v, ?_, ?_, ?_, ?_⟩
    · have copy : (t.write a v).get .tmp = v := by
        rw [Machine.get_write, tmp, ite_self]
      rw [Machine.runLines_append_of_running run,
        (wide.ready low ready).put (w := 0) (k := 0) _ _ rfl (by omega), tmp,
        Machine.runLines_set_reg, Nat.add_zero, copy, Machine.runLines_comment]
      rfl
    · rw [Machine.read_write, if_neg (by rw [Register.address]; omega), delivered.value]
    · simp
    · exact delivered.frame.trans (frame_write_register _ v (.inr (.inr rfl)))

end Unary

/-- Both operands are brought to the scratch registers: the left one waits in
its slot, and the right one is in `tmp`. -/
theorem Ready.stage {a : Nat} {v w : Int64} {t : Machine} (ready : Ready t a) (low : 7 ≤ a)
    (fits : a + 2 < capacity) (left : t.cells.read (a + 1) = v) (right : t.get .tmp = w)
    (n : Nat) (ls : List Line) :
    ∃ u, t.runLines n (Ewe.put 2 :: Ewe.fetch .tmp 1 :: Ewe.fetch .tmp2 2 :: ls) =
        u.runLines (n + 3) ls ∧
      u.get .tmp = v ∧ u.get .tmp2 = w ∧ u.get .mem = t.get .mem ∧ Frame (a + 2) (a + 2) t u := by
  let t₁ := t.write (a + 2) w
  have frame₁ : Frame (a + 2) (a + 2) t t₁ := frame_write t w (by omega) (by omega)
  have ready₁ : Ready t₁ a := frame₁.ready (by omega) ready
  have left₁ : t₁.cells.read (a + 1) = v := by
    rw [Machine.read_write, if_neg (by omega), left]
  let t₂ := t₁.write Register.tmp.address v
  have frame₂ : Frame (a + 2) (a + 2) t t₂ := frame₁.trans (frame_write_register t₁ v (.inl rfl))
  have ready₂ : Ready t₂ a := frame₂.ready (by omega) ready
  have right₂ : t₂.cells.read (a + 2) = w := by
    rw [Machine.read_write, if_neg (by rw [Register.address]; omega), Machine.read_write,
      if_pos rfl]
  refine ⟨t₂.write Register.tmp2.address w, ?_, ?_, ?_, ?_,
    frame₂.trans (frame_write_register t₂ w (.inr (.inl rfl)))⟩
  · rw [ready.put (w := 2) (k := 2) _ _ rfl fits, right,
      ready₁.fetch (w := 1) (k := 1) _ _ _ rfl (by omega), left₁,
      ready₂.fetch (w := 2) (k := 2) _ _ _ rfl fits, right₂]
  · simp [t₂, Register.address]
  · simp
  · have other : Register.mem.address ≠ a + 2 := by rw [Register.address]; omega
    rw [Machine.get_write, if_neg (by decide), Machine.get_write, if_neg (by decide),
      Machine.get_write, if_neg other]

/-- The left operand is computed, and its value waits in its slot, below the
frame of the right operand. -/
theorem Simulates.stage_left {l : Expr} {m m' : Memory} {a : Nat} {v : Int64} {s : Machine}
    (sim : Simulates l) (n : Nat) (note : String) (low : 7 ≤ a) (fits : a + 3 + l.need < capacity)
    (ready : Ready s a) (mem : s.get .mem = m.value) (eval : l.evaluate m = (.ok v, m')) :
    ∃ t, (∀ ls, s.runLines n (.comment note :: (framed .tres 3 ["Left operand"] l ++ put 1 :: ls)) =
        t.runLines (n + (block l).length + 6) ls) ∧
      Ready t a ∧ t.get .mem = m'.value ∧ t.cells.read (a + 1) = v ∧
      Frame (a + 1) (a + 3 + l.need) s t := by
  obtain ⟨t, run, tmp, mem', frame⟩ := sim.framed_ok (w := 3) (k := 3) (n + 1) ["Left operand"]
    rfl low fits Ready.tres ready mem eval
  have wide : Frame (a + 1) (a + 3 + l.need) s (t.write (a + 1) v) :=
    (frame.mono (by omega) (by omega)).trans (frame_write t v (by omega) (by omega))
  have line : n + 1 + (framed .tres 3 ["Left operand"] l).length + 1 =
      n + (block l).length + 6 := by
    rw [length_framed, List.length_singleton]
    omega
  refine ⟨t.write (a + 1) v, fun ls => ?_, wide.ready (by omega) ready, ?_, by simp, wide⟩
  · rw [Machine.runLines_comment, Machine.runLines_append_of_running run,
      (frame.ready (by omega) ready).put (w := 1) (k := 1) _ _ rfl (by omega), tmp, line]
  · rw [Machine.get_write, if_neg (by rw [Register.address]; omega), mem']

theorem Simulates.binary {l r : Expr} (op : Op) (siml : Simulates l) (simr : Simulates r) :
    Simulates (.binary op l r) := by
  intro m a n s low fits ready mem
  have fitsl : a + 3 + l.need < capacity := by rw [Expr.need] at fits; omega
  have fitsr : a + 3 + r.need < capacity := by rw [Expr.need] at fits; omega
  rw [Expr.evaluate, faultLine, block_binary]
  rcases evall : l.evaluate m with ⟨f | v, m₁⟩
  · obtain ⟨t, run, spares⟩ :=
      siml.framed_error (n + 1) ["Left operand"] low fitsl Ready.tres ready mem evall
    exact ⟨t, Machine.runLines_append_of_failed run _, spares⟩
  obtain ⟨t₂, staged, ready₂, mem₂, left, frame₂⟩ :=
    siml.stage_left n ("Start " ++ blockName op) low fitsl ready mem evall
  simp only [staged]
  rcases evalr : r.evaluate m₁ with ⟨f | w, m₂⟩
  · obtain ⟨t, run, spares⟩ := simr.framed_error (n + (block l).length + 6) ["Right operand"] low
      fitsr Ready.tres ready₂ mem₂ evalr
    refine ⟨t, Machine.runLines_append_of_failed run _, spares.memory, fun b hb hba => ?_⟩
    rw [spares.below b hb hba, (frame₂.spares (by omega) mem₂).below b hb hba]
  obtain ⟨t₃, run₃, tmp₃, mem₃, frame₃⟩ := simr.framed_ok (w := 3) (k := 3)
    (n + (block l).length + 6) ["Right operand"] rfl low fitsr Ready.tres ready₂ mem₂ evalr
  have ready₃ : Ready t₃ a := frame₃.ready (by omega) ready₂
  have kept : t₃.cells.read (a + 1) = v := by
    rw [frame₃.stack (by omega) (by omega), left]
  -- the operator is applied to both values
  obtain ⟨u, runᵤ, tmpᵤ, tmp2ᵤ, memᵤ, frameᵤ⟩ := ready₃.stage low (by omega) kept tmp₃
    (n + (block l).length + (block r).length + 10)
    [update .tmp op .tmp2, put 0, .comment ("End " ++ blockName op)]
  have wide : Frame (a + 1) (a + (Expr.binary op l r).need) s u := by
    have need : (Expr.binary op l r).need = 3 + max l.need r.need := rfl
    exact ((frame₂.mono (by omega) (by omega)).trans (frame₃.mono (by omega) (by omega))).trans
      (frameᵤ.mono (by omega) (by omega))
  have memory : u.get .mem = m₂.value := memᵤ.trans mem₃
  have line : n + (block l).length + 6 + (framed .tres 3 ["Right operand"] r).length =
      n + (block l).length + (block r).length + 10 := by
    rw [length_framed, List.length_singleton]
    omega
  simp only [Machine.runLines_append_of_running run₃, line, runᵤ]
  rcases result : op.apply v w with f | x
  · rw [← tmpᵤ, ← tmp2ᵤ] at result
    exact ⟨u, Machine.runLines_compute_fault _ _ _ result, wide.spares (by omega) memory⟩
  · rw [← tmpᵤ, ← tmp2ᵤ] at result
    exact (wide.mono (by omega) (by omega)).finish low (by omega) (by omega) ready memory result _ _

/-- The code of every expression simulates its evaluation. -/
theorem simulates (e : Expr) : Simulates e := by
  induction e with
  | number v => exact simulates_number v
  | memory => exact simulates_memory
  | negate e ih => exact ih.negate
  | store e ih => exact ih.store
  | binary op l r ihl ihr => exact ihl.binary op ihr

end Ewe

end Calculator
