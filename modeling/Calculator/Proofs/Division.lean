import Calculator.Proofs.Exact

/-!
# Arithmetic by machine instructions

A machine divides by rounding toward zero, and its instructions trap where their
result is not a word. `Op.compute?` carries out the operations with these
instructions: it corrects a quotient or a remainder that was rounded the wrong
way. No instruction that it uses traps, and it gives what `Op.apply` gives
(`Op.compute?_eq`). What that is, in integers, is said in `apply_is_exact_floor`.
-/

namespace Calculator

/-! ## Instructions -/

namespace Instruction

def sum? (a b : Int64) : Option Int64 := Numeral.word? (a.toInt + b.toInt)

def difference? (a b : Int64) : Option Int64 := Numeral.word? (a.toInt - b.toInt)

def product? (a b : Int64) : Option Int64 := Numeral.word? (a.toInt * b.toInt)

/-- The quotient, rounded toward zero. -/
def quotient? (a b : Int64) : Option Int64 :=
  if b = 0 then none else Numeral.word? (a.toInt.tdiv b.toInt)

/-- The remainder of the quotient, which has the sign of `a`. It is a by-product of the division and
traps with it. -/
def remainder? (a b : Int64) : Option Int64 :=
  (quotient? a b).bind fun _ => Numeral.word? (a.toInt.tmod b.toInt)

end Instruction

open Instruction

/-- The result of an instruction whose trap is caught. -/
def caught (result : Option Int64) : Except Fault Int64 := (result.map .ok).getD (.error .overflow)

/-- Round a quotient down that was rounded toward zero. -/
def floorQuotient? (l r : Int64) : Option (Except Fault Int64) :=
  if r = 0 then some (.error .divisionByZero)
  else
    match caught (quotient? l r) with
    | .error f => some (.error f)
    | .ok q => do
      let m ← remainder? l r
      if m ≠ 0 ∧ ¬(l < 0 ↔ r < 0) then return .ok (← difference? q 1) else return .ok q

/-- Give a remainder the sign of the divisor. The division by `-1` could trap, and it leaves
nothing. -/
def floorRemainder? (l r : Int64) : Option (Except Fault Int64) :=
  if r = 0 then some (.error .moduloByZero)
  else if r = -1 then some (.ok 0)
  else do
    let m ← remainder? l r
    if m ≠ 0 ∧ ¬(m < 0 ↔ r < 0) then return .ok (← sum? m r) else return .ok m

/-- The operation as a machine carries it out. There is no outcome if an instruction traps. -/
def Op.compute? (op : Op) (l r : Int64) : Option (Except Fault Int64) :=
  match op with
  | .add => some (caught (sum? l r))
  | .sub => some (caught (difference? l r))
  | .mul => some (caught (product? l r))
  | .div => floorQuotient? l r
  | .mod => floorRemainder? l r

/-! ## Rounding -/

/-- A remainder that is not zero has the sign of the dividend and is smaller than the divisor. -/
theorem tmod_bounds (l : Int) {r : Int} (h : r ≠ 0) :
    (l.tmod r).natAbs < r.natAbs ∧ (l.tmod r ≠ 0 → (l.tmod r < 0 ↔ l < 0)) := by
  have small : (l.tmod r).natAbs < r.natAbs := by
    rw [Int.natAbs_tmod]
    exact Nat.mod_lt _ (by omega)
  have positive : 0 ≤ l → 0 ≤ l.tmod r := Int.tmod_nonneg r
  have negative : 0 ≤ -l → 0 ≤ -l.tmod r := fun h => by
    rw [← Int.neg_tmod]
    exact Int.tmod_nonneg r h
  omega

/-- Rounding down and rounding toward zero differ by one step, and only if the remainder and the
divisor have different signs. -/
theorem floor_of_truncated (l : Int) {r : Int} (h : r ≠ 0) :
    if l.tmod r ≠ 0 ∧ ¬(l.tmod r < 0 ↔ r < 0) then
      l.fdiv r = l.tdiv r - 1 ∧ l.fmod r = l.tmod r + r
    else l.fdiv r = l.tdiv r ∧ l.fmod r = l.tmod r := by
  have whole := Int.mul_tdiv_add_tmod l r
  have small := (tmod_bounds l h).1
  have corrected : r * (l.tdiv r - 1) = r * l.tdiv r - r := by ring
  rcases lt_or_gt_of_ne h with negative | positive
  · split_ifs <;> rw [Int.fdiv_fmod_unique' negative] <;> omega
  · split_ifs <;> rw [Int.fdiv_fmod_unique positive] <;> omega

theorem fmod_bounds (l : Int) {r : Int} (h : r ≠ 0) :
    (l.fmod r = 0 ∨ (l.fmod r).sign = r.sign) ∧ (l.fmod r).natAbs < r.natAbs := by
  have floor := floor_of_truncated l h
  have small := (tmod_bounds l h).1
  have same : l.fmod r = 0 ∨ (l.fmod r < 0 ∧ r < 0) ∨ (0 < l.fmod r ∧ 0 < r) := by
    split_ifs at floor <;> omega
  constructor
  · rcases same with zero | ⟨_, _⟩ | ⟨_, _⟩
    · exact .inl zero
    · exact .inr (by rw [Int.sign_eq_neg_one_of_neg, Int.sign_eq_neg_one_of_neg] <;> assumption)
    · exact .inr (by rw [Int.sign_eq_one_of_pos, Int.sign_eq_one_of_pos] <;> assumption)
  · split_ifs at floor <;> omega

/-! ## What fits a word -/

/-- The only division of words whose quotient is not a word. -/
def Extreme (l r : Int64) : Prop := l = Int64.minValue ∧ r = -1

theorem exists_word {n : Int} (low : -2 ^ 63 ≤ n) (high : n < 2 ^ 63) :
    ∃ v, Numeral.word? n = some v ∧ v.toInt = n := by
  have value : (Int64.ofInt n).toInt = n := Int64.toInt_ofInt_of_le low high
  exact ⟨_, Numeral.word?_eq_some.2 value, value⟩

theorem toInt_ne_zero {r : Int64} (h : r ≠ 0) : r.toInt ≠ 0 :=
  fun zero => h (Int64.toInt_inj.1 zero)

theorem extreme_iff {l r : Int64} : Extreme l r ↔ l.toInt = -2 ^ 63 ∧ r.toInt = -1 := by
  rw [Extreme, ← Int64.toInt_inj, ← Int64.toInt_inj]
  rfl

/-- However a quotient is rounded, it is a word. -/
theorem quotient_fits {l r : Int64} {q m : Int} (whole : r.toInt * q + m = l.toInt)
    (small : m.natAbs < r.toInt.natAbs) (bound : q.natAbs ≤ l.toInt.natAbs)
    (usual : ¬Extreme l r) : -2 ^ 63 ≤ q ∧ q < 2 ^ 63 := by
  have low := l.le_toInt
  have high := l.toInt_lt
  rw [extreme_iff] at usual
  refine ⟨by omega, ?_⟩
  by_contra large
  -- only the smallest word is as large as that, and then the divisor has to be `-1`
  obtain rfl : q = 2 ^ 63 := by omega
  omega

section Words

variable {l r : Int64}

theorem exists_quotient (divisor : r ≠ 0) (usual : ¬Extreme l r) :
    ∃ q, quotient? l r = some q ∧ q.toInt = l.toInt.tdiv r.toInt := by
  obtain ⟨low, high⟩ := quotient_fits (Int.mul_tdiv_add_tmod l.toInt r.toInt)
    (tmod_bounds l.toInt (toInt_ne_zero divisor)).1 (Int.natAbs_tdiv_le_natAbs _ _) usual
  rw [quotient?, if_neg divisor]
  exact exists_word low high

theorem exists_remainder (divisor : r ≠ 0) (usual : ¬Extreme l r) :
    ∃ m, remainder? l r = some m ∧ m.toInt = l.toInt.tmod r.toInt := by
  obtain ⟨q, quotient, -⟩ := exists_quotient divisor usual
  have small := (tmod_bounds l.toInt (toInt_ne_zero divisor)).1
  have low := r.le_toInt
  have high := r.toInt_lt
  rw [remainder?, quotient]
  exact exists_word (by omega) (by omega)

/-- Rounded down, a quotient is a word too. -/
theorem exists_apply_div (divisor : r ≠ 0) (usual : ¬Extreme l r) :
    ∃ q, Op.div.apply l r = .ok q ∧ q.toInt = l.toInt.fdiv r.toInt := by
  obtain ⟨low, high⟩ := quotient_fits (Int.mul_fdiv_add_fmod l.toInt r.toInt)
    (fmod_bounds l.toInt (toInt_ne_zero divisor)).2 (Int.natAbs_fdiv_le_natAbs _ _) usual
  obtain ⟨q, -, value⟩ := exists_word low high
  exact ⟨q, by rw [Op.apply, if_neg divisor, narrow_eq_ok, value], value⟩

theorem exists_apply_mod (l : Int64) (divisor : r ≠ 0) :
    ∃ m, Op.mod.apply l r = .ok m ∧ m.toInt = l.toInt.fmod r.toInt := by
  have small := (fmod_bounds l.toInt (toInt_ne_zero divisor)).2
  have low := r.le_toInt
  have high := r.toInt_lt
  obtain ⟨m, -, value⟩ := exists_word (n := l.toInt.fmod r.toInt) (by omega) (by omega)
  exact ⟨m, by rw [Op.apply, if_neg divisor, narrow_eq_ok, value], value⟩

end Words

/-! ## The instructions do not trap -/

theorem caught_word? (n : Int) : caught (Numeral.word? n) = narrow n := by
  unfold caught narrow
  cases Numeral.word? n <;> rfl

/-- The signs that the machine looks at are those of the integers. -/
theorem corrects_iff {m r : Int64} :
    (m ≠ 0 ∧ ¬(m < 0 ↔ r < 0)) ↔ (m.toInt ≠ 0 ∧ ¬(m.toInt < 0 ↔ r.toInt < 0)) := by
  rw [Int64.lt_iff_toInt_lt, Int64.lt_iff_toInt_lt, Ne, ← Int64.toInt_inj]
  rfl

theorem floorQuotient?_eq (l r : Int64) : floorQuotient? l r = some (Op.div.apply l r) := by
  by_cases divisor : r = 0
  · simp [floorQuotient?, Op.apply, divisor]
  by_cases extreme : Extreme l r
  · obtain ⟨rfl, rfl⟩ := extreme
    decide +kernel
  obtain ⟨q, quotient, q_eq⟩ := exists_quotient divisor extreme
  obtain ⟨m, remainder, m_eq⟩ := exists_remainder divisor extreme
  obtain ⟨v, result, v_eq⟩ := exists_apply_div divisor extreme
  have floor := floor_of_truncated l.toInt (toInt_ne_zero divisor)
  -- the correction looks at the sign of the dividend, which is that of the remainder
  have signs : (m ≠ 0 ∧ ¬(l < 0 ↔ r < 0)) ↔ (m ≠ 0 ∧ ¬(m < 0 ↔ r < 0)) := by
    refine and_congr_right fun nonzero => ?_
    have same := (tmod_bounds l.toInt (toInt_ne_zero divisor)).2 (m_eq ▸ toInt_ne_zero nonzero)
    rw [← m_eq] at same
    rw [Int64.lt_iff_toInt_lt, Int64.lt_iff_toInt_lt, Int64.lt_iff_toInt_lt, Int64.toInt_zero, same]
  rw [← q_eq, ← m_eq, ← v_eq] at floor
  rw [corrects_iff] at signs
  unfold floorQuotient?
  by_cases correct : m ≠ 0 ∧ ¬(l < 0 ↔ r < 0)
  · rw [if_pos (signs.1 correct)] at floor
    have step : difference? q 1 = some v := Numeral.word?_eq_some.2 floor.1
    simp [divisor, quotient, caught, remainder, result, correct, step]
  · rw [if_neg fun corrects => correct (signs.2 corrects)] at floor
    obtain rfl := Int64.toInt_inj.1 floor.1
    simp [divisor, quotient, caught, remainder, result, correct]

theorem floorRemainder?_eq (l r : Int64) : floorRemainder? l r = some (Op.mod.apply l r) := by
  by_cases divisor : r = 0
  · simp [floorRemainder?, Op.apply, divisor]
  obtain ⟨v, result, v_eq⟩ := exists_apply_mod l divisor
  by_cases unit : r = -1
  · have nothing : v = 0 := by
      subst unit
      rw [← Int64.toInt_inj, v_eq]
      exact Int.fmod_eq_zero_of_dvd (Int.neg_dvd.2 (one_dvd l.toInt))
    rw [floorRemainder?, if_neg divisor, if_pos unit, result, nothing]
  obtain ⟨m, remainder, m_eq⟩ := exists_remainder (l := l) divisor fun extreme => unit extreme.2
  have floor := floor_of_truncated l.toInt (toInt_ne_zero divisor)
  rw [← m_eq, ← v_eq] at floor
  unfold floorRemainder?
  by_cases correct : m ≠ 0 ∧ ¬(m < 0 ↔ r < 0)
  · rw [if_pos (corrects_iff.1 correct)] at floor
    have step : sum? m r = some v := Numeral.word?_eq_some.2 floor.2
    simp [divisor, unit, remainder, result, correct, step]
  · rw [if_neg fun corrects => correct (corrects_iff.2 corrects)] at floor
    obtain rfl := Int64.toInt_inj.1 floor.2
    simp [divisor, unit, remainder, result, correct]

theorem Op.compute?_eq (op : Op) (l r : Int64) : op.compute? l r = some (op.apply l r) := by
  cases op with
  | add | sub | mul => exact congrArg some (caught_word? _)
  | div => exact floorQuotient?_eq l r
  | mod => exact floorRemainder?_eq l r

/-! ## What the operations give -/

/-- The outcome is the word of `n`, or an overflow if no word has that value. -/
def IsExact (outcome : Except Fault Int64) (n : Int) : Prop :=
  if -2 ^ 63 ≤ n ∧ n < 2 ^ 63 then ∃ v, outcome = .ok v ∧ v.toInt = n
  else outcome = .error .overflow

theorem isExact_narrow (n : Int) : IsExact (narrow n) n := by
  unfold IsExact
  split_ifs with fits
  · obtain ⟨v, -, value⟩ := exists_word fits.1 fits.2
    exact ⟨v, narrow_eq_ok.2 value, value⟩
  · exact narrow_eq_overflow fits

theorem apply_div_of_extreme {l r : Int64} (h : Extreme l r) :
    Op.div.apply l r = .error .overflow := by
  obtain ⟨rfl, rfl⟩ := h
  decide +kernel

/-- Sums, differences and products are exact. A quotient is rounded down, and a remainder is what
it leaves: it has the sign of the divisor and is smaller. A divisor that is zero has a fault of
its own, and one quotient is not a word. A machine comes to the same outcome, and no instruction on
its way traps. -/
theorem apply_is_exact_floor (l r : Int64) :
    IsExact (Op.add.apply l r) (l.toInt + r.toInt) ∧
    IsExact (Op.sub.apply l r) (l.toInt - r.toInt) ∧
    IsExact (Op.mul.apply l r) (l.toInt * r.toInt) ∧
    (Op.div.apply l r = .error .divisionByZero ↔ r = 0) ∧
    (Op.div.apply l r = .error .overflow ↔ l = Int64.minValue ∧ r = -1) ∧
    (r ≠ 0 → ¬(l = Int64.minValue ∧ r = -1) →
      ∃ q, Op.div.apply l r = .ok q ∧ q.toInt = ⌊(l.toInt / r.toInt : ℚ)⌋) ∧
    (Op.mod.apply l r = .error .moduloByZero ↔ r = 0) ∧
    (r ≠ 0 → ∃ m, Op.mod.apply l r = .ok m ∧
      m.toInt = l.toInt - r.toInt * ⌊(l.toInt / r.toInt : ℚ)⌋ ∧
      (m.toInt = 0 ∨ m.toInt.sign = r.toInt.sign) ∧ |m.toInt| < |r.toInt|) ∧
    ∀ op : Op, op.compute? l r = some (op.apply l r) := by
  rw [floor_div_eq_fdiv, ← Int.fmod_def]
  have quotient (divisor : r ≠ 0) (usual : ¬Extreme l r) := exists_apply_div divisor usual
  have remainder (divisor : r ≠ 0) := exists_apply_mod l divisor
  refine ⟨isExact_narrow _, isExact_narrow _, isExact_narrow _, ?_, ?_, quotient, ?_, ?_,
    fun op => op.compute?_eq l r⟩
  · refine ⟨fun fault => ?_, fun zero => if_pos zero⟩
    by_contra divisor
    by_cases extreme : Extreme l r
    · cases fault.symm.trans (apply_div_of_extreme extreme)
    · obtain ⟨q, value, -⟩ := quotient divisor extreme
      cases fault.symm.trans value
  · refine ⟨fun fault => ?_, apply_div_of_extreme⟩
    by_contra usual
    by_cases divisor : r = 0
    · cases fault.symm.trans (if_pos divisor)
    · obtain ⟨q, value, -⟩ := quotient divisor usual
      cases fault.symm.trans value
  · refine ⟨fun fault => ?_, fun zero => if_pos zero⟩
    by_contra divisor
    obtain ⟨m, value, -⟩ := remainder divisor
    cases fault.symm.trans value
  · intro divisor
    obtain ⟨m, value, exact⟩ := remainder divisor
    obtain ⟨sign, small⟩ := fmod_bounds l.toInt (toInt_ne_zero divisor)
    rw [← exact] at sign small
    refine ⟨m, value, exact, sign, ?_⟩
    rw [Int.abs_eq_natAbs, Int.abs_eq_natAbs]
    omega

/-- The smallest word is not a multiple of three: its quotient is rounded down, and the remainder is
positive. -/
theorem smallest_word_is_rounded_down :
    (∃ q, Op.div.apply Int64.minValue 3 = .ok q ∧ q.toInt = -3074457345618258603) ∧
    ∃ m, Op.mod.apply Int64.minValue 3 = .ok m ∧ m.toInt = 1 ∧
      (m.toInt = 0 ∨ m.toInt.sign = (3 : Int64).toInt.sign) := by
  obtain ⟨-, -, -, -, -, quotient, -, remainder, -⟩ := apply_is_exact_floor Int64.minValue 3
  obtain ⟨q, divided, floor⟩ := quotient (by decide) (by decide)
  obtain ⟨m, left, rest, sign, -⟩ := remainder (by decide)
  rw [floor_div_eq_fdiv] at floor rest
  exact ⟨⟨q, divided, floor⟩, m, left, rest, sign⟩

end Calculator
