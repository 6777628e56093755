import Calculator.Proofs.Text
import Calculator.Proofs.Word

/-!
# Reading numerals back

A written number is read as itself, with every spelling of its sign that the
program uses.
-/

namespace Calculator.Numeral

open Text

/-- Digits alone denote their value to the base ten. -/
theorem natural?_eq_some {cs : List Char} {n : Nat} :
    natural? cs = some n ↔ cs ≠ [] ∧ (∀ c ∈ cs, c.isDigit) ∧ Nat.ofDigitChars 10 cs 0 = n := by
  rw [natural?, Nat.ofDigitChars_eq_foldl]
  simp only [digit, Bool.and_eq_true, Bool.not_eq_true', List.isEmpty_eq_false_iff,
    List.all_eq_true]
  split
  · next numeral =>
    exact ⟨fun h => ⟨numeral.1, numeral.2, Option.some.inj h⟩, fun h => by rw [h.2.2]⟩
  · next no => exact ⟨by simp, fun h => absurd ⟨h.1, h.2.1⟩ no⟩

theorem natural?_ofNat (n : Nat) : natural? (ofNat n) = some n :=
  natural?_eq_some.2 ⟨Nat.toDigits_ne_nil,
    fun _ hc => Nat.isDigit_of_mem_toDigits (by decide) (by decide) hc,
    Nat.ofDigitChars_ten_toDigits⟩

/-- A text that starts with neither sign is read without a sign. -/
theorem integer?_eq {c : Char} {cs : List Char} (plus : c ≠ '+') (minus : c ≠ '-') :
    integer? (c :: cs) = (natural? (c :: cs)).map Int.ofNat := by
  unfold integer?
  split <;> simp_all

theorem isDigit_head_ofNat (n : Nat) : ∃ c cs, ofNat n = c :: cs ∧ c.isDigit := by
  obtain ⟨c, cs, h⟩ := List.exists_cons_of_ne_nil (@Nat.toDigits_ne_nil n 10)
  exact ⟨c, cs, h, Nat.isDigit_of_mem_toDigits (b := 10) (by decide) (by decide)
    (show c ∈ Nat.toDigits 10 n by rw [h]; simp)⟩

theorem integer?_ofInt (n : Int) : integer? (ofInt n) = some n := by
  cases n with
  | ofNat n =>
    obtain ⟨c, cs, h, digit⟩ := isDigit_head_ofNat n
    have plus : c ≠ '+' := by rintro rfl; simp at digit
    have minus : c ≠ '-' := by rintro rfl; simp at digit
    rw [ofInt, h, integer?_eq plus minus, ← h, natural?_ofNat, Option.map_some]
  | negSucc n =>
    rw [ofInt, integer?, natural?_ofNat, Option.map_some]
    rfl

theorem signed?_ofWord (v : Int64) : signed? (ofWord v) = some v := by
  rw [signed?, ofWord, integer?_ofInt, Option.bind_some, word?_eq_some]

/-- A number that is not negative may have a plus sign. -/
theorem signed?_plus {v : Int64} (h : 0 ≤ v.toInt) : signed? ('+' :: ofWord v) = some v := by
  obtain ⟨n, hn⟩ := Int.eq_ofNat_of_zero_le h
  rw [signed?, ofWord, hn, integer?]
  change ((natural? (ofNat n)).map Int.ofNat).bind word? = some v
  rw [natural?_ofNat, Option.map_some, Option.bind_some, word?_eq_some, hn]
  rfl

theorem natural?_of_isAlpha {c : Char} (h : c.isAlpha) (cs : List Char) :
    natural? (c :: cs) = none := by
  have digit : c.isDigit = false := by simpa using not_isDigit_of_isAlpha h
  simp [natural?, digit]

/-- No numeral starts with a letter. -/
theorem signed?_of_isAlpha {c : Char} (h : c.isAlpha) (cs : List Char) :
    signed? (c :: cs) = none := by
  have plus : c ≠ '+' := by rintro rfl; simp at h
  have minus : c ≠ '-' := by rintro rfl; simp at h
  rw [signed?, integer?_eq plus minus, natural?_of_isAlpha h]
  rfl

theorem unsigned?_of_isAlpha {c : Char} (h : c.isAlpha) (cs : List Char) :
    unsigned? (c :: cs) = none := by
  have plus : c ≠ '+' := by rintro rfl; simp at h
  unfold unsigned?
  split
  · simp_all
  · simp only [natural?_of_isAlpha h, Option.filter_none]

theorem mem_ofWord {v : Int64} {c : Char} (h : c ∈ ofWord v) : c = '-' ∨ c.isDigit := by
  rw [ofWord] at h
  cases hv : v.toInt with
  | ofNat n =>
    rw [hv, ofInt] at h
    exact .inr (Nat.isDigit_of_mem_toDigits (by decide) (by decide) h)
  | negSucc n =>
    rw [hv, ofInt, List.mem_cons] at h
    exact h.imp_right fun h => Nat.isDigit_of_mem_toDigits (by decide) (by decide) h

theorem ofWord_ne_nil (v : Int64) : ofWord v ≠ [] := by
  rw [ofWord]
  cases v.toInt with
  | ofNat n => exact Nat.toDigits_ne_nil
  | negSucc n => exact List.cons_ne_nil _ _

theorem solid_ofWord (v : Int64) : Solid (ofWord v) := by
  refine ⟨ofWord_ne_nil v, fun c hc => ?_⟩
  rcases mem_ofWord hc with rfl | digit
  · decide
  · have range := toNat_of_isDigit digit
    exact isWhiteSpace_eq_false (by omega) (by omega)

end Calculator.Numeral
