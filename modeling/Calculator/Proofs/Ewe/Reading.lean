import Calculator.Ewe.Loader
import Calculator.Proofs.Ewe.Execution
import Calculator.Proofs.Ewe.Wording
import Calculator.Proofs.Numeral

/-!
# Reading statements back

Every place, operand and statement over registers is read from its text as itself
over the cells of the registers.
-/

namespace Calculator.Ewe

open Text Numeral

/-- The names of the registers and their cells, the last definition first. -/
def registerAliases : Aliases :=
  ⟨Register.all.reverse.map fun r => (r.name.toList, r.address)⟩

theorem find?_registerAliases (r : Register) :
    registerAliases.find? r.name.toList = some r.address := by
  cases r <;> rfl

/-! ## Names and operands -/

/-- Names consist of letters and digits and start with a letter. -/
theorem Register.name_eq (r : Register) :
    ∃ c cs, r.name.toList = c :: cs ∧ c.isAlpha ∧ ∀ d ∈ c :: cs, d.isAlphanum := by
  cases r <;> exact ⟨_, _, rfl, by decide, List.all_eq_true.1 (by decide)⟩

theorem toNat_of_isAlphanum {c : Char} (h : c.isAlphanum) :
    48 ≤ c.toNat ∧ c.toNat ≤ 57 ∨ 65 ≤ c.toNat ∧ c.toNat ≤ 90 ∨ 97 ≤ c.toNat ∧ c.toNat ≤ 122 := by
  rw [Char.isAlphanum, Bool.or_eq_true] at h
  rcases h with h | h
  · exact .inr (toNat_of_isAlpha h)
  · exact .inl (toNat_of_isDigit h)

theorem Register.isAlphanum_of_mem_name {r : Register} {c : Char} (h : c ∈ r.name.toList) :
    c.isAlphanum := by
  obtain ⟨d, ds, name, -, all⟩ := r.name_eq
  exact all c (name ▸ h)

theorem Register.solid_name (r : Register) : Solid r.name.toList := by
  obtain ⟨c, cs, name, -, all⟩ := r.name_eq
  refine ⟨by simp [name], fun d hd => ?_⟩
  have range := toNat_of_isAlphanum (r.isAlphanum_of_mem_name hd)
  exact isWhiteSpace_eq_false (by omega) (by omega)

/-- An offset is a sign and a numeral, and it is read as the number it was
written for. -/
theorem offsetText_spec (k : Int64) :
    ∃ c cs, offsetText k = c :: cs ∧ isSign c ∧ Solid (c :: cs) ∧ signed? (c :: cs) = some k := by
  rw [offsetText]
  split
  · next negative =>
    obtain ⟨n, hn⟩ := Int.eq_negSucc_of_lt_zero (Int64.lt_iff_toInt_lt.1 negative)
    have written : ofWord k = '-' :: ofNat (n + 1) := by rw [ofWord, hn, ofInt]
    exact ⟨_, _, written, rfl, written ▸ solid_ofWord k, written ▸ signed?_ofWord k⟩
  · next positive =>
    have nonneg : 0 ≤ k.toInt := by
      rw [Int64.lt_iff_toInt_lt, Int64.toInt_zero] at positive
      omega
    have solid : Solid ('+' :: ofWord k) :=
      (solid_singleton (by decide)).append (solid_ofWord k).2
    exact ⟨_, _, rfl, rfl, solid, signed?_plus nonneg⟩

theorem placeText_text (p : Place Register) :
    PlaceText registerAliases.find? p.text (p.map Register.address) := by
  cases p with
  | cell r => exact place_eq_ok.1 (by cases r <;> rfl)
  | indirect r k =>
    obtain ⟨d, ds, name, alpha, -⟩ := r.name_eq
    obtain ⟨c, cs, offset, sign, solid, value⟩ := offsetText_spec k
    have inner : trim (r.name.toList ++ offsetText k) = r.name.toList ++ c :: cs := by
      rw [offset]
      exact (r.solid_name.append solid.2).trim
    have word : unsigned? (trim (r.name.toList ++ offsetText k)) = none := by
      rw [inner, name]
      exact unsigned?_of_isAlpha alpha _
    have unsigned : ∀ d ∈ r.name.toList, (!isSign d) = true := by
      cases r <;> exact List.all_eq_true.1 (by decide)
    have known : registerAliases.find? (trim r.name.toList) = some r.address := by
      rw [r.solid_name.trim, find?_registerAliases]
    have text : (Place.indirect r k).text = bracketed (r.name.toList ++ offsetText k) := rfl
    rw [text]
    exact .shifted word inner (by simpa using unsigned) sign known (solid.trim.symm ▸ value)

/-- No place is written as a number. -/
theorem signed?_place (p : Place Register) : signed? p.text = none := by
  cases p with
  | cell r =>
    obtain ⟨c, cs, name, alpha, -⟩ := r.name_eq
    rw [Place.text, name]
    exact signed?_of_isAlpha alpha cs
  | indirect r k => exact signed?_of_isAlpha (by decide) _

theorem operandText_text (x : Operand Register) :
    OperandText registerAliases.find? x.text (x.map Register.address) := by
  cases x with
  | literal v => exact .literal (signed?_ofWord v)
  | place p => exact .place (signed?_place p) (placeText_text p)

/-! ## What texts consist of -/

/-- A place starts with a letter, which is the first one of neither a keyword nor
a definition. -/
theorem Place.text_eq (p : Place Register) :
    ∃ c cs, p.text = c :: cs ∧ c.isAlpha ∧ c ≠ 'w' ∧ c ≠ 'h' ∧ c ≠ 'e' := by
  cases p with
  | cell r => cases r <;> exact ⟨_, _, rfl, by decide⟩
  | indirect r k => exact ⟨_, _, rfl, by decide⟩

/-- Operands are written with these characters only. -/
def isOperandChar (c : Char) : Bool := c.isAlphanum || c ∈ ['+', '-', '[', ']']

theorem isOperandChar_of_mem_word {v : Int64} {c : Char} (h : c ∈ ofWord v) : isOperandChar c := by
  rcases mem_ofWord h with rfl | digit
  · decide
  · simp [isOperandChar, Char.isAlphanum, digit]

theorem isOperandChar_of_mem_place {p : Place Register} {c : Char} (h : c ∈ p.text) :
    isOperandChar c := by
  have name {r : Register} (h : c ∈ r.name.toList) : isOperandChar c := by
    simp [isOperandChar, r.isAlphanum_of_mem_name h]
  cases p with
  | cell r => exact name h
  | indirect r k =>
    have offset (h : c ∈ offsetText k) : isOperandChar c := by
      rw [offsetText] at h
      split at h
      · exact isOperandChar_of_mem_word h
      · rcases List.mem_cons.1 h with rfl | h
        · decide
        · exact isOperandChar_of_mem_word h
    simp only [Place.text, List.mem_append, List.mem_cons, List.not_mem_nil, or_false] at h
    rcases h with ((rfl | rfl | h) | h) | rfl
    · decide
    · decide
    · exact name h
    · exact offset h
    · decide

theorem isOperandChar_of_mem_operand {x : Operand Register} {c : Char} (h : c ∈ x.text) :
    isOperandChar c := by
  cases x with
  | literal v => exact isOperandChar_of_mem_word h
  | place p => exact isOperandChar_of_mem_place h

theorem isWhiteSpace_of_isOperandChar {c : Char} (h : isOperandChar c) :
    isWhiteSpace c = false := by
  simp only [isOperandChar, Bool.or_eq_true, decide_eq_true_eq, List.mem_cons, List.not_mem_nil,
    or_false] at h
  rcases h with h | rfl | rfl | rfl | rfl
  · have range := toNat_of_isAlphanum h
    exact isWhiteSpace_eq_false (by omega) (by omega)
  all_goals decide

theorem solid_place (p : Place Register) : Solid p.text := by
  obtain ⟨c, cs, text, -⟩ := p.text_eq
  exact ⟨by simp [text], fun c h => isWhiteSpace_of_isOperandChar (isOperandChar_of_mem_place h)⟩

theorem solid_operand (x : Operand Register) : Solid x.text := by
  cases x with
  | literal v => exact solid_ofWord v
  | place p => exact solid_place p

theorem colon_notMem_place (p : Place Register) : ':' ∉ p.text := fun h =>
  absurd (isOperandChar_of_mem_place h) (by decide)

theorem colon_notMem_operand (x : Operand Register) : ':' ∉ x.text := fun h =>
  absurd (isOperandChar_of_mem_operand h) (by decide)

/-! ## Statements -/

theorem Statement.text_move (dst : Place Register) (src : Operand Register) :
    (Statement.move dst src).text = dst.text ++ " := ".toList ++ src.text := rfl

theorem Statement.text_compute (dst : Place Register) (lhs : Operand Register) (op : Op)
    (rhs : Operand Register) :
    (Statement.compute dst lhs op rhs).text =
      dst.text ++ " := ".toList ++ (lhs.text ++ [' ', op.symbol, ' '] ++ rhs.text) := by
  rw [← List.append_assoc, ← List.append_assoc]
  rfl

theorem Statement.text_writeInt (src : Operand Register) :
    (Statement.writeInt src).text = "writeInt(".toList ++ src.text ++ [')'] := rfl

theorem assignment_text (p : Place Register) (right : List Char) :
    Assignment (p.text ++ " := ".toList ++ right) (p.text ++ [' ']) (' ' :: right) where
  split := by simp
  first inside := by
    have colon : ':' ∈ p.text ++ [' '] := inside.subset (by simp)
    simp [colon_notMem_place] at colon
  silent inner := by
    obtain ⟨c, cs, text, -, w, -⟩ := p.text_eq
    rw [text]
    exact fun same => w (List.cons.inj same).1

theorem operandText_target (p : Place Register) :
    OperandText registerAliases.find? (trim (p.text ++ [' ']))
      (.place (p.map Register.address)) := by
  have trimmed : trim (p.text ++ [' ']) = p.text := by
    simpa using @Solid.trim_append [] p.text [' '] (solid_place p) (by simp) (by simp; decide)
  rw [trimmed]
  exact operandText_text (.place p)

/-- Every statement over registers is read back as itself. -/
theorem statement_text (s : Statement Register) :
    statement registerAliases s.text = .ok (s.map Register.address) := by
  rw [statement_eq_ok]
  cases s with
  | move dst src =>
    have right : words (' ' :: src.text) = [src.text] := by
      rw [words_blank (by decide), (solid_operand src).words]
    exact .move (assignment_text dst src.text) (operandText_target dst) right (operandText_text src)
  | compute dst lhs op rhs =>
    have symbol : Solid [op.symbol] := by cases op <;> exact solid_singleton (by decide)
    have right : words (' ' :: (lhs.text ++ [' ', op.symbol, ' '] ++ rhs.text)) =
        [lhs.text, [op.symbol], rhs.text] := by
      have last := symbol.words_append (c := ' ') (by decide) rhs.text
      rw [words_blank (by decide), List.append_assoc, List.cons_append,
        (solid_operand lhs).words_append (by decide), List.cons_append, ← (solid_operand rhs).words]
      exact congrArg _ last
    rw [Statement.text_compute]
    exact .compute (assignment_text dst _) (operandText_target dst) right (Op.ofChar?_symbol op)
      (operandText_text lhs) (operandText_text rhs)
  | writeInt src =>
    rw [Statement.text_writeInt]
    exact .writeInt ((solid_operand src).trim.symm ▸ operandText_text src)
  | halt => exact .halt

/-- A statement starts with a letter that starts no definition, and it ends with
a visible character. -/
theorem Statement.text_ends (s : Statement Register) :
    (∃ c cs, s.text = c :: cs ∧ c.isAlpha ∧ c ≠ 'e') ∧
      ∀ c ∈ s.text.getLast?, isWhiteSpace c = false := by
  have assignment (p : Place Register) (right : List Char) :
      ∃ c cs, p.text ++ " := ".toList ++ right = c :: cs ∧ c.isAlpha ∧ c ≠ 'e' := by
    obtain ⟨c, cs, text, alpha, -, -, e⟩ := p.text_eq
    exact ⟨c, _, by rw [text]; rfl, alpha, e⟩
  cases s with
  | move dst src => exact ⟨assignment dst _, (solid_operand src).last _⟩
  | compute dst lhs op rhs =>
    rw [Statement.text_compute]
    refine ⟨assignment dst _, ?_⟩
    rw [← List.append_assoc]
    exact (solid_operand rhs).last _
  | writeInt src => exact ⟨⟨_, _, rfl, by decide⟩, (solid_singleton (by decide)).last _⟩
  | halt => exact ⟨⟨_, _, rfl, by decide⟩, (solid_singleton (by decide)).last ['h', 'a', 'l']⟩

theorem Statement.trim_text (s : Statement Register) {before : List Char}
    (h : ∀ c ∈ before, isWhiteSpace c) : trim (before ++ s.text) = s.text := by
  obtain ⟨⟨c, cs, text, first, -⟩, last⟩ := s.text_ends
  have visible : ∀ c ∈ s.text.head?, isWhiteSpace c = false := by
    simpa [text] using isWhiteSpace_of_isAlpha first
  simpa using @trim_append before s.text [] h (by simp) visible last

theorem Statement.definition?_text (s : Statement Register) : definition? s.text = none := by
  obtain ⟨⟨c, cs, text, -, e⟩, -⟩ := s.text_ends
  simp [text, definition?, dropLead?, Ne.symm e]

/-- The colon of an assignment is not the end of a label. -/
theorem Statement.unlabelled_text (s : Statement Register) : unlabelled s.text = s.text := by
  have ne_colon {cs : List Char} (h : ':' ∉ cs) : ∀ c ∈ cs, decide (c ≠ ':') = true :=
    fun c hc => decide_eq_true fun (e : c = ':') => h (e ▸ hc)
  have assignment (p : Place Register) (right : List Char) :
      unlabelled (p.text ++ " := ".toList ++ right) = p.text ++ " := ".toList ++ right := by
    have colon := @ne_colon (p.text ++ [' ']) (by simp [colon_notMem_place])
    have drop : (p.text ++ " := ".toList ++ right).dropWhile (fun c => decide (c ≠ ':')) =
        ':' :: '=' :: ' ' :: right := by
      have := @List.dropWhile_append_of_pos _ _ _ (':' :: '=' :: ' ' :: right) colon
      simpa using this
    rw [unlabelled, drop]
    simp
  have bare {cs : List Char} (h : ':' ∉ cs) : unlabelled cs = cs := by
    have drop : cs.dropWhile (fun c => decide (c ≠ ':')) = [] := by
      simpa using @List.dropWhile_append_of_pos _ _ _ [] (ne_colon h)
    rw [unlabelled, drop]
  cases s with
  | move dst src => exact assignment dst _
  | compute dst lhs op rhs => rw [Statement.text_compute]; exact assignment dst _
  | writeInt src => exact bare (by simp [Statement.text_writeInt, colon_notMem_operand])
  | halt => rfl

end Calculator.Ewe
