import Calculator.Ewe.Loader
import Calculator.Proofs.Text

/-!
# How statements are worded

Which texts are statements, and what they state, is said here as a grammar over
texts, with the cells of names given. Reading accepts exactly the texts of the
grammar. The texts that it does not accept have a grammar too, in which each has one
problem: the first operand that cannot be read, or the whole text if there are no
operands to look for.
-/

namespace Calculator.Ewe

open Text Numeral

/-! ## The grammar -/

/-- A reference to memory with something between its brackets. -/
def bracketed (inner : List Char) : List Char := 'M' :: '[' :: inner ++ [']']

/-- What is printed stands between the parentheses. -/
def printing (inner : List Char) : List Char := "writeInt(".toList ++ inner ++ [')']

section

variable (names : List Char → Option Nat)

/-- The texts that stand for a place. A number between brackets is a cell, whatever
the names are. -/
inductive PlaceText : List Char → Place Nat → Prop
  | fixed {inner a} (number : unsigned? (trim inner) = some a) :
      PlaceText (bracketed inner) (.cell a)
  | pointed {inner a} (word : unsigned? (trim inner) = none)
      (unsigned : ∀ c ∈ trim inner, ¬ isSign c) (known : names (trim inner) = some a) :
      PlaceText (bracketed inner) (.indirect a 0)
  | shifted {inner name sign digits a k} (word : unsigned? (trim inner) = none)
      (split : trim inner = name ++ sign :: digits) (unsigned : ∀ c ∈ name, ¬ isSign c)
      (signed : isSign sign) (known : names (trim name) = some a)
      (offset : signed? (trim (sign :: digits)) = some k) :
      PlaceText (bracketed inner) (.indirect a k)
  | named {text a} (bare : ∀ inner, text ≠ bracketed inner) (known : names text = some a) :
      PlaceText text (.cell a)

/-- The texts of operands. What can be read as a number is one, also if it is a name. -/
inductive OperandText : List Char → Operand Nat → Prop
  | literal {text v} (number : signed? text = some v) : OperandText text (.literal v)
  | place {text p} (word : signed? text = none) (place : PlaceText names text p) :
      OperandText text (.place p)

/-- The text is an assignment with these two sides. -/
structure Assignment (text left right : List Char) : Prop where
  split : text = left ++ ':' :: '=' :: right
  first : ¬ [':', '='] <:+: left
  silent : ∀ inner, text ≠ printing inner

/-- The texts of statements. -/
inductive StatementText : List Char → Statement Nat → Prop
  | halt : StatementText "halt".toList .halt
  | writeInt {inner x} (operand : OperandText names (trim inner) x) :
      StatementText (printing inner) (.writeInt x)
  | move {text left right src dst x} (sides : Assignment text left right)
      (target : OperandText names (trim left) (.place dst)) (value : words right = [src])
      (operand : OperandText names src x) : StatementText text (.move dst x)
  | compute {text left right lhs symbol rhs dst op x y} (sides : Assignment text left right)
      (target : OperandText names (trim left) (.place dst))
      (value : words right = [lhs, symbol, rhs]) (operator : Op.ofSymbol? symbol = some op)
      (first : OperandText names lhs x) (second : OperandText names rhs y) :
      StatementText text (.compute dst x op y)

/-- The problems of the texts that are no statements. What stands between the
parentheses is the only operand of a text that prints. An assignment is read from the
left to the right, except that its operator has to be known before its operands are
read. -/
inductive Blames : List Char → Problem → Prop
  | printed {inner} (unknown : ∀ x, ¬ OperandText names (trim inner) x) :
      Blames (printing inner) (.operand (String.ofList (trim inner)))
  | unassigned {text} (running : text ≠ "halt".toList) (silent : ∀ inner, text ≠ printing inner)
      (unassigned : ¬ [':', '='] <:+: text) : Blames text (.statement (String.ofList text))
  | target {text left right} (sides : Assignment text left right)
      (unknown : ∀ p, ¬ OperandText names (trim left) (.place p)) :
      Blames text (.operand (String.ofList (trim left)))
  | value {text left right dst} (sides : Assignment text left right)
      (target : OperandText names (trim left) (.place dst)) (unmoved : ∀ src, words right ≠ [src])
      (uncomputed : ∀ lhs symbol rhs, words right = [lhs, symbol, rhs] →
        Op.ofSymbol? symbol = none) :
      Blames text (.statement (String.ofList text))
  | moved {text left right src dst} (sides : Assignment text left right)
      (target : OperandText names (trim left) (.place dst)) (value : words right = [src])
      (unknown : ∀ x, ¬ OperandText names src x) : Blames text (.operand (String.ofList src))
  | first {text left right lhs symbol rhs dst op} (sides : Assignment text left right)
      (target : OperandText names (trim left) (.place dst))
      (value : words right = [lhs, symbol, rhs]) (operator : Op.ofSymbol? symbol = some op)
      (unknown : ∀ x, ¬ OperandText names lhs x) : Blames text (.operand (String.ofList lhs))
  | second {text left right lhs symbol rhs dst op x} (sides : Assignment text left right)
      (target : OperandText names (trim left) (.place dst))
      (value : words right = [lhs, symbol, rhs]) (operator : Op.ofSymbol? symbol = some op)
      (first : OperandText names lhs x) (unknown : ∀ y, ¬ OperandText names rhs y) :
      Blames text (.operand (String.ofList rhs))

end

/-! ## Reading operands -/

variable {t : Aliases} {text : List Char}

theorem reference?_eq_some {x : List Char} :
    reference? text = some x ↔ ∃ inner, text = bracketed inner ∧ trim inner = x := by
  simp only [reference?, Option.map_eq_some_iff, between_eq_some]
  rfl

theorem reference?_bracketed (inner : List Char) :
    reference? (bracketed inner) = some (trim inner) :=
  reference?_eq_some.2 ⟨inner, rfl, rfl⟩

theorem reference?_eq_none : reference? text = none ↔ ∀ inner, text ≠ bracketed inner := by
  constructor
  · rintro h inner rfl
    simp [reference?_bracketed] at h
  · intro h
    rw [Option.eq_none_iff_forall_ne_some]
    intro x found
    obtain ⟨inner, rfl, -⟩ := reference?_eq_some.1 found
    exact h inner rfl

theorem indirect?_of_unsigned (h : ∀ c ∈ text, ¬ isSign c) :
    indirect? t text = (t.find? text).map (.indirect · 0) := by
  have drop : text.dropWhile (fun c => !isSign c) = [] := by
    simpa [List.dropWhile_eq_nil_iff] using h
  rw [indirect?, drop]

theorem indirect?_of_signed {name digits : List Char} {sign : Char}
    (h : ∀ c ∈ name, ¬ isSign c) (signed : isSign sign) :
    indirect? t (name ++ sign :: digits) =
      (t.find? (trim name)).bind fun a => (signed? (trim (sign :: digits))).map (.indirect a) := by
  have unsigned : ∀ c ∈ name, (!isSign c) = true := by simpa using h
  have drop : (name ++ sign :: digits).dropWhile (fun c => !isSign c) = sign :: digits := by
    rw [List.dropWhile_append_of_pos unsigned, List.dropWhile_cons_of_neg (by simp [signed])]
  have take : (name ++ sign :: digits).takeWhile (fun c => !isSign c) = name := by
    rw [List.takeWhile_append_of_pos unsigned, List.takeWhile_cons_of_neg (by simp [signed]),
      List.append_nil]
  simp only [indirect?, drop, take, Option.map_eq_bind]
  rfl

theorem place_of_bare {p : Place Nat} (bare : ∀ inner, text ≠ bracketed inner) :
    place t text = .ok p ↔ ∃ a, t.find? text = some a ∧ .cell a = p := by
  simp only [place, address?, reference?_eq_none.2 bare, Option.bind_none]
  cases t.find? text <;> simp

theorem place_of_number {inner : List Char} {a : Nat} {p : Place Nat}
    (number : unsigned? (trim inner) = some a) :
    place t (bracketed inner) = .ok p ↔ .cell a = p := by
  simp [place, address?, reference?_bracketed, number]

theorem place_of_word {inner : List Char} {p : Place Nat} (word : unsigned? (trim inner) = none) :
    place t (bracketed inner) = .ok p ↔ indirect? t (trim inner) = some p := by
  simp only [place, address?, reference?_bracketed, Option.bind_some, word]
  cases indirect? t (trim inner) <;> simp

/-- Exactly the texts of the grammar are read as places. -/
theorem place_eq_ok {p : Place Nat} : place t text = .ok p ↔ PlaceText t.find? text p := by
  constructor
  · intro h
    by_cases bare : ∀ inner, text ≠ bracketed inner
    · obtain ⟨a, known, rfl⟩ := (place_of_bare bare).1 h
      exact .named bare known
    · simp only [ne_eq, not_forall, not_not] at bare
      obtain ⟨inner, rfl⟩ := bare
      cases word : unsigned? (trim inner) with
      | some a =>
        obtain rfl := (place_of_number word).1 h
        exact .fixed word
      | none =>
        rw [place_of_word word] at h
        rcases forall_or_exists_first (¬ isSign ·) (trim inner) with
          unsigned | ⟨name, sign, digits, split, unsigned, signed⟩
        · rw [indirect?_of_unsigned unsigned, Option.map_eq_some_iff] at h
          obtain ⟨a, known, rfl⟩ := h
          exact .pointed word unsigned known
        · rw [not_not] at signed
          rw [split, indirect?_of_signed unsigned signed, Option.bind_eq_some_iff] at h
          obtain ⟨a, known, h⟩ := h
          obtain ⟨k, offset, rfl⟩ := Option.map_eq_some_iff.1 h
          exact .shifted word split unsigned signed known offset
  · intro h
    cases h with
    | fixed number => exact (place_of_number number).2 rfl
    | pointed word unsigned known =>
      rw [place_of_word word, indirect?_of_unsigned unsigned, known, Option.map_some]
    | shifted word split unsigned signed known offset =>
      rw [place_of_word word, split, indirect?_of_signed unsigned signed, known, Option.bind_some,
        offset, Option.map_some]
    | named bare known => exact (place_of_bare bare).2 ⟨_, known, rfl⟩

theorem place_eq_error {problem : Problem} (h : place t text = .error problem) :
    problem = .operand (String.ofList text) := by
  simp only [place] at h
  split at h
  · contradiction
  · exact (Except.error.inj h).symm

theorem operand_eq_ok {x : Operand Nat} : operand t text = .ok x ↔ OperandText t.find? text x := by
  cases number : signed? text with
  | some v =>
    simp only [operand, number, Except.ok.injEq]
    constructor
    · rintro rfl
      exact .literal number
    · rintro (other | ⟨word, -⟩)
      · rw [Option.some.inj (number.symm.trans other)]
      · simp [number] at word
  | none =>
    simp only [operand, number]
    constructor
    · intro h
      rcases found : place t text with problem | p <;> rw [found] at h <;> cases h
      exact .place number (place_eq_ok.1 found)
    · rintro (other | ⟨-, place⟩)
      · simp [number] at other
      · rw [place_eq_ok.2 place]
        rfl

theorem target_eq_ok {p : Place Nat} :
    target t text = .ok p ↔ OperandText t.find? text (.place p) := by
  rw [← operand_eq_ok, target, operand]
  cases signed? text with
  | some v => simp
  | none => cases place t text <;> simp [Except.map]

/-- What cannot be read as an operand is blamed itself. -/
theorem operand_eq_error {problem : Problem} :
    operand t text = .error problem ↔
      (∀ x, ¬ OperandText t.find? text x) ∧ .operand (String.ofList text) = problem := by
  simp only [← operand_eq_ok]
  rcases number : signed? text with _ | v
  · rcases found : place t text with other | p
    · simp [operand, number, found, place_eq_error found, Except.map]
    · simp [operand, number, found, Except.map]
  · simp [operand, number]

theorem target_eq_error {problem : Problem} :
    target t text = .error problem ↔
      (∀ p, ¬ OperandText t.find? text (.place p)) ∧ .operand (String.ofList text) = problem := by
  simp only [← target_eq_ok]
  rcases number : signed? text with _ | v
  · rcases found : place t text with other | p
    · simp [target, number, found, place_eq_error found]
    · simp [target, number, found]
  · simp [target, number]

/-! ## Reading statements -/

theorem written?_eq_some {inner : List Char} :
    written? text = some inner ↔ text = printing inner := between_eq_some

theorem written?_eq_none : written? text = none ↔ ∀ inner, text ≠ printing inner := by
  rw [Option.eq_none_iff_forall_ne_some]
  exact forall_congr' fun inner => not_congr written?_eq_some

/-- A text comes apart at its first `:=`. -/
theorem sides?_eq_some {left right : List Char} :
    sides? text = some (left, right) ↔
      text = left ++ ':' :: '=' :: right ∧ ¬ [':', '='] <:+: left := by
  constructor
  · intro h
    fun_induction sides? text generalizing left with
    | case1 => contradiction
    | case2 cs =>
      cases h
      exact ⟨rfl, by simp⟩
    | case3 c cs other ih =>
      obtain ⟨⟨l, r⟩, found, same⟩ := Option.map_eq_some_iff.1 h
      cases same
      obtain ⟨rfl, first⟩ := ih found
      refine ⟨rfl, fun inside => ?_⟩
      rcases List.infix_cons_iff.1 inside with ⟨rest, front⟩ | later
      · cases front
        exact other _ rfl rfl
      · exact first later
  · rintro ⟨rfl, first⟩
    induction left with
    | nil => rfl
    | cons c left ih =>
      rw [List.infix_cons_iff, not_or] at first
      rw [List.cons_append, sides?, ih first.2, Option.map_some]
      rintro cs rfl same
      cases left with
      | nil => cases same
      | cons d left =>
        cases same
        exact first.1 ⟨left, rfl⟩

theorem sides?_eq_none : sides? text = none ↔ ¬ [':', '='] <:+: text := by
  fun_induction sides? text with
  | case1 => simp
  | case2 cs => simp [List.infix_cons_iff]
  | case3 c cs other ih =>
    rw [Option.map_eq_none_iff, ih, List.infix_cons_iff, not_or]
    refine (and_iff_right ?_).symm
    rintro ⟨rest, front⟩
    cases front
    exact other _ rfl rfl

namespace Assignment

variable {left right : List Char}

theorem ne_halt (h : Assignment text left right) : text ≠ "halt".toList := by
  intro same
  have colon : ':' ∈ "halt".toList := by simp [← same, h.split]
  exact absurd colon (by decide)

theorem statement_eq (h : Assignment text left right) :
    statement t text = (do
      let dst ← target t (trim left)
      match words right with
      | [src] => return .move dst (← operand t src)
      | [lhs, symbol, rhs] =>
        match Op.ofSymbol? symbol with
        | none => .error (.statement (String.ofList text))
        | some op => return .compute dst (← operand t lhs) op (← operand t rhs)
      | _ => .error (.statement (String.ofList text))) := by
  rewrite [statement, if_neg h.ne_halt, written?_eq_none.2 h.silent,
    sides?_eq_some.2 ⟨h.split, h.first⟩]
  rfl

end Assignment

theorem statement_printing (inner : List Char) :
    statement t (printing inner) = (operand t (trim inner)).map .writeInt := by
  have other : printing inner ≠ "halt".toList :=
    fun same => absurd (List.cons.inj same).1 (by decide)
  rw [statement, if_neg other, written?_eq_some.2 rfl]

theorem statement_unassigned (running : text ≠ "halt".toList)
    (silent : ∀ inner, text ≠ printing inner) (unassigned : ¬ [':', '='] <:+: text) :
    statement t text = .error (.statement (String.ofList text)) := by
  rw [statement, if_neg running, written?_eq_none.2 silent, sides?_eq_none.2 unassigned]

/-- A text is read in one of four ways. -/
theorem statement_cases (text : List Char) :
    text = "halt".toList ∨ (∃ inner, text = printing inner) ∨
      (∃ left right, Assignment text left right) ∨
      text ≠ "halt".toList ∧ (∀ inner, text ≠ printing inner) ∧ ¬ [':', '='] <:+: text := by
  by_cases halt : text = "halt".toList
  · exact .inl halt
  rcases printed : written? text with _ | inner
  · have silent := written?_eq_none.1 printed
    rcases cut : sides? text with _ | ⟨left, right⟩
    · exact .inr (.inr (.inr ⟨halt, silent, sides?_eq_none.1 cut⟩))
    · obtain ⟨split, first⟩ := sides?_eq_some.1 cut
      exact .inr (.inr (.inl ⟨left, right, split, first, silent⟩))
  · exact .inr (.inl ⟨inner, written?_eq_some.1 printed⟩)

/-- What is read is in the grammar, and the rest is blamed as the grammar says. -/
theorem statement_spec (t : Aliases) (text : List Char) :
    match statement t text with
    | .ok s => StatementText t.find? text s
    | .error problem => Blames t.find? text problem := by
  rcases statement_cases text with rfl | ⟨inner, rfl⟩ | ⟨left, right, sides⟩ |
    ⟨running, silent, unassigned⟩
  · exact .halt
  · rw [statement_printing]
    rcases read : operand t (trim inner) with x | x
    · obtain ⟨unknown, rfl⟩ := operand_eq_error.1 read
      exact .printed unknown
    · exact .writeInt (operand_eq_ok.1 read)
  · rw [sides.statement_eq]
    rcases read : target t (trim left) with x | dst
    · obtain ⟨unknown, rfl⟩ := target_eq_error.1 read
      exact .target sides unknown
    have dst_text := target_eq_ok.1 read
    simp only [bind, Except.bind]
    rcases value : words right with _ | ⟨a, _ | ⟨b, _ | ⟨c, _ | ⟨d, more⟩⟩⟩⟩
    · exact .value sides dst_text (by simp [value]) (by simp [value])
    · rcases moved : operand t a with x | x <;> simp only [moved]
      · obtain ⟨unknown, rfl⟩ := operand_eq_error.1 moved
        exact .moved sides dst_text value unknown
      · exact .move sides dst_text value (operand_eq_ok.1 moved)
    · exact .value sides dst_text (by simp [value]) (by simp [value])
    · rcases operator : Op.ofSymbol? b with _ | op <;> simp only [operator]
      · exact .value sides dst_text (by simp [value]) (by simp [value, operator])
      rcases first : operand t a with x | x
      · obtain ⟨unknown, rfl⟩ := operand_eq_error.1 first
        exact .first sides dst_text value operator unknown
      rcases second : operand t c with y | y
      · obtain ⟨unknown, rfl⟩ := operand_eq_error.1 second
        exact .second sides dst_text value operator (operand_eq_ok.1 first) unknown
      · exact .compute sides dst_text value operator (operand_eq_ok.1 first)
          (operand_eq_ok.1 second)
    · exact .value sides dst_text (by simp [value]) (by simp [value])
  · rw [statement_unassigned running silent unassigned]
    exact .unassigned running silent unassigned

/-- Exactly the texts of the grammar are read as statements. -/
theorem statement_eq_ok {s : Statement Nat} :
    statement t text = .ok s ↔ StatementText t.find? text s := by
  constructor
  · intro h
    simpa only [h] using statement_spec t text
  · intro h
    cases h with
    | halt => rfl
    | writeInt x =>
      rw [statement_printing, operand_eq_ok.2 x]
      rfl
    | move sides dst value x =>
      rw [sides.statement_eq, target_eq_ok.2 dst, value]
      simp only [operand_eq_ok.2 x]
      rfl
    | compute sides dst value op x y =>
      rw [sides.statement_eq, target_eq_ok.2 dst, value]
      simp only [op, operand_eq_ok.2 x, operand_eq_ok.2 y]
      rfl

/-- Every other text has one problem, and it is the one that is reported. -/
theorem statement_eq_error {problem : Problem} :
    statement t text = .error problem ↔ Blames t.find? text problem := by
  constructor
  · intro h
    simpa only [h] using statement_spec t text
  · intro h
    cases h with
    | printed unknown =>
      rw [statement_printing, operand_eq_error.2 ⟨unknown, rfl⟩]
      rfl
    | unassigned running silent unassigned =>
      exact statement_unassigned running silent unassigned
    | target sides unknown =>
      rw [sides.statement_eq, target_eq_error.2 ⟨unknown, rfl⟩]
      rfl
    | @value _ _ right _ sides dst unmoved uncomputed =>
      rw [sides.statement_eq, target_eq_ok.2 dst]
      rcases value : words right with _ | ⟨a, _ | ⟨b, _ | ⟨c, _ | ⟨d, more⟩⟩⟩⟩
      · rfl
      · exact absurd value (unmoved a)
      · rfl
      · simp only [uncomputed a b c value]
        rfl
      · rfl
    | moved sides dst value unknown =>
      rw [sides.statement_eq, target_eq_ok.2 dst, value]
      simp only [operand_eq_error.2 ⟨unknown, rfl⟩]
      rfl
    | first sides dst value op unknown =>
      rw [sides.statement_eq, target_eq_ok.2 dst, value]
      simp only [op, operand_eq_error.2 ⟨unknown, rfl⟩]
      rfl
    | second sides dst value op x unknown =>
      rw [sides.statement_eq, target_eq_ok.2 dst, value]
      simp only [op, operand_eq_ok.2 x, operand_eq_error.2 ⟨unknown, rfl⟩]
      rfl

end Calculator.Ewe
