import Calculator.Proofs.Text
import Calculator.Token.Lexer
import Mathlib.Data.List.TakeWhile

/-!
# How tokens are spelled

A token of a text is a sign of one character, a run of digits or a word. Cutting
a token off a text takes exactly the characters it is spelled with, and it takes
all of them: what follows does not go on with it.
-/

namespace Calculator

/-- The character of a token that always has just this one. -/
def Token.Kind.sign? : Token.Kind → Option Char
  | .operator op => some op.symbol
  | .openParen => some '('
  | .closeParen => some ')'
  | .identifier | .number | .keyword | .eof => none

namespace Token

/-- The characters of a token in a text. -/
def spelling (t : Token) : List Char :=
  match t.kind.sign? with
  | some c => [c]
  | none => t.text.toList

/-- The token is one of a text, and it keeps the characters that its kind asks for. -/
def WellSpelled (t : Token) : Prop :=
  match t.kind with
  | .number => ∃ c cs, t.lexeme = some (String.ofList (c :: cs)) ∧ ∀ d ∈ c :: cs, d.isDigit
  | .keyword => t.lexeme = some "S" ∨ t.lexeme = some "R"
  | .identifier => ∃ c cs, t.lexeme = some (String.ofList (c :: cs)) ∧ c.isAlpha ∧
      (∀ d ∈ cs, d.isAlphanum) ∧ c :: cs ≠ ['S'] ∧ c :: cs ≠ ['R']
  | .operator _ | .openParen | .closeParen => t.lexeme = none
  | .eof => False

/-- The token would be longer if the character came next. -/
def goesOn (t : Token) (c : Char) : Bool :=
  match t.kind with
  | .number => c.isDigit
  | .keyword | .identifier => c.isAlphanum
  | .operator _ | .openParen | .closeParen | .eof => false

theorem WellSpelled.kind_ne_eof {t : Token} (h : t.WellSpelled) : t.kind ≠ .eof := by
  intro eof
  rwa [WellSpelled, eof] at h

/-- A token that is no sign is spelled with letters and digits. -/
theorem WellSpelled.isAlphanum {t : Token} (h : t.WellSpelled) (word : t.kind.sign? = none) :
    ∀ c ∈ t.spelling, c.isAlphanum := by
  obtain ⟨kind, p, lexeme⟩ := t
  intro c hc
  cases kind with
  | number =>
    obtain ⟨d, ds, rfl, digits⟩ := h
    have digit := digits c (by simpa [spelling, Kind.sign?, text] using hc)
    simp [Char.isAlphanum, digit]
  | keyword =>
    rcases h with rfl | rfl
    · obtain rfl : c = 'S' := by simpa [spelling, Kind.sign?, text] using hc
      decide
    · obtain rfl : c = 'R' := by simpa [spelling, Kind.sign?, text] using hc
      decide
  | identifier =>
    obtain ⟨d, ds, rfl, alpha, all, -⟩ := h
    have member : c ∈ d :: ds := by simpa [spelling, Kind.sign?, text] using hc
    rcases List.mem_cons.1 member with rfl | member
    · simp [Char.isAlphanum, alpha]
    · exact all c member
  | operator | openParen | closeParen => cases word
  | eof => exact h.elim

theorem isAlphanum_of_goesOn {t : Token} {c : Char} (h : t.goesOn c) : c.isAlphanum := by
  unfold goesOn at h
  split at h
  · simp [Char.isAlphanum, h]
  · exact h
  · exact h
  all_goals cases h

/-- A sign keeps no text, and nothing goes on with it. -/
theorem of_sign? {t : Token} {c : Char} (h : t.kind.sign? = some c) :
    t.spelling = [c] ∧ (t.WellSpelled ↔ t.lexeme = none) ∧ (∀ d, ¬ t.goesOn d) ∧
      ∀ cs, Lexer.lexeme? t.kind cs = none := by
  obtain ⟨kind, p, lexeme⟩ := t
  cases kind with
  | operator | openParen | closeParen =>
    obtain rfl := Option.some.inj h
    exact ⟨rfl, Iff.rfl, fun _ => Bool.false_ne_true, fun _ => rfl⟩
  | identifier | number | keyword | eof => cases h

end Token

theorem Op.ofChar?_eq_some {c : Char} {op : Op} : ofChar? c = some op ↔ c = op.symbol := by
  constructor
  · intro h
    unfold ofChar? at h
    split at h <;> cases h <;> rfl
  · rintro rfl
    exact ofChar?_symbol op

namespace Lexer

/-! ## Classes of characters -/

theorem isBlank_iff {c : Char} : isBlank c ↔ c ∈ [' ', '\t', '\r', '\n'] := by
  simp [isBlank, or_assoc]

theorem isBlank_of_isAlphanum {c : Char} (h : c.isAlphanum) : isBlank c = false := by
  rw [← Bool.not_eq_true, isBlank_iff]
  simp only [List.mem_cons, List.not_mem_nil, or_false]
  rintro (rfl | rfl | rfl | rfl) <;> exact absurd h (by decide)

theorem signKind?_eq_some {c : Char} {kind : Token.Kind} :
    signKind? c = some kind ↔ kind.sign? = some c := by
  constructor
  · intro h
    unfold signKind? at h
    split at h
    · cases h
      rfl
    · cases h
      rfl
    · obtain ⟨op, hop, rfl⟩ := Option.map_eq_some_iff.1 h
      rw [Token.Kind.sign?, Op.ofChar?_eq_some.1 hop]
  · intro h
    cases kind with
    | operator op =>
      cases h
      cases op <;> rfl
    | openParen | closeParen =>
      cases h
      rfl
    | identifier | number | keyword | eof => cases h

/-- A sign is neither a letter nor a digit nor a blank. -/
theorem classes_of_sign? {c : Char} {kind : Token.Kind} (h : kind.sign? = some c) :
    c.isAlphanum = false ∧ isBlank c = false := by
  cases kind with
  | operator op =>
    cases h
    cases op <;> decide
  | openParen | closeParen =>
    cases h
    decide
  | identifier | number | keyword | eof => cases h

/-- No character of a token is a blank. -/
theorem isBlank_of_spelling {t : Token} (h : t.WellSpelled) {c : Char} (hc : c ∈ t.spelling) :
    isBlank c = false := by
  rcases sign : t.kind.sign? with _ | s
  · exact isBlank_of_isAlphanum (h.isAlphanum sign c hc)
  · obtain ⟨spelling, -⟩ := Token.of_sign? sign
    obtain rfl : c = s := by simpa [spelling] using hc
    exact (classes_of_sign? sign).2

theorem signKind?_of_isAlphanum {c : Char} (h : c.isAlphanum) : signKind? c = none := by
  rcases sign : signKind? c with _ | kind
  · rfl
  · simp [(classes_of_sign? (signKind?_eq_some.1 sign)).1] at h

/-! ## Cutting runs of characters -/

section Run

variable {f : Char → Bool} {cs rest : List Char}

theorem takeWhile_append_eq (all : ∀ c ∈ cs, f c) (stop : ∀ c ∈ rest.head?, ¬ f c) :
    (cs ++ rest).takeWhile f = cs := by
  rw [List.takeWhile_append_of_pos all]
  cases rest with
  | nil => simp
  | cons c rest => simp [stop c rfl]

theorem dropWhile_append_eq (all : ∀ c ∈ cs, f c) (stop : ∀ c ∈ rest.head?, ¬ f c) :
    (cs ++ rest).dropWhile f = rest := by
  rw [List.dropWhile_append_of_pos all]
  cases rest with
  | nil => rfl
  | cons c rest => simp [stop c rfl]

theorem not_head_dropWhile (f : Char → Bool) (cs : List Char) :
    ∀ c ∈ (cs.dropWhile f).head?, ¬ f c := by
  intro c hc
  have stop := List.head?_dropWhile_not f cs
  rw [Option.mem_def.1 hc] at stop
  simpa using stop

end Run

/-! ## Cutting tokens -/

theorem munch?_of_sign? {c : Char} {kind : Token.Kind} (h : kind.sign? = some c) (cs : List Char) :
    munch? c cs = some (kind, [], cs) := by
  rw [munch?, signKind?_eq_some.2 h]

theorem munch?_of_isAlpha {c : Char} (h : c.isAlpha) (cs : List Char) :
    munch? c cs = some (wordKind (c :: cs.takeWhile Char.isAlphanum), cs.takeWhile Char.isAlphanum,
      cs.dropWhile Char.isAlphanum) := by
  rw [munch?, signKind?_of_isAlphanum (by simp [Char.isAlphanum, h]), if_pos h]

theorem munch?_of_isDigit {c : Char} (h : c.isDigit) (cs : List Char) :
    munch? c cs = some (.number, cs.takeWhile Char.isDigit, cs.dropWhile Char.isDigit) := by
  have word : ¬ c.isAlpha := fun alpha => Text.not_isDigit_of_isAlpha alpha h
  rw [munch?, signKind?_of_isAlphanum (by simp [Char.isAlphanum, h]), if_neg word, if_pos h]

/-- A token is cut off a text if what follows does not go on with it. -/
theorem munch?_spelling {t : Token} {rest : List Char} (spelled : t.WellSpelled)
    (longest : ∀ c ∈ rest.head?, ¬ t.goesOn c) :
    ∃ c tail, t.spelling = c :: tail ∧ isBlank c = false ∧
      munch? c (tail ++ rest) = some (t.kind, tail, rest) ∧
      lexeme? t.kind (c :: tail) = t.lexeme := by
  have word {c : Char} {tail : List Char} (alpha : c.isAlpha) (all : ∀ d ∈ tail, d.isAlphanum)
      (stop : ∀ d ∈ rest.head?, ¬ d.isAlphanum) : isBlank c = false ∧
        munch? c (tail ++ rest) = some (wordKind (c :: tail), tail, rest) := by
    rw [munch?_of_isAlpha alpha, takeWhile_append_eq all stop, dropWhile_append_eq all stop]
    exact ⟨isBlank_of_isAlphanum (by simp [Char.isAlphanum, alpha]), rfl⟩
  rcases sign : t.kind.sign? with _ | c
  · obtain ⟨kind, p, lexeme⟩ := t
    cases kind with
    | number =>
      obtain ⟨c, tail, rfl, digits⟩ := spelled
      have all : ∀ d ∈ tail, d.isDigit := fun d hd => digits d (by simp [hd])
      have digit : c.isDigit := digits c (by simp)
      refine ⟨c, tail, String.toList_ofList,
        isBlank_of_isAlphanum (by simp [Char.isAlphanum, digit]), ?_, rfl⟩
      rw [munch?_of_isDigit digit, takeWhile_append_eq all longest, dropWhile_append_eq all longest]
    | keyword =>
      rcases spelled with rfl | rfl
      · obtain ⟨visible, munch⟩ := @word 'S' [] rfl (by simp) longest
        exact ⟨'S', [], (by decide : "S".toList = ['S']), visible, munch, rfl⟩
      · obtain ⟨visible, munch⟩ := @word 'R' [] rfl (by simp) longest
        exact ⟨'R', [], (by decide : "R".toList = ['R']), visible, munch, rfl⟩
    | identifier =>
      obtain ⟨c, tail, rfl, alpha, all, notStore, notMemory⟩ := spelled
      obtain ⟨visible, munch⟩ := word alpha all longest
      rw [wordKind, if_neg (not_or.2 ⟨notStore, notMemory⟩)] at munch
      exact ⟨c, tail, String.toList_ofList, visible, munch, rfl⟩
    | operator | openParen | closeParen => cases sign
    | eof => exact spelled.elim
  · obtain ⟨spelling, lexeme, -, kept⟩ := Token.of_sign? sign
    exact ⟨c, [], spelling, (classes_of_sign? sign).2, munch?_of_sign? sign rest,
      (kept [c]).trans (lexeme.1 spelled).symm⟩

/-- What is cut off a text is a token, and what follows does not go on with it. -/
theorem spelling_of_munch? {c : Char} {cs tail rest : List Char} {kind : Token.Kind} (p : Position)
    (h : munch? c cs = some (kind, tail, rest)) :
    let t : Token := { kind, position := p, lexeme := lexeme? kind (c :: tail) }
    t.WellSpelled ∧ t.spelling = c :: tail ∧ cs = tail ++ rest ∧
      ∀ d ∈ rest.head?, ¬ t.goesOn d := by
  unfold munch? at h
  split at h
  · next sign =>
    obtain ⟨rfl, rfl, rfl⟩ := by simpa using h
    intro t
    obtain ⟨spelling, lexeme, stop, kept⟩ := Token.of_sign? (t := t) (signKind?_eq_some.1 sign)
    exact ⟨lexeme.2 (kept [c]), spelling, rfl, fun d _ => stop d⟩
  split at h
  · next alpha =>
    obtain ⟨rfl, rfl, rfl⟩ := by simpa using h
    have stop := not_head_dropWhile Char.isAlphanum cs
    by_cases memory : c :: cs.takeWhile Char.isAlphanum = ['S'] ∨
        c :: cs.takeWhile Char.isAlphanum = ['R']
    · rw [wordKind, if_pos memory]
      refine ⟨?_, String.toList_ofList, List.takeWhile_append_dropWhile.symm, stop⟩
      refine memory.imp (fun h => ?_) fun h => ?_ <;> simp only [lexeme?, h]
    · rw [wordKind, if_neg memory]
      rw [not_or] at memory
      exact ⟨⟨c, _, rfl, alpha, fun d hd => List.mem_takeWhile_imp hd, memory⟩, String.toList_ofList,
        List.takeWhile_append_dropWhile.symm, stop⟩
  split at h
  · next digit =>
    obtain ⟨rfl, rfl, rfl⟩ := by simpa using h
    refine ⟨⟨c, _, rfl, fun d hd => ?_⟩, String.toList_ofList,
      List.takeWhile_append_dropWhile.symm, not_head_dropWhile Char.isDigit cs⟩
    rcases List.mem_cons.1 hd with rfl | hd
    · exact digit
    · exact List.mem_takeWhile_imp hd
  · cases h

end Lexer

end Calculator
