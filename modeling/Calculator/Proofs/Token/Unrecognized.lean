import Calculator.Proofs.Token.Layout

/-!
# Characters that start no token

A text cannot be read to its end if it has a character that is neither part of a
token nor a blank. Reading stops at the first of them and reports it, and all
tokens that were read before stand at earlier positions.
-/

namespace Calculator

/-! ## The order of positions -/

namespace Position

/-- A position is before another one on an earlier line, or further to the left on
the same line. -/
instance : LT Position where
  lt p q := p.line < q.line ∨ p.line = q.line ∧ p.column < q.column

theorem lt_iff {p q : Position} :
    p < q ↔ p.line < q.line ∨ p.line = q.line ∧ p.column < q.column := Iff.rfl

theorem lt_next (p : Position) (c : Char) : p < p.next c := by
  rw [lt_iff, next]
  split
  · exact .inl (Nat.lt_succ_self _)
  · exact .inr ⟨rfl, Nat.lt_succ_self _⟩

theorem lt_trans {p q r : Position} (h : p < q) (h' : q < r) : p < r := by
  rw [lt_iff] at *
  omega

/-- Every character leads further. -/
theorem lt_skip (p : Position) {cs : List Char} (h : cs ≠ []) : p < p.skip cs := by
  induction cs generalizing p with
  | nil => exact absurd rfl h
  | cons c cs ih =>
    rw [skip_cons]
    by_cases last : cs = []
    · subst last
      exact p.lt_next c
    · exact lt_trans (p.lt_next c) (ih _ last)

theorem after_lt_after (before : List Char) {cs : List Char} (h : cs ≠ []) :
    after before < after (before ++ cs) := by
  rw [← skip_after]
  exact lt_skip _ h

end Position

/-! ## Characters of tokens and blanks -/

/-- The character can be read, as a part of a token or as a blank. -/
def Readable (c : Char) : Prop :=
  c.isAlpha ∨ c.isDigit ∨ c ∈ ['+', '-', '*', '/', '%', '(', ')', ' ', '\t', '\r', '\n']

instance : DecidablePred Readable := fun _ => inferInstanceAs (Decidable (_ ∨ _ ∨ _))

namespace Readable

variable {c : Char}

theorem of_isAlphanum (h : c.isAlphanum) : Readable c := by
  rcases Bool.or_eq_true_iff.1 h with alpha | digit
  · exact .inl alpha
  · exact .inr (.inl digit)

theorem of_isBlank (h : Lexer.isBlank c) : Readable c := by
  have blank := Lexer.isBlank_iff.1 h
  refine .inr (.inr ?_)
  simp only [List.mem_cons, List.not_mem_nil, or_false] at blank ⊢
  tauto

theorem of_sign {kind : Token.Kind} (h : kind.sign? = some c) : Readable c := by
  cases kind with
  | operator op =>
    obtain rfl := Option.some.inj h
    cases op <;> decide
  | openParen | closeParen =>
    obtain rfl := Option.some.inj h
    decide
  | identifier | number | keyword | eof => cases h

/-- A character that can be read is a letter, a digit, a sign or a blank. -/
theorem cases (h : Readable c) :
    c.isAlphanum ∨ (∃ kind : Token.Kind, kind.sign? = some c) ∨ Lexer.isBlank c := by
  rcases h with alpha | digit | member
  · exact .inl (by simp [Char.isAlphanum, alpha])
  · exact .inl (by simp [Char.isAlphanum, digit])
  · simp only [List.mem_cons, List.not_mem_nil, or_false] at member
    rcases member with rfl | rfl | rfl | rfl | rfl | rfl | rfl | blank
    · exact .inr (.inl ⟨.operator .add, rfl⟩)
    · exact .inr (.inl ⟨.operator .sub, rfl⟩)
    · exact .inr (.inl ⟨.operator .mul, rfl⟩)
    · exact .inr (.inl ⟨.operator .div, rfl⟩)
    · exact .inr (.inl ⟨.operator .mod, rfl⟩)
    · exact .inr (.inl ⟨.openParen, rfl⟩)
    · exact .inr (.inl ⟨.closeParen, rfl⟩)
    · exact .inr (.inr (Lexer.isBlank_iff.2 (by simpa using blank)))

end Readable

/-- A visible character that starts no token cannot be read. -/
theorem Lexer.not_readable_of_munch? {c : Char} {cs : List Char} (visible : isBlank c = false)
    (foreign : munch? c cs = none) : ¬ Readable c := by
  intro readable
  rcases readable.cases with letter | ⟨kind, sign⟩ | blank
  · rcases Bool.or_eq_true_iff.1 letter with alpha | digit
    · simp [munch?_of_isAlpha alpha] at foreign
    · simp [munch?_of_isDigit digit] at foreign
  · simp [munch?_of_sign? sign] at foreign
  · simp [visible] at blank

theorem Token.WellSpelled.readable {t : Token} (h : t.WellSpelled) :
    ∀ c ∈ t.spelling, Readable c := by
  intro c hc
  rcases sign : t.kind.sign? with _ | s
  · exact .of_isAlphanum (h.isAlphanum sign c hc)
  · obtain ⟨spelling, -⟩ := of_sign? sign
    obtain rfl : c = s := by simpa [spelling] using hc
    exact .of_sign sign

theorem Blank.readable {cs : List Char} (h : Blank cs) : ∀ c ∈ cs, Readable c :=
  fun c hc => .of_isBlank (Lexer.isBlank_iff.2 (h c hc))

theorem Layout.readable {before rest : List Char} {pieces : List Piece}
    (h : Layout before pieces rest) : ∀ c ∈ pieces.flatMap Piece.text, Readable c := by
  intro c hc
  obtain ⟨x, hx, hc⟩ := List.mem_flatMap.1 hc
  obtain ⟨front, back, split⟩ := List.append_of_mem hx
  have fits := h front x back split
  rcases List.mem_append.1 hc with gap | spelled
  · exact fits.blank.readable c gap
  · exact fits.spelled.readable c spelled

/-! ## Texts that cannot be read to their end -/

theorem Lexer.drain_eq_error_iff_reads {l : Lexer} {ts : List Token} {e : Error} :
    l.drain = (ts, some e) ↔ ∃ r s, Reads l ts r ∧ r.next = (.error e, s) := by
  constructor
  · intro h
    induction ts generalizing l with
    | nil =>
      rcases read : l.next with ⟨x | t, r⟩
      · obtain rfl : x = e := by simpa [drain_of_error read] using h
        exact ⟨l, r, .nil, read⟩
      · by_cases eof : t.kind = .eof
        · simp [drain_of_eof read eof] at h
        · simp [drain_of_token read eof] at h
    | cons t ts ih =>
      obtain ⟨m, read, ahead⟩ := next_of_drain h
      by_cases eof : t.kind = .eof
      · simp [drain_of_eof read eof] at h
      · obtain ⟨r, s, reads, stop⟩ := ih (ahead eof)
        exact ⟨r, s, .cons read eof reads, stop⟩
  · rintro ⟨r, s, reads, stop⟩
    induction reads with
    | nil => exact drain_of_error stop
    | cons next token _ ih => rw [drain_of_token next token, ih stop]

theorem tokenize_eq_error {source : String} {e : Error} :
    tokenize source = .error e ↔ (Lexer.ofString source).drain.2 = some e := by
  rw [tokenize]
  split <;> simp_all

/-- The text comes to the character `c`, which cannot be read, behind `before`,
which can. -/
structure StopsAt (text before : List Char) (c : Char) : Prop where
  split : ∃ rest, text = before ++ c :: rest
  readable : ∀ b ∈ before, Readable b
  foreign : ¬ Readable c

/-- A text stops at one place only. -/
theorem StopsAt.unique {text before before' : List Char} {c c' : Char}
    (h : StopsAt text before c) (h' : StopsAt text before' c') : before = before' ∧ c = c' := by
  obtain ⟨rest, rfl⟩ := h.split
  obtain ⟨rest', same⟩ := h'.split
  have cut {before rest : List Char} {c : Char} (readable : ∀ b ∈ before, Readable b)
      (foreign : ¬ Readable c) :
      (before ++ c :: rest).takeWhile (Readable ·) = before ∧
        (before ++ c :: rest).dropWhile (Readable ·) = c :: rest := by
    constructor
    · exact Lexer.takeWhile_append_eq (by simpa using readable) (by simpa using foreign)
    · exact Lexer.dropWhile_append_eq (by simpa using readable) (by simpa using foreign)
  obtain ⟨front, back⟩ := @cut _ rest _ h.readable h.foreign
  obtain ⟨front', back'⟩ := @cut _ rest' _ h'.readable h'.foreign
  rw [← same] at front' back'
  exact ⟨front.symm.trans front', (List.cons.inj (back.symm.trans back')).1⟩

/-- Reading that is stopped has come to a character that cannot be read. The tokens
before it are those of the text in front of it. -/
theorem Lexer.exists_stopsAt {source : String} {ts : List Token} {e : Error}
    (h : (ofString source).drain = (ts, some e)) :
    ∃ (pieces : List Piece) (gap rest : List Char) (c : Char), ts = pieces.map Piece.token ∧
      Layout [] pieces rest ∧ StopsAt source.toList (pieces.flatMap Piece.text ++ gap) c ∧
      e = .unrecognized (.after (pieces.flatMap Piece.text ++ gap)) c := by
  obtain ⟨r, s, reads, stop⟩ := drain_eq_error_iff_reads.1 h
  obtain ⟨pieces, rfl, layout, text, behind⟩ := (behind_ofString source).layout_of_reads reads
  rcases exists_piece (pieces.flatMap Piece.text) r.rest with blank | ⟨x, rest, fits, ahead⟩ |
      ⟨gap, c, rest, blank, visible, foreign, ahead⟩
  · obtain ⟨_, read⟩ := behind.next_of_blank blank
    cases stop.symm.trans read
  · obtain ⟨_, read, -⟩ := behind.next_of_fits fits ahead
    cases stop.symm.trans read
  · obtain ⟨_, read⟩ := behind.next_of_foreign blank visible foreign ahead
    cases stop.symm.trans read
    refine ⟨pieces, gap, r.rest, c, rfl, layout, ⟨⟨rest, ?_⟩, ?_, ?_⟩, rfl⟩
    · rw [List.append_assoc, ← ahead]
      exact text
    · exact List.forall_mem_append.2 ⟨layout.readable, blank.readable⟩
    · exact not_readable_of_munch? visible foreign

/-- A text that is read to its end has no character that cannot be read. -/
theorem readable_of_tokenize {source : String} {ts : List Token} (h : tokenize source = .ok ts) :
    ∀ c ∈ source.toList, Readable c := by
  have drained := tokenize_eq_ok.1 h
  have nonempty : ts ≠ [] := by
    simpa [drained] using Lexer.drain_ne_nil (l := .ofString source) (by rw [drained])
  obtain ⟨us, eof, rfl⟩ := (List.eq_nil_or_concat' ts).resolve_left nonempty
  obtain ⟨r, s, reads, read, last⟩ := Lexer.drain_eq_iff_reads.1 drained
  obtain ⟨pieces, -, layout, text, behind⟩ :=
    (Lexer.behind_ofString source).layout_of_reads reads
  obtain ⟨blank, -⟩ := behind.blank_of_next read last
  rw [show source.toList = _ from text]
  exact List.forall_mem_append.2 ⟨layout.readable, blank.readable⟩

/-- Tokens fail to be read exactly at the first character that cannot be read. -/
theorem tokenize_eq_error_iff {source : String} {e : Error} :
    tokenize source = .error e ↔
      ∃ before c, StopsAt source.toList before c ∧ e = .unrecognized (.after before) c := by
  constructor
  · intro h
    obtain ⟨pieces, gap, _, c, -, -, stops, error⟩ :=
      Lexer.exists_stopsAt (Prod.ext rfl (tokenize_eq_error.1 h))
    exact ⟨_, c, stops, error⟩
  · rintro ⟨before, c, stops, rfl⟩
    rcases outcome : tokenize source with x | ts
    · obtain ⟨pieces, gap, _, c', -, -, stops', rfl⟩ :=
        Lexer.exists_stopsAt (Prod.ext rfl (tokenize_eq_error.1 outcome))
      obtain ⟨rfl, rfl⟩ := stops.unique stops'
      rfl
    · obtain ⟨rest, split⟩ := stops.split
      exact absurd (readable_of_tokenize outcome c (by simp [split])) stops.foreign

/-- The tokens that are read before reading stops are at earlier positions. -/
theorem position_lt_of_drain {source : String} {ts : List Token} {e : Error}
    (h : (Lexer.ofString source).drain = (ts, some e)) {t : Token} (ht : t ∈ ts) :
    ∃ q, e.position? = some q ∧ t.position < q := by
  obtain ⟨pieces, gap, _, c, rfl, layout, -, rfl⟩ := Lexer.exists_stopsAt h
  refine ⟨_, rfl, ?_⟩
  obtain ⟨x, hx, rfl⟩ := List.mem_map.1 ht
  obtain ⟨front, back, rfl⟩ := List.append_of_mem hx
  have fits := layout front x back rfl
  obtain ⟨d, tail, spelling, -⟩ := @Lexer.munch?_spelling _ [] fits.spelled (by simp)
  have between : (front ++ x :: back).flatMap Piece.text ++ gap =
      front.flatMap Piece.text ++ x.gap ++ (d :: tail ++ back.flatMap Piece.text ++ gap) := by
    simp [Piece.text, spelling]
  rw [fits.placed, between, List.nil_append]
  exact Position.after_lt_after _ (by simp)

end Calculator
