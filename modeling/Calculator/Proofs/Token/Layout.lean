import Calculator.Proofs.Parser.Stream

/-!
# What a text is made of

A text that can be read to its end consists of tokens with blanks before, between
and behind them, and of nothing else. Every token is as long as it can be and knows
the position of its first character, and the end is reported just behind the last
token. Conversely, a text that is put together in this way is read as the tokens
it was put together from.
-/

namespace Calculator

/-- The position behind a text: its line feeds are counted, and the characters
since the last of them. -/
def Position.after (before : List Char) : Position where
  line := 1 + before.count '\n'
  column := 1 + (before.reverse.takeWhile (· ≠ '\n')).length

theorem Position.after_concat (before : List Char) (c : Char) :
    after (before ++ [c]) = (after before).next c := by
  by_cases feed : c = '\n'
  · simp [after, next, feed]
    omega
  · simp [after, next, feed]
    omega

/-- Going on from the position behind a text leads behind the longer text. -/
theorem Position.skip_after (before cs : List Char) :
    (after before).skip cs = after (before ++ cs) := by
  induction cs generalizing before with
  | nil => simp
  | cons c cs ih => rw [skip_cons, ← after_concat, ih, List.append_assoc, List.singleton_append]

/-- A text of spaces, tabs, carriage returns and line feeds. -/
def Blank (cs : List Char) : Prop := ∀ c ∈ cs, c ∈ [' ', '\t', '\r', '\n']

/-- A token and the blanks in front of it. -/
structure Piece where
  gap : List Char
  token : Token

def Piece.text (x : Piece) : List Char := x.gap ++ x.token.spelling

/-- The piece can be cut off a text behind `before`, where it is followed by `rest`. -/
structure Piece.Fits (x : Piece) (before rest : List Char) : Prop where
  blank : Blank x.gap
  spelled : x.token.WellSpelled
  longest : ∀ c ∈ rest.head?, ¬ x.token.goesOn c
  placed : x.token.position = .after (before ++ x.gap)

/-! ## One token -/

namespace Lexer

/-- A text is blank, or a piece can be cut off it, or it comes to a character that
starts no token. -/
theorem exists_piece (before cs : List Char) :
    Blank cs ∨ (∃ (x : Piece) (rest : List Char), x.Fits before rest ∧ cs = x.text ++ rest) ∨
      ∃ gap c rest, Blank gap ∧ isBlank c = false ∧ munch? c rest = none ∧
        cs = gap ++ c :: rest := by
  have gap : Blank (cs.takeWhile isBlank) := fun c hc =>
    isBlank_iff.1 (List.mem_takeWhile_imp hc)
  have split := (List.takeWhile_append_dropWhile (p := isBlank) (l := cs)).symm
  rcases skipped : cs.dropWhile isBlank with _ | ⟨c, ds⟩
  · rw [skipped, List.append_nil] at split
    exact .inl (split ▸ gap)
  rw [skipped] at split
  rcases munch : munch? c ds with _ | ⟨kind, tail, rest⟩
  · have visible : isBlank c = false := by
      simpa using not_head_dropWhile isBlank cs c (by simp [skipped])
    exact .inr (.inr ⟨_, c, ds, gap, visible, munch, split⟩)
  · obtain ⟨spelled, spelling, rfl, longest⟩ :=
      spelling_of_munch? (.after (before ++ cs.takeWhile isBlank)) munch
    refine .inr (.inl ⟨⟨cs.takeWhile isBlank, _⟩, rest, ⟨gap, spelled, longest, rfl⟩, ?_⟩)
    rw [Piece.text, spelling, List.append_assoc]
    exact split

/-- The blanks in front of a visible character are skipped, and only they. -/
theorem skip_gap {cs gap rest : List Char} {c : Char} (blank : Blank gap)
    (visible : isBlank c = false) (text : cs = gap ++ c :: rest) :
    cs.takeWhile isBlank = gap ∧ cs.dropWhile isBlank = c :: rest := by
  have all : ∀ d ∈ gap, isBlank d := fun d hd => isBlank_iff.2 (blank d hd)
  have start : ∀ d ∈ (c :: rest).head?, ¬ isBlank d := by simp [visible]
  rw [text]
  exact ⟨takeWhile_append_eq all start, dropWhile_append_eq all start⟩

/-- The lexer stands behind the text `before` and just behind a token. -/
structure Behind (l : Lexer) (before : List Char) : Prop where
  fresh : l.pending = none
  here : l.here = .after before
  stop : l.stop = .after before

namespace Behind

variable {l r : Lexer} {before rest : List Char} {t : Token}

theorem next_of_blank (h : l.Behind before) (blank : Blank l.rest) :
    ∃ r, l.next = (.ok { kind := .eof, position := .after before }, r) := by
  have skipped : l.rest.dropWhile isBlank = [] :=
    List.dropWhile_eq_nil_iff.2 fun c hc => isBlank_iff.2 (blank c hc)
  simp only [next, h.fresh, scan, skipped, h.stop]
  exact ⟨_, rfl⟩

theorem next_of_fits {x : Piece} (h : l.Behind before) (fits : x.Fits before rest)
    (text : l.rest = x.text ++ rest) :
    ∃ r, l.next = (.ok x.token, r) ∧ r.Behind (before ++ x.text) ∧ r.rest = rest := by
  obtain ⟨c, tail, spelling, visible, munch, lexeme⟩ := munch?_spelling fits.spelled fits.longest
  have behind : x.token.position.skip (c :: tail) = .after (before ++ x.text) := by
    rw [fits.placed, Position.skip_after, Piece.text, spelling, List.append_assoc]
  have placed : l.here.skip x.gap = x.token.position := by
    rw [h.here, Position.skip_after, fits.placed]
  rw [Piece.text, spelling, List.append_assoc, List.cons_append] at text
  obtain ⟨gap, skipped⟩ := skip_gap fits.blank visible text
  simp only [next, h.fresh, scan, gap, skipped, munch, placed, lexeme, behind]
  exact ⟨_, rfl, ⟨rfl, rfl, rfl⟩, rfl⟩

theorem next_of_foreign {gap : List Char} {c : Char} (h : l.Behind before) (blank : Blank gap)
    (visible : isBlank c = false) (foreign : munch? c rest = none)
    (text : l.rest = gap ++ c :: rest) :
    ∃ r, l.next = (.error (.unrecognized (.after (before ++ gap)) c), r) := by
  obtain ⟨gap, skipped⟩ := skip_gap blank visible text
  simp only [next, h.fresh, scan, gap, skipped, foreign, h.here, Position.skip_after]
  exact ⟨_, rfl⟩

/-- Whatever token is read, its piece was cut off the text. -/
theorem fits_of_next (h : l.Behind before) (read : l.next = (.ok t, r)) (token : t.kind ≠ .eof) :
    ∃ x : Piece, x.token = t ∧ x.Fits before r.rest ∧ l.rest = x.text ++ r.rest ∧
      r.Behind (before ++ x.text) := by
  rcases exists_piece before l.rest with blank | ⟨x, rest, fits, text⟩ |
      ⟨gap, c, rest, blank, visible, foreign, text⟩
  · obtain ⟨r', eof⟩ := h.next_of_blank blank
    cases read.symm.trans eof
    exact absurd rfl token
  · obtain ⟨r', next, behind, rfl⟩ := h.next_of_fits fits text
    cases read.symm.trans next
    exact ⟨x, rfl, fits, text, behind⟩
  · obtain ⟨r', error⟩ := h.next_of_foreign blank visible foreign text
    cases read.symm.trans error

theorem blank_of_next (h : l.Behind before) (read : l.next = (.ok t, r)) (eof : t.kind = .eof) :
    Blank l.rest ∧ t = { kind := .eof, position := .after before } := by
  rcases exists_piece before l.rest with blank | ⟨x, rest, fits, text⟩ |
      ⟨gap, c, rest, blank, visible, foreign, text⟩
  · obtain ⟨r', next⟩ := h.next_of_blank blank
    cases read.symm.trans next
    exact ⟨blank, rfl⟩
  · obtain ⟨r', next, -⟩ := h.next_of_fits fits text
    cases read.symm.trans next
    exact absurd eof fits.spelled.kind_ne_eof
  · obtain ⟨r', error⟩ := h.next_of_foreign blank visible foreign text
    cases read.symm.trans error

end Behind

/-! ## Tokens in a row -/

/-- The lexer hands out the tokens, none of which is the end, and becomes the second
one. -/
inductive Reads : Lexer → List Token → Lexer → Prop where
  | nil {l : Lexer} : Reads l [] l
  | cons {l m r : Lexer} {t : Token} {ts : List Token} :
      l.next = (.ok t, m) → t.kind ≠ .eof → Reads m ts r → Reads l (t :: ts) r

theorem drain_ne_nil {l : Lexer} (h : l.drain.2 = none) : l.drain.1 ≠ [] := by
  rcases read : l.next with ⟨e | t, r⟩
  · simp [drain_of_error read] at h
  · by_cases eof : t.kind = .eof
    · simp [drain_of_eof read eof]
    · simp [drain_of_token read eof]

/-- A text is read to its end by reading tokens and then the end. -/
theorem drain_eq_iff_reads {l : Lexer} {ts : List Token} {eof : Token} :
    l.drain = (ts ++ [eof], none) ↔
      ∃ r s, Reads l ts r ∧ r.next = (.ok eof, s) ∧ eof.kind = .eof := by
  constructor
  · intro h
    induction ts generalizing l with
    | nil =>
      obtain ⟨r, read, ahead⟩ := next_of_drain h
      by_cases last : eof.kind = .eof
      · exact ⟨l, r, .nil, read, last⟩
      · have ahead := ahead last
        exact absurd (by rw [ahead]) (drain_ne_nil (l := r) (by rw [ahead]))
    | cons t ts ih =>
      obtain ⟨m, read, ahead⟩ := next_of_drain h
      by_cases token : t.kind = .eof
      · rw [drain_of_eof read token] at h
        simp at h
      · obtain ⟨r, s, reads, last⟩ := ih (ahead token)
        exact ⟨r, s, .cons read token reads, last⟩
  · rintro ⟨r, s, reads, read, last⟩
    induction reads with
    | nil => exact drain_of_eof read last
    | cons next token _ ih => rw [drain_of_token next token, ih read, List.cons_append]

end Lexer

/-- Pieces in a row, behind the text `before` and in front of the text `rest`. -/
def Layout (before : List Char) (pieces : List Piece) (rest : List Char) : Prop :=
  ∀ front x back, pieces = front ++ x :: back →
    x.Fits (before ++ front.flatMap Piece.text) (back.flatMap Piece.text ++ rest)

theorem layout_nil (before rest : List Char) : Layout before [] rest := by
  intro front x back h
  simp at h

theorem layout_cons {before rest : List Char} {x : Piece} {pieces : List Piece} :
    Layout before (x :: pieces) rest ↔
      x.Fits before (pieces.flatMap Piece.text ++ rest) ∧
        Layout (before ++ x.text) pieces rest := by
  constructor
  · intro layout
    refine ⟨by simpa using layout [] x pieces rfl, fun front y back h => ?_⟩
    simpa using layout (x :: front) y back (by rw [h, List.cons_append])
  · rintro ⟨fits, layout⟩ front y back h
    cases front with
    | nil =>
      obtain ⟨rfl, rfl⟩ := List.cons.inj h
      simpa using fits
    | cons z front =>
      obtain ⟨rfl, split⟩ := List.cons.inj h
      simpa using layout front y back split

theorem layout_append {before rest : List Char} {xs ys : List Piece} :
    Layout before (xs ++ ys) rest ↔
      Layout before xs (ys.flatMap Piece.text ++ rest) ∧
        Layout (before ++ xs.flatMap Piece.text) ys rest := by
  induction xs generalizing before with
  | nil => simp [layout_nil]
  | cons x xs ih => simp [layout_cons, ih, and_assoc]

namespace Lexer.Behind

variable {l r : Lexer} {before rest : List Char}

/-- The tokens that are read come from pieces of the text. -/
theorem layout_of_reads {ts : List Token} (h : l.Behind before) (reads : Reads l ts r) :
    ∃ pieces : List Piece, ts = pieces.map Piece.token ∧ Layout before pieces r.rest ∧
      l.rest = pieces.flatMap Piece.text ++ r.rest ∧
      r.Behind (before ++ pieces.flatMap Piece.text) := by
  induction reads generalizing before with
  | nil => exact ⟨[], rfl, layout_nil _ _, rfl, by simpa using h⟩
  | @cons l m r t ts next token _ ih =>
    obtain ⟨x, rfl, fits, text, behind⟩ := h.fits_of_next next token
    obtain ⟨pieces, rfl, layout, rest, behind⟩ := ih behind
    refine ⟨x :: pieces, rfl, layout_cons.2 ⟨rest ▸ fits, layout⟩, ?_, by simpa using behind⟩
    rw [text, rest, List.flatMap_cons, List.append_assoc]

/-- Pieces of the text are read as their tokens. -/
theorem reads_of_layout {pieces : List Piece} (h : l.Behind before)
    (layout : Layout before pieces rest) (text : l.rest = pieces.flatMap Piece.text ++ rest) :
    ∃ r, Reads l (pieces.map Piece.token) r ∧ r.Behind (before ++ pieces.flatMap Piece.text) ∧
      r.rest = rest := by
  induction pieces generalizing l before with
  | nil => exact ⟨l, .nil, by simpa using h, text⟩
  | cons x pieces ih =>
    obtain ⟨fits, layout⟩ := layout_cons.1 layout
    rw [List.flatMap_cons, List.append_assoc] at text
    obtain ⟨m, next, behind, remaining⟩ := h.next_of_fits fits text
    obtain ⟨r, reads, behind, done⟩ := ih behind layout remaining
    exact ⟨r, .cons next fits.spelled.kind_ne_eof reads, by simpa using behind, done⟩

end Lexer.Behind

/-! ## Whole texts -/

theorem Blank.not_goesOn {cs : List Char} (h : Blank cs) (t : Token) {c : Char} (hc : c ∈ cs) :
    ¬ t.goesOn c := by
  intro goes
  have blank := Lexer.isBlank_iff.2 (h c hc)
  simp [Lexer.isBlank_of_isAlphanum (Token.isAlphanum_of_goesOn goes)] at blank

/-- A piece starts with its first blank, or else with its token. -/
theorem Piece.mem_head?_text {x : Piece} (spelled : x.token.WellSpelled) (rest : List Char)
    {c : Char} : c ∈ (x.text ++ rest).head? ↔
      c ∈ x.gap.head? ∨ x.gap = [] ∧ c ∈ x.token.spelling.head? := by
  obtain ⟨d, tail, spelling, -⟩ := @Lexer.munch?_spelling _ [] spelled (by simp)
  rcases gap : x.gap with _ | ⟨b, bs⟩ <;> simp [text, gap, spelling]

/-- Where the last of the text is blank, a token can only go on with the one that
follows it directly. -/
theorem layout_iff_apart {pieces : List Piece} {tail : List Char} (blank : Blank tail) :
    Layout [] pieces tail ↔
      (∀ x ∈ pieces, Blank x.gap ∧ x.token.WellSpelled) ∧
      (∀ front x y back, pieces = front ++ x :: y :: back → y.gap = [] →
        ∀ c ∈ y.token.spelling.head?, ¬ x.token.goesOn c) ∧
      ∀ front x back, pieces = front ++ x :: back →
        x.token.position = .after (front.flatMap Piece.text ++ x.gap) := by
  constructor
  · intro layout
    refine ⟨fun x hx => ?_, fun front x y back split gap c hc => ?_, fun front x back split => ?_⟩
    · obtain ⟨front, back, split⟩ := List.append_of_mem hx
      exact ⟨(layout front x back split).blank, (layout front x back split).spelled⟩
    · have spelled := (layout (front ++ [x]) y back (by simp [split])).spelled
      refine (layout front x (y :: back) split).longest c ?_
      rw [List.flatMap_cons, List.append_assoc]
      exact (Piece.mem_head?_text spelled _).2 (.inr ⟨gap, hc⟩)
    · exact (layout front x back split).placed
  · rintro ⟨each, apart, placed⟩ front x back split
    have here := each x (by simp [split])
    refine ⟨here.1, here.2, fun c hc => ?_, placed front x back split⟩
    cases back with
    | nil => exact blank.not_goesOn _ (List.mem_of_head? hc)
    | cons y back =>
      have next := each y (by simp [split])
      rw [List.flatMap_cons, List.append_assoc] at hc
      rcases (Piece.mem_head?_text next.2 _).1 hc with hc | ⟨gap, hc⟩
      · exact next.1.not_goesOn _ (List.mem_of_head? hc)
      · exact apart front x y back split gap c hc

theorem Lexer.behind_ofString (source : String) : (ofString source).Behind [] := ⟨rfl, rfl, rfl⟩

/-- A text that is put together from pieces alone is read as their tokens and the
end behind them. -/
theorem tokenize_of_layout {pieces : List Piece} (layout : Layout [] pieces []) :
    tokenize (.ofList (pieces.flatMap Piece.text)) =
      .ok (pieces.map Piece.token ++
        [{ kind := .eof, position := .after (pieces.flatMap Piece.text) }]) := by
  have start := Lexer.behind_ofString (.ofList (pieces.flatMap Piece.text))
  obtain ⟨r, reads, behind, done⟩ := start.reads_of_layout layout (by simp [Lexer.ofString])
  obtain ⟨s, last⟩ := behind.next_of_blank (by simp [done, Blank])
  exact tokenize_eq_ok.2 (Lexer.drain_eq_iff_reads.2 ⟨r, s, reads, last, rfl⟩)

/-- Reading a text to its end is taking it apart into tokens and blanks: nothing is
lost, no token could be longer, and all positions are right. -/
theorem tokenize_eq_ok_iff_pieces (source : String) (ts : List Token) (eof : Token) :
    tokenize source = .ok (ts ++ [eof]) ↔
      ∃ (pieces : List Piece) (tail : List Char),
        source.toList = pieces.flatMap Piece.text ++ tail ∧ ts = pieces.map Piece.token ∧
        Blank tail ∧ (∀ x ∈ pieces, Blank x.gap ∧ x.token.WellSpelled) ∧
        (∀ front x y back, pieces = front ++ x :: y :: back → y.gap = [] →
          ∀ c ∈ y.token.spelling.head?, ¬ x.token.goesOn c) ∧
        (∀ front x back, pieces = front ++ x :: back →
          x.token.position = .after (front.flatMap Piece.text ++ x.gap)) ∧
        eof = { kind := .eof, position := .after (pieces.flatMap Piece.text) } := by
  rw [tokenize_eq_ok, Lexer.drain_eq_iff_reads]
  have start := Lexer.behind_ofString source
  constructor
  · rintro ⟨r, s, reads, read, last⟩
    obtain ⟨pieces, rfl, layout, text, behind⟩ := start.layout_of_reads reads
    obtain ⟨blank, rfl⟩ := behind.blank_of_next read last
    obtain ⟨each, apart, placed⟩ := (layout_iff_apart blank).1 layout
    exact ⟨pieces, r.rest, text, rfl, blank, each, apart, placed, rfl⟩
  · rintro ⟨pieces, tail, text, rfl, blank, each, apart, placed, rfl⟩
    obtain ⟨r, reads, behind, rfl⟩ :=
      start.reads_of_layout ((layout_iff_apart blank).2 ⟨each, apart, placed⟩) text
    obtain ⟨s, last⟩ := behind.next_of_blank blank
    exact ⟨r, s, reads, last, rfl⟩

end Calculator
