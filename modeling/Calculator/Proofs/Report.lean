import Calculator.Proofs.Parser.Origin

/-!
# The caret of a report

The positions of a lexer count line feeds and the characters behind them, while a
report takes a line of the text without the carriage return that may end it. The
two agree wherever an error stands: its column never lies behind the end of the
line, and the caret is below the character or the token that is to blame.
-/

namespace Calculator

/-! ## Lines of a text -/

namespace Text

/-- What follows ends the line: nothing, a line feed, or a carriage return with a line feed, which
then do not belong to the line. -/
def EndsLine (line rest : List Char) : Prop :=
  rest = [] ∨ (∃ more, rest = '\r' :: '\n' :: more) ∨
    ∃ more, rest = '\n' :: more ∧ line.getLast? ≠ some '\r'

/-- The text has the line under the number, counted from one. -/
def IsLine (text : List Char) (number : Nat) (line : List Char) : Prop :=
  ∃ before rest, text = before ++ line ++ rest ∧ number = 1 + before.count '\n' ∧
    (∀ c ∈ before.getLast?, c = '\n') ∧ '\n' ∉ line ∧ EndsLine line rest

/-- The characters behind the last line feed. -/
def lastLine (cs : List Char) : List Char := (cs.reverse.takeWhile (· ≠ '\n')).reverse

theorem feed_notMem_lastLine (cs : List Char) : '\n' ∉ lastLine cs := by
  intro feed
  have other := List.mem_takeWhile_imp (List.mem_reverse.1 feed)
  simp at other

theorem lastLine_append (before : List Char) {cs : List Char} (h : '\n' ∉ cs) :
    lastLine (before ++ cs) = lastLine before ++ cs := by
  have all : ∀ c ∈ cs.reverse, decide (c ≠ '\n') = true := by
    intro c hc
    rw [List.mem_reverse] at hc
    simpa using ne_of_mem_of_not_mem hc h
  rw [lastLine, List.reverse_append, List.takeWhile_append_of_pos all]
  simp [lastLine]

theorem exists_lastLine (cs : List Char) :
    ∃ front, cs = front ++ lastLine cs ∧ ∀ c ∈ front.getLast?, c = '\n' := by
  refine ⟨(cs.reverse.dropWhile (· ≠ '\n')).reverse, ?_, ?_⟩
  · rw [lastLine, ← List.reverse_append, List.takeWhile_append_dropWhile, List.reverse_reverse]
  · intro c hc
    rw [List.getLast?_reverse] at hc
    simpa using Lexer.not_head_dropWhile _ _ c hc

/-- Text that ends with a line feed is cut into as many lines as it has line feeds, whatever
follows. -/
theorem exists_linesFrom (seen front : List Char) :
    ∃ ls : List (List Char), ls.length = front.count '\n' + 1 ∧
      ∀ cs, linesFrom seen (front ++ '\n' :: cs) = ls ++ lines cs := by
  induction front generalizing seen with
  | nil => exact ⟨[(dropReturn seen).reverse], rfl, fun cs => rfl⟩
  | cons c front ih =>
    by_cases feed : c = '\n'
    · obtain ⟨ls, length, cut⟩ := ih []
      refine ⟨(dropReturn seen).reverse :: ls, by simp [feed, length], fun cs => ?_⟩
      rw [List.cons_append, linesFrom, if_pos feed, cut, List.cons_append]
    · obtain ⟨ls, length, cut⟩ := ih (c :: seen)
      refine ⟨ls, by simp [feed, length], fun cs => ?_⟩
      rw [List.cons_append, linesFrom, if_neg feed, cut]

theorem exists_lines {front : List Char} (h : ∀ c ∈ front.getLast?, c = '\n') :
    ∃ ls : List (List Char), ls.length = front.count '\n' ∧
      ∀ cs, lines (front ++ cs) = ls ++ lines cs := by
  rcases List.eq_nil_or_concat' front with rfl | ⟨front, c, rfl⟩
  · exact ⟨[], rfl, fun cs => rfl⟩
  · obtain rfl : c = '\n' := h c (by simp)
    obtain ⟨ls, length, cut⟩ := exists_linesFrom [] front
    refine ⟨ls, by simp [length], fun cs => ?_⟩
    rw [List.append_assoc, List.singleton_append]
    exact cut cs

theorem lines_of_notMem {cs : List Char} (h : '\n' ∉ cs) : (lines cs)[0]?.getD [] = cs := by
  have all := linesFrom_append h [] []
  rw [List.append_nil, List.append_nil] at all
  rw [lines, all, linesFrom]
  split
  · next empty => simpa using empty
  · simp

/-- The first line of a text goes on from any beginning of it that does not end with a carriage
return. -/
theorem exists_first_line {cs : List Char} (feed : '\n' ∉ cs) (ret : cs.getLast? ≠ some '\r')
    (rest : List Char) :
    ∃ tail rest', rest = tail ++ rest' ∧ '\n' ∉ tail ∧ EndsLine (cs ++ tail) rest' ∧
      (lines (cs ++ rest))[0]?.getD [] = cs ++ tail := by
  by_cases another : '\n' ∈ rest
  · obtain ⟨tail, more, rfl, inside⟩ := List.eq_append_cons_of_mem another
    have none : '\n' ∉ cs ++ tail := by simp [feed, inside]
    rw [← List.append_assoc, lines_append_feed none]
    by_cases last : (cs ++ tail).getLast? = some '\r'
    · -- the carriage return stands behind the beginning
      rcases List.eq_nil_or_concat' tail with rfl | ⟨tail, c, rfl⟩
      · exact absurd (by simpa using last) ret
      obtain rfl : c = '\r' := by simpa [← List.append_assoc] using last
      refine ⟨tail, '\r' :: '\n' :: more, by simp, ?_, .inr (.inl ⟨more, rfl⟩), ?_⟩
      · simp only [List.mem_append, not_or] at inside
        exact inside.1
      · simp [dropReturn]
    · refine ⟨tail, '\n' :: more, rfl, inside, .inr (.inr ⟨more, rfl, last⟩), ?_⟩
      rw [dropReturn_of_head? (by simpa using last)]
      simp
  · refine ⟨rest, [], by simp, another, .inl rfl, ?_⟩
    exact lines_of_notMem (by simp [feed, another])

/-- The line in which a text goes on starts with what stands behind the last line feed. -/
theorem exists_line {before cs : List Char} (feed : '\n' ∉ cs)
    (ret : (before ++ cs).getLast? ≠ some '\r') (rest : List Char) :
    ∃ tail, IsLine (before ++ cs ++ rest) (Position.after before).line
        (lastLine before ++ cs ++ tail) ∧
      (lines (before ++ cs ++ rest))[(Position.after before).line - 1]?.getD [] =
        lastLine before ++ cs ++ tail := by
  obtain ⟨front, split, last⟩ := exists_lastLine before
  have cut (ds : List Char) : before ++ ds = front ++ (lastLine before ++ ds) := by
    rw [← List.append_assoc, ← split]
  have number : (Position.after before).line = 1 + front.count '\n' := by
    rw [Position.after, split, List.count_append,
      List.count_eq_zero_of_not_mem (feed_notMem_lastLine before), Nat.add_zero]
  have inside : '\n' ∉ lastLine before ++ cs := by simp [feed_notMem_lastLine, feed]
  have unended : (lastLine before ++ cs).getLast? ≠ some '\r' := by
    intro closed
    rw [cut, List.getLast?_append, closed] at ret
    exact ret rfl
  obtain ⟨tail, rest', rfl, inside', ends, first⟩ := exists_first_line inside unended rest
  obtain ⟨ls, length, lines_eq⟩ := exists_lines last
  refine ⟨tail, ⟨front, rest', ?_, number, last, ?_, ends⟩, ?_⟩
  · simp [cut]
  · simp [inside', feed, feed_notMem_lastLine]
  · rw [number, ← length, List.append_assoc before, cut, lines_eq, ← List.append_assoc,
      List.getElem?_append_right (by omega), ← first]
    simp

end Text

theorem Position.column_after (before : List Char) :
    (after before).column = 1 + (Text.lastLine before).length := by
  simp [after, Text.lastLine]

theorem Position.after_append (before : List Char) {cs : List Char} (h : '\n' ∉ cs) :
    (after (before ++ cs)).line = (after before).line ∧
      (after (before ++ cs)).column = (after before).column + cs.length := by
  refine ⟨?_, ?_⟩
  · simp [after, List.count_append, List.count_eq_zero_of_not_mem h]
  · rw [column_after, column_after, Text.lastLine_append before h, List.length_append,
      Nat.add_assoc]

/-! ## What a report shows -/

/-- The report shows the line and marks the column of the position, which lies in the line or just
behind it. -/
structure Error.Marks (e : Error) (source : String) (p : Position) (line : List Char) : Prop where
  position : e.position? = some p
  isLine : Text.IsLine source.toList p.line line
  report : (e.report source).toList = '\'' :: line ++ ['\'', '\n'] ++
    List.replicate p.column ' ' ++ ['^', ' '] ++ e.message.toList
  column : 1 ≤ p.column ∧ p.column - 1 ≤ line.length

/-- An error behind `before` is marked below what stands there, if this is visible. -/
theorem Error.exists_marks {e : Error} {source : String} {before cs rest : List Char}
    (position : e.position? = some (.after before)) (text : source.toList = before ++ cs ++ rest)
    (feed : '\n' ∉ cs) (ret : (before ++ cs).getLast? ≠ some '\r') :
    ∃ tail, e.Marks source (.after before) (Text.lastLine before ++ cs ++ tail) := by
  obtain ⟨tail, isLine, line⟩ := Text.exists_line feed ret rest
  have column := Position.column_after before
  have fits : (Position.after before).column - 1 ≤ (Text.lastLine before ++ cs ++ tail).length := by
    simp [column]
  refine ⟨tail, position, text ▸ isLine, ?_, by omega, fits⟩
  rw [← text] at line
  simp only [report, position, line]
  rw [Nat.min_eq_left fits, Nat.sub_add_cancel (by omega)]
  simp

/-- A token is visible. -/
theorem Token.WellSpelled.visible {t : Token} (h : t.WellSpelled) (before : List Char) :
    '\n' ∉ t.spelling ∧ (before ++ t.spelling).getLast? ≠ some '\r' := by
  obtain ⟨c, tail, spelling, -⟩ := @Lexer.munch?_spelling _ [] h (by simp)
  refine ⟨?_, ?_⟩
  · intro feed
    exact absurd (Lexer.isBlank_of_spelling h feed) (by decide)
  · intro last
    rw [List.getLast?_append_of_ne_nil _ (by simp [spelling])] at last
    exact absurd (Lexer.isBlank_of_spelling h (List.mem_of_getLast? last)) (by decide)

/-- The tokens of a text are those of its pieces, and the end behind them if nothing stops the
reading. -/
theorem Lexer.exists_pieces (source : String) :
    ∃ (pieces : List Piece) (rest : List Char) (ends : List Token),
      source.toList = pieces.flatMap Piece.text ++ rest ∧ Layout [] pieces rest ∧
      (ofString source).drain.1 = pieces.map Piece.token ++ ends ∧
      (ends = [] ∨
        ends = [{ kind := .eof, position := .after (pieces.flatMap Piece.text) }]) := by
  have start := behind_ofString source
  rcases stop : (ofString source).drain.2 with _ | e
  · obtain ⟨ts, eof, split⟩ :=
      (List.eq_nil_or_concat' (ofString source).drain.1).resolve_left (drain_ne_nil stop)
    obtain ⟨r, s, reads, read, last⟩ := drain_eq_iff_reads.1 (Prod.ext split stop)
    obtain ⟨pieces, rfl, layout, text, behind⟩ := start.layout_of_reads reads
    obtain ⟨-, rfl⟩ := behind.blank_of_next read last
    exact ⟨pieces, r.rest, _, text, layout, split, .inr rfl⟩
  · obtain ⟨r, s, reads, -⟩ := drain_eq_error_iff_reads.1 (Prod.ext rfl stop)
    obtain ⟨pieces, tokens, layout, text, -⟩ := start.layout_of_reads reads
    exact ⟨pieces, r.rest, [], text, layout, tokens.trans (List.append_nil _).symm, .inl rfl⟩

/-- The last character of the token stands in the line, just before the position. -/
def Token.EndsAt (t : Token) (p : Position) (line : List Char) : Prop :=
  t.position.line = p.line ∧ t.position.column + t.spelling.length = p.column ∧
    t.spelling <+: line.drop (t.position.column - 1)

/-- An error about a token of the text is marked below its first character. -/
theorem Piece.Fits.exists_marks {x : Piece} {before rest : List Char} {source : String}
    (h : x.Fits before rest) (text : source.toList = before ++ x.text ++ rest) (y : Expectation) :
    ∃ shown first more, (x.token.unexpected y).Marks source x.token.position shown ∧
      x.token.spelling = first :: more ∧ shown[x.token.position.column - 1]? = some first := by
  obtain ⟨first, more, spelling, -⟩ := @Lexer.munch?_spelling _ [] h.spelled (by simp)
  obtain ⟨feed, ret⟩ := h.spelled.visible (before ++ x.gap)
  have placed : (x.token.unexpected y).position? = some (.after (before ++ x.gap)) :=
    congrArg some h.placed
  obtain ⟨tail, marks⟩ := Error.exists_marks placed
    (text.trans (by rw [Piece.text, ← List.append_assoc])) feed ret
  rw [← h.placed] at marks
  refine ⟨_, first, more, marks, spelling, ?_⟩
  rw [h.placed, Position.column_after, spelling]
  simp

theorem Piece.Fits.endsAt {x : Piece} {before rest : List Char} (h : x.Fits before rest)
    (tail : List Char) :
    x.token.EndsAt (.after (before ++ x.text)) (Text.lastLine (before ++ x.text) ++ tail) := by
  obtain ⟨feed, -⟩ := h.spelled.visible []
  obtain ⟨line, column⟩ := Position.after_append (before ++ x.gap) feed
  rw [Piece.text, ← List.append_assoc, Token.EndsAt, h.placed, line, column]
  refine ⟨rfl, rfl, ?_⟩
  rw [Position.column_after, Text.lastLine_append _ feed]
  simp

/-- The end is marked just behind the last token. -/
theorem Layout.exists_marks {pieces : List Piece} {rest : List Char} {source : String}
    (h : Layout [] pieces rest) (text : source.toList = pieces.flatMap Piece.text ++ rest)
    (eof : Token) (placed : eof.position = .after (pieces.flatMap Piece.text)) (y : Expectation) :
    ∃ shown, (eof.unexpected y).Marks source eof.position shown ∧
      (pieces = [] → eof.position = ⟨1, 1⟩) ∧
      ∀ x ∈ pieces.getLast?, x.token.EndsAt eof.position shown := by
  have position : (eof.unexpected y).position? = some (.after (pieces.flatMap Piece.text)) :=
    congrArg some placed
  have text : source.toList = pieces.flatMap Piece.text ++ [] ++ rest := by simp [text]
  rcases List.eq_nil_or_concat' pieces with rfl | ⟨front, x, rfl⟩
  · obtain ⟨tail, marks⟩ := Error.exists_marks position text (by simp) (by simp)
    exact ⟨_, placed ▸ marks, fun _ => placed, by simp⟩
  · have fits := h front x [] rfl
    have split : (front ++ [x]).flatMap Piece.text = front.flatMap Piece.text ++ x.text := by simp
    have ret := (fits.spelled.visible (front.flatMap Piece.text ++ x.gap)).2
    obtain ⟨tail, marks⟩ := Error.exists_marks position text (by simp)
      (by simpa [Piece.text] using ret)
    refine ⟨_, placed ▸ marks, by simp, ?_⟩
    intro x' last
    obtain rfl : x = x' := by simpa using last
    rw [placed, split, List.append_nil]
    exact fits.endsAt tail

/-- The token stands in the line, where its position says. The end of a text has no characters: it
stands just behind the last token, or else at the start of the text. -/
def Token.StandsIn (t : Token) (before : List Token) (shown : List Char) : Prop :=
  if t.kind = .eof then
    (before = [] → t.position = ⟨1, 1⟩) ∧ ∀ u ∈ before.getLast?, u.EndsAt t.position shown
  else ∃ first more, t.spelling = first :: more ∧ shown[t.position.column - 1]? = some first

/-- An error about a token is marked where the token stands. -/
theorem exists_marks_of_mem {source : String} {t : Token}
    (h : t ∈ (Lexer.ofString source).drain.1) (y : Expectation) :
    ∃ before after shown, (Lexer.ofString source).drain.1 = before ++ t :: after ∧
      (t.unexpected y).Marks source t.position shown ∧ t.StandsIn before shown := by
  obtain ⟨pieces, rest, ends, text, layout, tokens, eof⟩ := Lexer.exists_pieces source
  rw [tokens] at h ⊢
  rcases List.mem_append.1 h with inside | last
  · obtain ⟨x, member, rfl⟩ := List.mem_map.1 inside
    obtain ⟨front, back, rfl⟩ := List.append_of_mem member
    have fits := layout front x back rfl
    have split : source.toList =
        [] ++ front.flatMap Piece.text ++ x.text ++ (back.flatMap Piece.text ++ rest) := by
      simp [text]
    obtain ⟨shown, first, more, marks, spelling, here⟩ := fits.exists_marks split y
    refine ⟨front.map Piece.token, back.map Piece.token ++ ends, shown, by simp, marks, ?_⟩
    rw [Token.StandsIn, if_neg fits.spelled.kind_ne_eof]
    exact ⟨first, more, spelling, here⟩
  · obtain rfl := eof.resolve_left (List.ne_nil_of_mem last)
    obtain rfl := List.mem_singleton.1 last
    obtain ⟨shown, marks, start, behind⟩ := layout.exists_marks text
      { kind := .eof, position := .after (pieces.flatMap Piece.text) } rfl y
    refine ⟨pieces.map Piece.token, [], shown, rfl, marks, ?_⟩
    rw [Token.StandsIn, if_pos rfl, List.map_eq_nil_iff, List.getLast?_map]
    refine ⟨start, ?_⟩
    intro u final
    obtain ⟨x, there, rfl⟩ := Option.map_eq_some_iff.1 final
    exact behind x there

/-- An error that stops the reading of tokens is marked below its character. -/
theorem exists_marks_of_stop {source : String} {e : Error}
    (h : (Lexer.ofString source).drain.2 = some e) :
    ∃ p c shown, e = .unrecognized p c ∧ e.Marks source p shown ∧
      shown[p.column - 1]? = some c := by
  obtain ⟨pieces, gap, _, c, -, -, stops, rfl⟩ := Lexer.exists_stopsAt (Prod.ext rfl h)
  obtain ⟨rest, split⟩ := stops.split
  have feed : c ≠ '\n' := fun feed => stops.foreign (feed ▸ by decide)
  have ret : c ≠ '\r' := fun ret => stops.foreign (ret ▸ by decide)
  obtain ⟨tail, marks⟩ := Error.exists_marks (e := .unrecognized _ c) rfl
    (split.trans (List.append_cons _ _ _)) (by simpa using feed.symm) (by simpa using ret)
  refine ⟨_, c, _, rfl, marks, ?_⟩
  rw [Position.column_after]
  simp

/-- A report marks what is to blame: the character that cannot be read, the first character of the
token that does not fit, or, if this is the end, the place just behind the last token. -/
theorem caret_marks_culprit (source : String) (limit : Nat) (e : Error)
    (h : { Parser.ofString source with limit := limit }.parse.1 = .error e) :
    ∃ p shown, e.Marks source p shown ∧
      (∀ position c, e = .unrecognized position c → shown[p.column - 1]? = some c) ∧
      ∀ position expected found, e = .unexpected position expected found →
        ∃ before t after, (Lexer.ofString source).drain.1 = before ++ t :: after ∧
          t.position = p ∧ t.describe = found ∧ t.StandsIn before shown := by
  rcases Parser.originates_of_parse (Prod.ext h rfl) with ⟨t, ahead, y, rfl⟩ | stop
  · obtain ⟨before, after, shown, split, marks, stands⟩ := exists_marks_of_mem ahead y
    refine ⟨t.position, shown, marks, nofun, ?_⟩
    intro position expected found same
    obtain ⟨-, -, rfl⟩ := Error.unexpected.inj same
    exact ⟨before, t, after, split, rfl, rfl, stands⟩
  · obtain ⟨p, c, shown, rfl, marks, here⟩ := exists_marks_of_stop stop
    refine ⟨p, shown, marks, ?_, nofun⟩
    intro position c' same
    obtain ⟨-, rfl⟩ := Error.unrecognized.inj same
    exact here

/-- Behind a line that ends with a carriage return and a line feed, the dollar is marked. -/
theorem dollar_is_marked_on_second_line :
    (Parser.ofString "1 +\r\n\t$").parse.1 = .error (.unrecognized ⟨2, 2⟩ '$') ∧
    ∃ shown, (Error.unrecognized ⟨2, 2⟩ '$').Marks "1 +\r\n\t$" ⟨2, 2⟩ shown ∧
      shown[1]? = some '$' := by
  have failed : (Parser.ofString "1 +\r\n\t$").parse.1 = .error (.unrecognized ⟨2, 2⟩ '$') := by
    decide +kernel
  obtain ⟨p, shown, marks, character, -⟩ := caret_marks_culprit "1 +\r\n\t$" 256 _ failed
  obtain rfl : ⟨2, 2⟩ = p := Option.some.inj marks.position
  exact ⟨failed, shown, marks, character _ _ rfl⟩

end Calculator
