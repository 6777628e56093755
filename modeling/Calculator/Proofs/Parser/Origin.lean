import Calculator.Proofs.Parser.Viability
import Calculator.Proofs.Token.Unrecognized

/-!
# Where the errors of a parser come from

A parser reads its tokens one by one, so it may give up on a token before it comes
to a character that cannot be read. Whatever it reports is either about a token
that stands before that character or the report of the character itself. Hence
both ways of reading a text agree on what is wrong with its characters.
-/

namespace Calculator

namespace Parser

variable {p q : Parser} {t : Token} {ts : List Token} {e : Error}

/-- The error is about a token ahead, or it is the one that stops the reading of
tokens. -/
def Originates (p : Parser) (e : Error) : Prop :=
  (∃ t ∈ p.lexer.drain.1, ∃ x, e = t.unexpected x) ∨ p.lexer.drain.2 = some e

theorem Consumes.originates (h : p.Consumes ts q) (later : q.Originates e) : p.Originates e := by
  rw [Consumes] at h
  rw [Originates, h]
  rcases later with ⟨t, ahead, x, rfl⟩ | stop
  · exact .inl ⟨t, by simp [ahead], x, rfl⟩
  · exact .inr stop

theorem Stops.originates (h : p.Stops e q) : p.Originates e := by
  obtain ⟨l, read, -⟩ := h
  exact .inr (by rw [Lexer.drain_of_error read])

theorem Takes.originates (h : p.Takes t q) (x : Expectation) : p.Originates (t.unexpected x) := by
  obtain ⟨rest, ahead⟩ := h.ahead
  exact .inl ⟨t, by simp [ahead], x, rfl⟩

end Parser

theorem Parses.exists_consumes {ph : Phrase} {p q : Parser} {tree : Subtree}
    (h : Parses ph p tree q) : ∃ ts, p.Consumes ts q := by
  obtain ⟨ts, consumes, -⟩ := h.derives
  exact ⟨ts, consumes⟩

/-- An error that comes up behind a phrase comes up in front of it too. -/
theorem Parses.originates {ph : Phrase} {p q : Parser} {tree : Subtree} {e : Error}
    (h : Parses ph p tree q) (later : q.Originates e) : p.Originates e := by
  obtain ⟨ts, consumes⟩ := h.exists_consumes
  exact consumes.originates later

theorem Rejects.originates {c : Category} {p q : Parser} {e : Error} (h : Rejects c p e q) :
    p.Originates e := by
  induction h with
  | operand _ ih | stored _ ih => exact ih
  | chainStop parses stops | storeStop parses stops => exact parses.originates stops.originates
  | negationStop stops | factorStop stops => exact stops.originates
  | right parses takes hop _ ih =>
    exact parses.originates ((takes.consumes (Level.kind_ne_eof hop)).originates ih)
  | binaryHigh parses takes => exact parses.originates (takes.originates _)
  | notStore parses takes | storeHigh parses takes =>
    exact parses.originates (takes.originates _)
  | positive peeks _ _ ih => exact peeks.consumes.originates ih
  | negated takes minus _ ih => exact (takes.consumes (by simp [minus])).originates ih
  | negateHigh takes | literal takes | notMemory takes => exact takes.originates _
  | deep takes | operandMissing takes => exact takes.originates _
  | inside takes opens _ _ ih =>
    -- entering parentheses reads nothing
    exact (takes.consumes (by simp [opens])).originates (q := Parser.enter _) ih
  | closeStop takes opens _ parses leave stops =>
    obtain rfl := Parser.leave_eq_ok leave
    exact (takes.consumes (by simp [opens])).originates (parses.originates stops.originates)
  | unclosed takes opens _ parses leave closes =>
    obtain rfl := Parser.leave_eq_ok leave
    exact (takes.consumes (by simp [opens])).originates
      (parses.originates (closes.originates .closeParen))

theorem Parser.originates_of_parse {p r : Parser} {e : Error} (h : p.parse = (.error e, r)) :
    p.Originates e := by
  rcases parse_eq_error_iff.1 h with rejects | ⟨tree, q, parses, stops | ⟨t, takes, -, rfl⟩⟩
  · exact rejects.originates
  · exact parses.originates stops.originates
  · exact parses.originates (takes.originates _)

/-- Where reading of tokens is stopped, a parser fails too. It reports the same, or
a token at an earlier position. -/
theorem Parser.parse_of_drain_error {source : String} {e : Error}
    (h : (Lexer.ofString source).drain.2 = some e) (limit : Nat) :
    ∃ x, { Parser.ofString source with limit := limit }.parse.1 = .error x ∧
      (x = e ∨ ∃ p expected found q, x = .unexpected p expected found ∧
        e.position? = some q ∧ p < q) := by
  rcases parsed : { Parser.ofString source with limit := limit }.parse with ⟨x | tree, r⟩
  · refine ⟨x, congrArg Prod.fst parsed, ?_⟩
    rcases originates_of_parse parsed with ⟨t, ahead, y, rfl⟩ | stop
    · obtain ⟨q, position, before⟩ := position_lt_of_drain (Prod.ext rfl h) ahead
      exact .inr ⟨t.position, y.phrase, t.describe, q, rfl, position, before⟩
    · exact .inl (Option.some.inj (stop.symm.trans h))
  · obtain ⟨ts, eof, tokens, -⟩ := derives_of_parse parsed
    cases (tokenize_eq_error.2 h).symm.trans tokens

/-- Characters that cannot be read are reported alike by every way of reading a
text, and a parser that reports something else reports what stands before them. -/
theorem lexical_errors_agree (source : String) :
    ((∃ e, tokenize source = .error e) ↔ ∃ c ∈ source.toList, ¬ Readable c) ∧
    (∀ before c rest, source.toList = before ++ c :: rest → (∀ b ∈ before, Readable b) →
      ¬ Readable c → tokenize source = .error (.unrecognized (.after before) c)) ∧
    (∀ limit position c,
      { Parser.ofString source with limit := limit }.parse.1 = .error (.unrecognized position c) →
      tokenize source = .error (.unrecognized position c)) ∧
    (∀ limit e, tokenize source = .error e →
      ∃ x, { Parser.ofString source with limit := limit }.parse.1 = .error x ∧
        (x = e ∨ ∃ p expected found q, x = .unexpected p expected found ∧
          e.position? = some q ∧ p < q)) := by
  refine ⟨⟨?_, ?_⟩, ?_, ?_, ?_⟩
  · rintro ⟨e, failed⟩
    obtain ⟨before, c, stops, -⟩ := tokenize_eq_error_iff.1 failed
    obtain ⟨rest, split⟩ := stops.split
    exact ⟨c, by simp [split], stops.foreign⟩
  · rintro ⟨c, member, foreign⟩
    rcases outcome : tokenize source with e | ts
    · exact ⟨e, rfl⟩
    · exact absurd (readable_of_tokenize outcome c member) foreign
  · intro before c rest split readable foreign
    exact tokenize_eq_error_iff.2 ⟨before, c, ⟨⟨rest, split⟩, readable, foreign⟩, rfl⟩
  · intro limit position c failed
    rcases Parser.originates_of_parse (Prod.ext failed rfl) with ⟨t, -, x, error⟩ | stop
    · cases error
    · exact tokenize_eq_error.2 stop
  · intro limit e failed
    exact Parser.parse_of_drain_error (tokenize_eq_error.1 failed) limit

/-- In `1+*$`, the dollar cannot be read, and a parser reports the star before it. -/
theorem star_is_reported_before_dollar :
    tokenize "1+*$" = .error (.unrecognized ⟨1, 4⟩ '$') ∧
    ∃ x, (Parser.ofString "1+*$").parse.1 = .error x ∧
      (x = .unrecognized ⟨1, 4⟩ '$' ∨ ∃ p expected found q, x = .unexpected p expected found ∧
        some (⟨1, 4⟩ : Position) = some q ∧ p < q) := by
  obtain ⟨-, first, -, reported⟩ := lexical_errors_agree "1+*$"
  have stopped := first ['1', '+', '*'] '$' [] (by decide) (by simp [Readable]) (by simp [Readable])
  exact ⟨stopped, reported 256 _ stopped⟩

end Calculator
