import Calculator.Proofs.Token.Spelling

/-!
# The tokens ahead of a lexer

What a lexer will hand out depends on its next token only, and a token that is
taken back is read again with nothing lost. A number of a text is a run of
digits.
-/

namespace Calculator

/-- If the token is a number, its text is a run of digits. -/
def Token.Lexical (t : Token) : Prop :=
  t.kind = .number → ∃ cs, cs ≠ [] ∧ (∀ c ∈ cs, c.isDigit) ∧ t.lexeme = some (String.ofList cs)

namespace Lexer

variable {l r s : Lexer} {t : Token} {ts : List Token} {e : Error} {stop : Option Error}

/-- A token that was just read can be taken back, and then it is the next one. -/
theorem exists_unread (h : l.next = (.ok t, r)) : ∃ s, r.unread = .ok s ∧ s.next = (.ok t, r) := by
  obtain ⟨last, pending⟩ := next_last h
  refine ⟨{ r with pending := some t, last := none }, by simp [unread, pushBack, last, pending], ?_⟩
  cases r
  simp_all [next]

theorem drain_of_error (h : l.next = (.error e, r)) : l.drain = ([], some e) := by
  rw [drain]
  split <;> simp_all

theorem drain_of_eof (h : l.next = (.ok t, r)) (ht : t.kind = .eof) : l.drain = ([t], none) := by
  rw [drain]
  split <;> simp_all

theorem drain_of_token (h : l.next = (.ok t, r)) (ht : t.kind ≠ .eof) :
    l.drain = (t :: r.drain.1, r.drain.2) := by
  rw [drain]
  split <;> simp_all

theorem drain_congr (h : l.next = s.next) : l.drain = s.drain := by
  rcases hs : s.next with ⟨e | t, r⟩
  · rw [drain_of_error hs, drain_of_error (h.trans hs)]
  · by_cases ht : t.kind = .eof
    · rw [drain_of_eof hs ht, drain_of_eof (h.trans hs) ht]
    · rw [drain_of_token hs ht, drain_of_token (h.trans hs) ht]

/-- The first token ahead is the next one, and the others come after it. -/
theorem next_of_drain (h : l.drain = (t :: ts, stop)) :
    ∃ r, l.next = (.ok t, r) ∧ (t.kind ≠ .eof → r.drain = (ts, stop)) := by
  rcases hl : l.next with ⟨e | u, r⟩
  · simp [drain_of_error hl] at h
  · by_cases hu : u.kind = .eof
    · rw [drain_of_eof hl hu] at h
      obtain ⟨⟨rfl, -⟩, -⟩ := by simpa using h
      exact ⟨r, rfl, fun ht => absurd hu ht⟩
    · rw [drain_of_token hl hu] at h
      obtain ⟨⟨rfl, rfl⟩, rfl⟩ := by simpa using h
      exact ⟨r, rfl, fun _ => rfl⟩

/-! ## The texts of numbers -/

theorem lexical_scan (h : l.scan = (.ok t, r)) : t.Lexical := by
  intro number
  simp only [scan] at h
  split at h
  · obtain ⟨rfl, -⟩ := by simpa using h
    simp at number
  · next c cs hd =>
    split at h
    · simp at h
    · next kind tail rest hm =>
      obtain ⟨rfl, -⟩ := by simpa using h
      obtain rfl : kind = .number := number
      obtain ⟨⟨d, ds, lexeme, digits⟩, -⟩ := spelling_of_munch? l.here hm
      exact ⟨d :: ds, List.cons_ne_nil d ds, digits, lexeme⟩

theorem lexical_next (fresh : l.pending = none) (h : l.next = (.ok t, r)) : t.Lexical := by
  simp only [next, fresh] at h
  split at h
  · next hs =>
    obtain ⟨rfl, -⟩ := by simpa using h
    exact lexical_scan hs
  · simp at h

theorem lexical_drain (fresh : l.pending = none) : ∀ t ∈ l.drain.1, t.Lexical := by
  intro t ht
  fun_induction drain l with
  | case1 => simp at ht
  | case2 l u r hl eof =>
    obtain rfl := by simpa using ht
    exact lexical_next fresh hl
  | case3 l u r hl eof shorter ts e hd ih =>
    rcases List.mem_cons.1 ht with rfl | ht
    · exact lexical_next fresh hl
    · exact ih (next_last hl).2 (by rwa [hd])

end Lexer

theorem tokenize_eq_ok {source : String} {ts : List Token} :
    tokenize source = .ok ts ↔ (Lexer.ofString source).drain = (ts, none) := by
  rw [tokenize]
  split
  · next us h => simp [h]
  · next e h => simp [h]

end Calculator
