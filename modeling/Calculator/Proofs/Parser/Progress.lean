import Calculator.Proofs.Parser.Reuse

/-!
# Reading a phrase makes progress

Whatever state a parser is in, reading a phrase comes to an end. What is still to
be read then is a proper end of what was to be read before, although tokens are
pushed back on the way and the end of the input can be read any number of times.
-/

namespace Calculator

/-! ## What is still to be read -/

/-- The token, unless it is the end of the input, and then the rest. -/
def Token.inFrontOf (t : Token) (rest : List (Except Error Token)) : List (Except Error Token) :=
  if t.kind = .eof then rest else .ok t :: rest

namespace Lexer

theorem length_scan_error {l r : Lexer} {e : Error} (h : l.scan = (.error e, r)) :
    r.rest.length < l.rest.length := by
  have bound : (l.rest.dropWhile isBlank).length ≤ l.rest.length :=
    (List.dropWhile_sublist _).length_le
  simp only [scan] at h
  split at h
  · simp at h
  · next c cs skipped =>
    split at h
    · obtain ⟨-, rfl⟩ := by simpa using h
      rw [skipped, List.length_cons] at bound
      exact bound
    · simp at h

/-- What scanning gives up to the end of the input, which is left out: tokens, and an error for each
character that starts none. -/
def upcoming (l : Lexer) : List (Except Error Token) :=
  match h : l.scan with
  | (.error e, r) =>
    have : r.rest.length < l.rest.length := length_scan_error h
    .error e :: r.upcoming
  | (.ok t, r) =>
    if ht : t.kind = .eof then []
    else
      have : r.rest.length < l.rest.length := by
        have := length_scan h
        rwa [Token.weight, if_neg ht] at this
      .ok t :: r.upcoming
termination_by l.rest.length

/-- The lexer without the tokens it remembers. -/
def bare (l : Lexer) : Lexer := { rest := l.rest, here := l.here, stop := l.stop }

/-- What is still to be read: the token that waits, then the characters that are not scanned yet. -/
def ahead (l : Lexer) : List (Except Error Token) :=
  match l.pending with
  | none => l.bare.upcoming
  | some t => t.inFrontOf l.bare.upcoming

variable {l r s : Lexer} {t : Token}

/-- Scanning neither uses nor changes the tokens that a lexer remembers. -/
theorem scan_bare (l : Lexer) : l.bare.scan = (l.scan.1, l.scan.2.bare) := by
  simp only [scan, bare]
  split
  · rfl
  · split <;> rfl

theorem upcoming_of_token (h : l.scan = (.ok t, r)) (token : t.kind ≠ .eof) :
    l.upcoming = .ok t :: r.upcoming := by
  rw [upcoming]
  split <;> simp_all

theorem upcoming_of_eof (h : l.scan = (.ok t, r)) (eof : t.kind = .eof) : l.upcoming = [] := by
  rw [upcoming]
  split <;> simp_all

theorem upcoming_of_scan (h : l.scan = (.ok t, r)) : l.upcoming = t.inFrontOf r.upcoming := by
  by_cases eof : t.kind = .eof
  · -- behind the end there is nothing
    have again : r.scan = (.ok { kind := .eof, position := r.stop }, { r with rest := [] }) := by
      simp [scan, (scan_eof h eof).1]
    rw [Token.inFrontOf, if_pos eof, upcoming_of_eof h eof, upcoming_of_eof again rfl]
  · rw [Token.inFrontOf, if_neg eof, upcoming_of_token h eof]

theorem ahead_of_pending (h : l.pending = none) : l.ahead = l.bare.upcoming := by
  rw [ahead, h]

theorem ahead_of_next (h : l.next = (.ok t, r)) : l.ahead = t.inFrontOf r.ahead := by
  rw [ahead_of_pending (next_last h).2]
  simp only [next] at h
  split at h
  · next pending =>
    obtain ⟨rfl, rfl⟩ := by simpa using h
    rewrite [ahead, pending]
    rfl
  · next pending =>
    split at h
    · next scanned =>
      obtain ⟨rfl, rfl⟩ := by simpa using h
      rewrite [ahead_of_pending pending, upcoming_of_scan (by rw [scan_bare, scanned])]
      rfl
    · simp at h

/-- A token that is taken back is still to be read. -/
theorem ahead_of_unread (read : l.next = (.ok t, r)) (unread : r.unread = .ok s) :
    s.ahead = l.ahead := by
  obtain rfl := unread_eq read unread
  rewrite [ahead_of_next read, ahead_of_pending (next_last read).2]
  rfl

end Lexer

/-! ## What a phrase takes away -/

namespace Parser

variable {p q r : Parser} {t : Token} {ts us : List Token}

/-- What the first state has still to read are the tokens `ts` and then what the second has. -/
def Advances (p : Parser) (ts : List Token) (q : Parser) : Prop :=
  p.lexer.ahead = ts.map .ok ++ q.lexer.ahead

theorem Advances.trans (h : p.Advances ts q) (h' : q.Advances us r) : p.Advances (ts ++ us) r := by
  rw [Advances] at *
  rw [h, h', List.map_append, List.append_assoc]

theorem Takes.advances (h : p.Takes t q) (token : t.kind ≠ .eof) : p.Advances [t] q := by
  obtain ⟨l, read, rfl⟩ := h
  exact (Lexer.ahead_of_next read).trans (if_neg token)

theorem Peeks.advances (h : p.Peeks t q) : p.Advances [] q := by
  obtain ⟨l, r, read, unread, rfl⟩ := h
  exact (Lexer.ahead_of_unread read unread).symm

/-- Where a token was taken away, a proper end is left. -/
theorem Advances.properSuffix (h : p.Advances (t :: ts) q) :
    q.lexer.ahead <:+ p.lexer.ahead ∧ q.lexer.ahead ≠ p.lexer.ahead := by
  refine ⟨⟨_, h.symm⟩, fun same => ?_⟩
  have nothing := List.self_eq_append_left.1 (same.trans h)
  simp at nothing

end Parser

/-- A phrase takes tokens away, and at least one. -/
theorem Parses.advances {ph : Phrase} {p q : Parser} {tree : Subtree} (h : Parses ph p tree q) :
    ∃ t ts, p.Advances (t :: ts) q := by
  induction h with
  | operand _ ih => exact ih
  | binary _ takes hop _ _ ihl ihr =>
    obtain ⟨t, ts, left⟩ := ihl
    obtain ⟨u, us, right⟩ := ihr
    exact ⟨t, _, left.trans ((takes.advances (Level.kind_ne_eof hop)).trans right)⟩
  | chain _ peeks _ ih | plain _ peeks _ ih =>
    obtain ⟨t, ts, inner⟩ := ih
    exact ⟨t, _, inner.trans peeks.advances⟩
  | store _ takes word _ ih =>
    obtain ⟨t, ts, inner⟩ := ih
    exact ⟨t, _, inner.trans (takes.advances (Token.kind_ne_eof_of_isKeyword word))⟩
  | positive peeks _ _ ih =>
    obtain ⟨t, ts, inner⟩ := ih
    exact ⟨t, ts, peeks.advances.trans inner⟩
  | negate takes minus _ _ ih =>
    obtain ⟨t, ts, inner⟩ := ih
    exact ⟨_, _, (takes.advances (by simp [minus])).trans inner⟩
  | number takes kind => exact ⟨_, _, takes.advances (by simp [kind])⟩
  | memory takes word => exact ⟨_, _, takes.advances (Token.kind_ne_eof_of_isKeyword word)⟩
  | parens takes opens _ _ leave closes closing ih =>
    obtain ⟨t, ts, inner⟩ := ih
    obtain rfl := Parser.leave_eq_ok leave
    -- neither entering parentheses nor leaving them reads anything
    have behind := inner.trans (q := Parser.enter _) (closes.advances (by simp [closing]))
    exact ⟨_, _, (takes.advances (by simp [opens])).trans behind⟩

/-! ## Every call returns -/

/-- Step by step, reading the category comes to the outcome: a tree is handed to whatever waits
for it, and an error ends the run. -/
def Descent.Returns (c : Category) (p : Parser) : Except Error Subtree × Parser → Prop
  | (.ok tree, q) => ∀ ws, Reaches ⟨.read c, ws, p⟩ ⟨.give tree, ws, q⟩
  | (.error e, q) => ∀ ws, Ends ⟨.read c, ws, p⟩ (.error e) q

theorem Descent.returns_run (c : Category) {p : Parser} (small : p.limit < UInt64.size) :
    Returns c p (c.run p) := by
  rcases parses_or_rejects c p with ⟨tree, q, parses⟩ | ⟨e, q, rejects⟩
  · rw [parses.run_eq]
    exact reaches_of_parses parses small
  · rw [rejects.run_eq]
    exact ends_of_rejects rejects small

/-- From every state, reading a category returns, and where it fails the text is to blame. Where it
succeeds, what is still to be read is a proper end of what was, the height is that of the tree,
and the depth is as before. -/
theorem every_category_makes_progress (c : Category) (p : Parser) :
    (p.limit < UInt64.size → Descent.Returns c p (c.run p)) ∧
    (∀ e q, c.run p = (.error e, q) → e.IsRejection) ∧
    ∀ tree q, c.run p = (.ok tree, q) →
      (q.lexer.ahead <:+ p.lexer.ahead ∧ q.lexer.ahead ≠ p.lexer.ahead) ∧
      tree.height = tree.expr.height ∧ q.depth = p.depth := by
  refine ⟨Descent.returns_run c, ?_, ?_⟩
  · intro e q failed
    exact (run_eq_error_iff.1 failed).isRejection
  · intro tree q returned
    have parses := run_eq_ok_iff.1 returned
    obtain ⟨t, ts, advances⟩ := parses.advances
    exact ⟨advances.properSuffix, parses.height.1, parses.depth_limit.1⟩

/-- A parenthesis waits in front of `2)S$+`, and others are open. A storable phrase is read up to
the dollar, which an expression fails at. -/
theorem storable_is_read_up_to_dollar :
    let lexer : Lexer :=
      { rest := ['2', ')', 'S', '$', '+'], here := ⟨1, 2⟩, stop := ⟨1, 2⟩,
        pending := some { kind := .openParen, position := ⟨1, 1⟩ } }
    let p : Parser := { lexer, depth := 7, limit := 9 }
    let tree : Subtree := ⟨.store (.number 2), 2⟩
    (∃ q, Category.storable.run p = (.ok tree, q) ∧ Descent.Returns .storable p (.ok tree, q) ∧
      q.lexer.ahead = [.error (.unrecognized ⟨1, 5⟩ '$'),
        .ok { kind := .operator .add, position := ⟨1, 6⟩ }] ∧
      (q.lexer.ahead <:+ p.lexer.ahead ∧ q.lexer.ahead ≠ p.lexer.ahead) ∧
      tree.height = tree.expr.height ∧ q.depth = 7) ∧
    ∃ e q, Category.expr.run p = (.error e, q) ∧ Descent.Returns .expr p (.error e, q) ∧
      e.IsRejection := by
  intro lexer p tree
  obtain ⟨returns, -, progress⟩ := every_category_makes_progress .storable p
  obtain ⟨returns', rejection, -⟩ := every_category_makes_progress .expr p
  have small : p.limit < UInt64.size := by decide
  have read : Category.storable.run p = (.ok tree, (Category.storable.run p).2) :=
    Prod.ext (by decide +kernel) rfl
  have failed : Category.expr.run p =
      (.error (.unrecognized ⟨1, 5⟩ '$'), (Category.expr.run p).2) :=
    Prod.ext (by decide +kernel) rfl
  refine ⟨⟨_, read, read ▸ returns small, ?_, progress _ _ read⟩, _, _, failed,
    failed ▸ returns' small, rejection _ _ failed⟩
  decide +kernel

end Calculator
