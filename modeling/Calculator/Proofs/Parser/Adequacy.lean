import Calculator.Proofs.Parser.Rules

/-!
# The functions of a parser follow its rules

Whatever the state, the functions that read a category succeed exactly by the
rules of `Parses` and fail exactly by those of `Rejects`, with the same tree,
error and state (`run_eq_ok_iff`, `run_eq_error_iff`). So does the reading of a
whole text.
-/

namespace Calculator

/-- A reply without the proof of its progress. -/
def Parser.Reply.outcome {n : Nat} : Parser.Reply n → Except Error Subtree × Parser
  | .ok tree rest _ => (.ok tree, rest)
  | .error e rest => (.error e, rest)

def Category.run : Category → Parser → Except Error Subtree × Parser
  | .chain .sum, p => p.expr.outcome
  | .chain .product, p => p.term.outcome
  | .storable, p => p.storable.outcome
  | .negation, p => p.negation.outcome
  | .factor, p => p.factor.outcome

/-- The rest of a chain that starts with `left`. -/
def Level.rest : Level → Parser → Subtree → Except Error Subtree × Parser
  | .sum, p, left => (p.sum left).outcome
  | .product, p, left => (p.product left).outcome

namespace Parser

variable {α : Type} {p q : Parser} {t : Token} {a : α} {e : Error} {want : Token → Option α}

@[simp] theorem Reply.outcome_ok {n : Nat} {tree : Subtree} (progress : q.size < n) :
    (Reply.ok tree q progress).outcome = (.ok tree, q) := rfl

@[simp] theorem Reply.outcome_error {n : Nat} :
    (Reply.error e q : Reply n).outcome = (.error e, q) := rfl

@[simp] theorem Reply.outcome_weaken {m n : Nat} (r : Reply m) (h : m ≤ n) :
    (r.weaken h).outcome = r.outcome := by
  cases r <;> rfl

theorem Reply.outcome_eq_ok {n : Nat} {r : Reply n} {tree : Subtree}
    (h : r.outcome = (.ok tree, q)) : ∃ progress, r = .ok tree q progress := by
  cases r with
  | ok tree' rest progress =>
    obtain ⟨rfl, rfl⟩ := by simpa using h
    exact ⟨progress, rfl⟩
  | error => simp at h

theorem Reply.outcome_eq_error {n : Nat} {r : Reply n} (h : r.outcome = (.error e, q)) :
    r = .error e q := by
  cases r with
  | ok => simp at h
  | error =>
    obtain ⟨rfl, rfl⟩ := by simpa using h
    rfl

theorem Takes.next_eq (h : p.Takes t q) : ∃ progress, p.next = .token t q progress := by
  obtain ⟨l, read, rfl⟩ := h
  refine ⟨Lexer.size_next read, ?_⟩
  rw [Parser.next]
  split
  · next h =>
    cases read.symm.trans h
    rfl
  · next h => cases read.symm.trans h

theorem Stops.next_eq (h : p.Stops e q) : p.next = .error e q := by
  obtain ⟨l, read, rfl⟩ := h
  rw [Parser.next]
  split
  · next h => cases read.symm.trans h
  · next h =>
    cases read.symm.trans h
    rfl

theorem Takes.choose_eq (h : p.Takes t q) (hw : want t = some a) (ht : t.kind ≠ .eof) :
    ∃ progress, p.choose want = .taken t a q progress := by
  obtain ⟨l, read, rfl⟩ := h
  refine ⟨Lexer.size_next_lt read ht, ?_⟩
  rw [choose]
  split
  · next h => cases read.symm.trans h
  · next h =>
    cases read.symm.trans h
    rw [dif_neg ht]
    split
    · next h =>
      cases hw.symm.trans h
      rfl
    · next h => cases hw.symm.trans h

theorem pass_eq {l r : Lexer} (read : p.lexer.next = (.ok t, l)) (unread : l.unread = .ok r) :
    (p.pass read : Choice p α) =
      .passed { p with lexer := r } (Lexer.size_unread read unread) := by
  rw [pass]
  split
  · next h =>
    cases unread.symm.trans h
    rfl
  · next h => cases unread.symm.trans h

theorem Peeks.choose_eq (h : p.Peeks t q) (hw : want t = none) :
    ∃ progress, p.choose want = .passed q progress := by
  obtain ⟨l, r, read, unread, rfl⟩ := h
  refine ⟨Lexer.size_unread read unread, ?_⟩
  rw [choose]
  split
  · next h => cases read.symm.trans h
  · next h =>
    cases read.symm.trans h
    split
    · exact pass_eq read unread
    · split
      · next h => cases hw.symm.trans h
      · exact pass_eq read unread

theorem Stops.choose_eq (h : p.Stops e q) : p.choose want = .error e q := by
  obtain ⟨l, read, rfl⟩ := h
  rw [choose]
  split
  · next h =>
    cases read.symm.trans h
    rfl
  · next h => cases read.symm.trans h

end Parser

variable {level : Level} {p q r : Parser} {t : Token} {left : Subtree} {e : Error}

theorem Token.storing?_eq_none (h : t.kind ≠ .keyword) : t.storing? = none := if_neg h

theorem Token.storing?_of_store (h : t.isKeyword "S") : t.storing? = some true := by
  rw [storing?, if_pos (kind_of_isKeyword h), h]

theorem Token.minus?_eq_none (h : t.kind ≠ .operator .sub) : t.minus? = none := if_neg h

theorem Token.minus?_eq_some (h : t.kind = .operator .sub) : t.minus? = some () := if_pos h

theorem Category.run_chain (level : Level) (p : Parser) :
    (Category.chain level).run p =
      match level.operand.run p with
      | (.error e, q) => (.error e, q)
      | (.ok left, q) => level.rest q left := by
  cases level with
  | sum =>
    simp only [run, Level.operand, Level.rest]
    rw [Parser.expr]
    cases p.term <;> simp
  | product =>
    simp only [run, Level.operand, Level.rest]
    rw [Parser.term]
    cases p.storable <;> simp

theorem Level.rest_of_stops (h : p.Stops e q) : level.rest p left = (.error e, q) := by
  cases level with
  | sum => rw [rest, Parser.sum, h.choose_eq, Parser.Reply.outcome_error]
  | product => rw [rest, Parser.product, h.choose_eq, Parser.Reply.outcome_error]

theorem Level.rest_of_peeks (h : p.Peeks t q) (hop : level.op? t = none) :
    level.rest p left = (.ok left, q) := by
  cases level with
  | sum =>
    obtain ⟨_, choose⟩ := h.choose_eq hop
    rw [rest, Parser.sum]
    simp only [op?] at choose
    simp only [choose, Parser.Reply.outcome_ok]
  | product =>
    obtain ⟨_, choose⟩ := h.choose_eq hop
    rw [rest, Parser.product]
    simp only [op?] at choose
    simp only [choose, Parser.Reply.outcome_ok]

theorem Level.rest_of_takes {op : Op} (h : p.Takes t q) (hop : level.op? t = some op) :
    level.rest p left =
      match level.operand.run q with
      | (.error e, r) => (.error e, r)
      | (.ok right, r) =>
        match r.grow t (max left.height right.height) with
        | .error e => (.error e, r)
        | .ok height => level.rest r ⟨.binary op left.expr right.expr, height⟩ := by
  cases level with
  | sum =>
    obtain ⟨_, choose⟩ := h.choose_eq hop (Level.kind_ne_eof hop)
    simp only [rest, operand, Category.run, op?] at choose ⊢
    rw [Parser.sum]
    simp only [choose]
    cases q.term with
    | error e r => simp
    | ok right r progress =>
      simp only [Parser.Reply.outcome_ok]
      cases r.grow t (max left.height right.height) <;> simp
  | product =>
    obtain ⟨_, choose⟩ := h.choose_eq hop (Level.kind_ne_eof hop)
    simp only [rest, operand, Category.run, op?] at choose ⊢
    rw [Parser.product]
    simp only [choose]
    cases q.storable with
    | error e r => simp
    | ok right r progress =>
      simp only [Parser.Reply.outcome_ok]
      cases r.grow t (max left.height right.height) <;> simp

theorem Parser.grow_of_lt {height : Nat} (h : height < p.limit) :
    p.grow t height = .ok (height + 1) := by
  rw [grow, if_neg (by omega)]

theorem Parser.grow_of_le {height : Nat} (h : p.limit ≤ height) :
    p.grow t height = .error (t.unexpected (.nesting p.limit)) := by
  rw [grow, if_pos h]

/-- Once the parentheses are entered, the factor is what is inside them and the
token that closes them. -/
theorem Category.run_factor_of_inner {s : Parser} {tree : Subtree} (takes : p.Takes t q)
    (opening : t.kind = .openParen) (room : q.depth < q.limit)
    (inner : Category.expr.run q.enter = (.ok tree, r)) (leave : r.leave = .ok s) :
    Category.factor.run p =
      match s.next with
      | .error e u => (.error e, u)
      | .token c u _ =>
        if c.kind = .closeParen then (.ok tree, u)
        else (.error (c.unexpected .closeParen), u) := by
  obtain ⟨_, read⟩ := takes.next_eq
  obtain ⟨_, inner⟩ := Parser.Reply.outcome_eq_ok inner
  rw [run, Parser.factor]
  simp only [read]
  split
  · next h => cases opening.symm.trans h
  · next h => cases opening.symm.trans h
  · rw [if_neg (by omega)]
    simp only [inner]
    split
    · next h => cases leave.symm.trans h
    · next h =>
      cases leave.symm.trans h
      cases s.next with
      | error e u => rfl
      | token c u _ => by_cases closing : c.kind = .closeParen <;> simp [closing]
  · next h => exact absurd opening h

/-- What the functions do when a phrase is read: a whole phrase is their result,
and a chain that has begun is what they go on with. -/
def Phrase.Reaches : Phrase → Parser → Subtree → Parser → Prop
  | .whole c, p, tree, q => c.run p = (.ok tree, q)
  | .begun level, p, tree, q => (Category.chain level).run p = level.rest q tree

theorem Parses.reaches {ph : Phrase} {tree : Subtree} (h : Parses ph p tree q) :
    ph.Reaches p tree q := by
  induction h with
  | operand _ ih =>
    simp only [Phrase.Reaches] at ih ⊢
    rw [Category.run_chain, ih]
  | binary _ takes hop _ fits ihl ihr =>
    simp only [Phrase.Reaches] at ihl ihr ⊢
    rw [ihl, Level.rest_of_takes takes hop, ihr]
    simp only [Parser.grow_of_lt fits]
  | chain _ peeks hop ih =>
    simp only [Phrase.Reaches] at ih ⊢
    rw [ih, Level.rest_of_peeks peeks hop]
  | plain _ peeks hk ih =>
    obtain ⟨_, inner⟩ := Parser.Reply.outcome_eq_ok ih
    obtain ⟨_, choose⟩ := peeks.choose_eq (Token.storing?_eq_none hk)
    simp only [Phrase.Reaches, Category.run]
    rw [Parser.storable]
    simp only [inner, choose, Parser.Reply.outcome_ok]
  | store _ takes hs fits ih =>
    obtain ⟨_, inner⟩ := Parser.Reply.outcome_eq_ok ih
    obtain ⟨_, choose⟩ :=
      takes.choose_eq (Token.storing?_of_store hs) (Token.kind_ne_eof_of_isKeyword hs)
    simp only [Phrase.Reaches, Category.run]
    rw [Parser.storable]
    simp only [inner, choose, Parser.grow_of_lt fits, Parser.Reply.outcome_ok]
  | positive peeks hm _ ih =>
    obtain ⟨_, choose⟩ := peeks.choose_eq (Token.minus?_eq_none hm)
    simp only [Phrase.Reaches, Category.run] at ih ⊢
    rw [Parser.negation]
    simp only [choose, Parser.Reply.outcome_weaken, ih]
  | negate takes hm _ fits ih =>
    obtain ⟨_, inner⟩ := Parser.Reply.outcome_eq_ok ih
    obtain ⟨_, choose⟩ := takes.choose_eq (Token.minus?_eq_some hm) (by simp [hm])
    simp only [Phrase.Reaches, Category.run]
    rw [Parser.negation]
    simp only [choose, inner, Parser.grow_of_lt fits, Parser.Reply.outcome_ok]
  | number takes hk hv =>
    obtain ⟨_, read⟩ := takes.next_eq
    simp only [Phrase.Reaches, Category.run]
    rw [Parser.factor]
    simp only [read]
    split <;> simp_all
  | memory takes hr =>
    obtain ⟨_, read⟩ := takes.next_eq
    have hk := Token.kind_of_isKeyword hr
    simp only [Phrase.Reaches, Category.run]
    rw [Parser.factor]
    simp only [read]
    split <;> simp_all
  | parens takes ho room _ leave closes hc ih =>
    obtain ⟨_, read⟩ := closes.next_eq
    rw [Phrase.Reaches, Category.run_factor_of_inner takes ho room ih leave]
    simp only [read, if_pos hc]

theorem Parses.run_eq {c : Category} {tree : Subtree} (h : Parses (.whole c) p tree q) :
    c.run p = (.ok tree, q) :=
  h.reaches

theorem Rejects.run_eq {c : Category} (h : Rejects c p e q) : c.run p = (.error e, q) := by
  induction h with
  | operand _ ih => rw [Category.run_chain, ih]
  | chainStop begun stops => rw [begun.reaches, Level.rest_of_stops stops]
  | right begun takes hop _ ih => rw [begun.reaches, Level.rest_of_takes takes hop, ih]
  | binaryHigh begun takes hop right high =>
    rw [begun.reaches, Level.rest_of_takes takes hop, right.run_eq]
    simp only [Parser.grow_of_le high]
  | stored _ ih =>
    rw [Category.run, Parser.storable, Parser.Reply.outcome_eq_error ih]
    rfl
  | storeStop inner stops =>
    obtain ⟨_, inner⟩ := Parser.Reply.outcome_eq_ok inner.run_eq
    rw [Category.run, Parser.storable]
    simp only [inner, stops.choose_eq, Parser.Reply.outcome_error]
  | notStore inner takes hk hs =>
    obtain ⟨_, inner⟩ := Parser.Reply.outcome_eq_ok inner.run_eq
    obtain ⟨_, choose⟩ := takes.choose_eq
      (show Token.storing? _ = some false by simp [Token.storing?, hk, hs]) (by simp [hk])
    rw [Category.run, Parser.storable]
    simp only [inner, choose, Parser.Reply.outcome_error]
  | storeHigh inner takes hs high =>
    obtain ⟨_, inner⟩ := Parser.Reply.outcome_eq_ok inner.run_eq
    obtain ⟨_, choose⟩ :=
      takes.choose_eq (Token.storing?_of_store hs) (Token.kind_ne_eof_of_isKeyword hs)
    rw [Category.run, Parser.storable]
    simp only [inner, choose, Parser.grow_of_le high, Parser.Reply.outcome_error]
  | negationStop stops =>
    rw [Category.run, Parser.negation]
    simp only [stops.choose_eq, Parser.Reply.outcome_error]
  | positive peeks hm _ ih =>
    obtain ⟨_, choose⟩ := peeks.choose_eq (Token.minus?_eq_none hm)
    rw [Category.run, Parser.negation]
    simp only [choose, Parser.Reply.outcome_weaken]
    exact ih
  | negated takes hm _ ih =>
    obtain ⟨_, choose⟩ := takes.choose_eq (Token.minus?_eq_some hm) (by simp [hm])
    rw [Category.run, Parser.negation]
    simp only [choose, Parser.Reply.outcome_eq_error ih, Parser.Reply.outcome_error]
  | negateHigh takes hm inner high =>
    obtain ⟨_, inner⟩ := Parser.Reply.outcome_eq_ok inner.run_eq
    obtain ⟨_, choose⟩ := takes.choose_eq (Token.minus?_eq_some hm) (by simp [hm])
    rw [Category.run, Parser.negation]
    simp only [choose, inner, Parser.grow_of_le high, Parser.Reply.outcome_error]
  | factorStop stops =>
    rw [Category.run, Parser.factor]
    simp only [stops.next_eq, Parser.Reply.outcome_error]
  | literal takes hk hv =>
    obtain ⟨_, read⟩ := takes.next_eq
    rw [Category.run, Parser.factor]
    simp only [read]
    split <;> simp_all
  | notMemory takes hk hr =>
    obtain ⟨_, read⟩ := takes.next_eq
    rw [Category.run, Parser.factor]
    simp only [read]
    split <;> simp_all
  | deep takes ho full =>
    obtain ⟨_, read⟩ := takes.next_eq
    rw [Category.run, Parser.factor]
    simp only [read]
    split <;> simp_all
  | inside takes ho room _ ih =>
    obtain ⟨_, read⟩ := takes.next_eq
    have inner := Parser.Reply.outcome_eq_error ih
    rw [Category.run, Parser.factor]
    simp only [read]
    split
    · next h => cases ho.symm.trans h
    · next h => cases ho.symm.trans h
    · rw [if_neg (by omega)]
      simp only [inner, Parser.Reply.outcome_error]
    · next h => exact absurd ho h
  | closeStop takes ho room inner leave stops =>
    rw [Category.run_factor_of_inner takes ho room inner.run_eq leave, stops.next_eq]
  | unclosed takes ho room inner leave closes hc =>
    obtain ⟨_, read⟩ := closes.next_eq
    rw [Category.run_factor_of_inner takes ho room inner.run_eq leave]
    simp only [read, if_neg hc]
  | operandMissing takes number keyword opening =>
    obtain ⟨_, read⟩ := takes.next_eq
    rw [Category.run, Parser.factor]
    simp only [read]
    rfl

/-- The functions succeed exactly by the rules of reading. -/
theorem run_eq_ok_iff {c : Category} {tree : Subtree} :
    c.run p = (.ok tree, q) ↔ Parses (.whole c) p tree q := by
  refine ⟨fun h => ?_, Parses.run_eq⟩
  rcases parses_or_rejects c p with ⟨tree', q', parses⟩ | ⟨e, q', rejects⟩
  · cases h.symm.trans parses.run_eq
    exact parses
  · cases h.symm.trans rejects.run_eq

/-- The functions fail exactly by the rules of giving up. -/
theorem run_eq_error_iff {c : Category} : c.run p = (.error e, q) ↔ Rejects c p e q := by
  refine ⟨fun h => ?_, Rejects.run_eq⟩
  rcases parses_or_rejects c p with ⟨tree', q', parses⟩ | ⟨e, q', rejects⟩
  · cases h.symm.trans parses.run_eq
  · cases h.symm.trans rejects.run_eq
    exact rejects

/-! ## Whole texts -/

namespace Parser

theorem parse_of_takes {tree : Subtree} (parses : Parses (.whole .expr) p tree q)
    (takes : q.Takes t r) :
    p.parse = if t.kind = .eof then (.ok tree, r) else (.error (t.unexpected .endOfInput), r) := by
  obtain ⟨_, inner⟩ := Reply.outcome_eq_ok parses.run_eq
  obtain ⟨_, read⟩ := takes.next_eq
  simp only [parse, inner, read]

theorem parse_of_stops {tree : Subtree} (parses : Parses (.whole .expr) p tree q)
    (stops : q.Stops e r) : p.parse = (.error e, r) := by
  obtain ⟨_, inner⟩ := Reply.outcome_eq_ok parses.run_eq
  simp only [parse, inner, stops.next_eq]

theorem parse_of_rejects (h : Rejects .expr p e q) : p.parse = (.error e, q) := by
  have inner := Reply.outcome_eq_error h.run_eq
  simp only [parse, inner]

/-- A text is an expression and the end of the input after it. -/
theorem parse_eq_ok_iff {tree : Subtree} :
    p.parse = (.ok tree, r) ↔
      ∃ q t, Parses (.whole .expr) p tree q ∧ q.Takes t r ∧ t.kind = .eof := by
  constructor
  · intro h
    rcases parses_or_rejects .expr p with ⟨tree', q, parses⟩ | ⟨e, q, rejects⟩
    · rcases q.stops_or_takes with ⟨e, u, stops⟩ | ⟨t, u, takes⟩
      · cases h.symm.trans (parse_of_stops parses stops)
      · rw [parse_of_takes parses takes] at h
        split at h
        · next eof =>
          cases h
          exact ⟨q, t, parses, takes, eof⟩
        · cases h
    · cases h.symm.trans (parse_of_rejects rejects)
  · rintro ⟨q, t, parses, takes, eof⟩
    rw [parse_of_takes parses takes, if_pos eof]

/-- A text fails in its expression or behind it. -/
theorem parse_eq_error_iff :
    p.parse = (.error e, r) ↔
      Rejects .expr p e r ∨ ∃ tree q, Parses (.whole .expr) p tree q ∧
        (q.Stops e r ∨ ∃ t, q.Takes t r ∧ t.kind ≠ .eof ∧ e = t.unexpected .endOfInput) := by
  constructor
  · intro h
    rcases parses_or_rejects .expr p with ⟨tree, q, parses⟩ | ⟨e, q, rejects⟩
    · refine .inr ⟨tree, q, parses, ?_⟩
      rcases q.stops_or_takes with ⟨e, u, stops⟩ | ⟨t, u, takes⟩
      · cases h.symm.trans (parse_of_stops parses stops)
        exact .inl stops
      · rw [parse_of_takes parses takes] at h
        split at h
        · cases h
        · next eof =>
          cases h
          exact .inr ⟨t, takes, eof, rfl⟩
    · cases h.symm.trans (parse_of_rejects rejects)
      exact .inl rejects
  · rintro (rejects | ⟨tree, q, parses, stops | ⟨t, takes, eof, rfl⟩⟩)
    · exact parse_of_rejects rejects
    · exact parse_of_stops parses stops
    · rw [parse_of_takes parses takes, if_neg eof]

theorem isRejection_of_parse (h : p.parse = (.error e, r)) : e.IsRejection := by
  rcases parse_eq_error_iff.1 h with rejects | ⟨_, _, _, stops | ⟨t, _, _, rfl⟩⟩
  · exact rejects.isRejection
  · exact stops.isRejection
  · trivial

end Parser

end Calculator
