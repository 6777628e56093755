import Calculator.Proofs.Parser.Viability
import Calculator.Source

/-!
# Positions do not matter to a parser

Two texts may have the same tokens at different positions, because of the blanks
between them. Two parsers then go through their tokens side by side: whatever one
of them does, the other one does with the token of the same index. So they read
the same tree, or they fail alike, each with the position of its own token.
-/

namespace Calculator

/-! ## Tokens at other positions -/

/-- What a token is, wherever it stands. -/
def Token.content (t : Token) : Token.Kind × Option String := (t.kind, t.lexeme)

/-- The same token at another position. -/
def Token.moved (t : Token) (position : Position) : Token := { t with position }

namespace Token

variable (t : Token) (position : Position)

@[simp] theorem kind_moved : (t.moved position).kind = t.kind := rfl

@[simp] theorem op?_moved (level : Level) : level.op? (t.moved position) = level.op? t := by
  cases level <;> rfl

variable {t} in
theorem exists_moved {u : Token} (h : t.content = u.content) : ∃ position, u = t.moved position := by
  cases t
  cases u
  simp_all [content, moved]

end Token

/-! ## Two parsers side by side -/

/-- A token of the first list stands at another position in the second one, at the same index. -/
def Counterpart (ts us : List Token) (t : Token) (position : Position) : Prop :=
  ∃ i : Nat, ts[i]? = some t ∧ us[i]? = some (t.moved position)

/-- The parsers have read equally many tokens of their lists, and they agree in their counters. -/
structure Parallel (ts us : List Token) (p p' : Parser) : Prop where
  depth : p'.depth = p.depth
  limit : p'.limit = p.limit
  ahead : ∃ n, p.lexer.drain = (ts.drop n, none) ∧ p'.lexer.drain = (us.drop n, none)

/-- The errors are the same, each at its own token. -/
def FailsAlike (ts us : List Token) (e e' : Error) : Prop :=
  ∃ t position x, Counterpart ts us t position ∧ e = t.unexpected x ∧
    e' = (t.moved position).unexpected x

section Parallel

variable {ts us rest : List Token} {t : Token} {n : Nat} {p q r p' : Parser} {e : Error}

/-- The tokens from an index on start with the token at this index. -/
theorem getElem?_of_drop (h : ts.drop n = t :: rest) : ts[n]? = some t ∧ ts.drop (n + 1) = rest := by
  constructor
  · simpa using congrArg List.head? h
  · rw [← List.drop_drop, h]
    rfl

theorem exists_counterpart (same : ts.map Token.content = us.map Token.content)
    (h : ts.drop n = t :: rest) :
    ∃ position rest', us.drop n = t.moved position :: rest' ∧ Counterpart ts us t position := by
  have contents : (us.drop n).map Token.content = (t :: rest).map Token.content := by
    rw [← h, List.map_drop, List.map_drop, same]
  cases other : us.drop n with
  | nil => simp [other] at contents
  | cons u rest' =>
    rw [other] at contents
    obtain ⟨position, rfl⟩ := Token.exists_moved (List.cons.inj contents).1.symm
    exact ⟨position, rest', rfl, n, (getElem?_of_drop h).1, (getElem?_of_drop other).1⟩

theorem Counterpart.failsAlike {position : Position} (h : Counterpart ts us t position)
    (x : Expectation) : FailsAlike ts us (t.unexpected x) ((t.moved position).unexpected x) :=
  ⟨t, position, x, h, rfl, rfl⟩

namespace Parallel

theorem room (h : Parallel ts us p p') (fits : p.depth < p.limit) : p'.depth < p'.limit := by
  rwa [h.depth, h.limit]

theorem enter (h : Parallel ts us p p') : Parallel ts us p.enter p'.enter :=
  ⟨congrArg (· + 1) h.depth, h.limit, h.ahead⟩

theorem leave (h : Parallel ts us p p') (leaves : p.leave = .ok q) :
    ∃ q', p'.leave = .ok q' ∧ Parallel ts us q q' := by
  obtain rfl := Parser.leave_eq_ok leaves
  obtain ⟨q', leaves'⟩ := Parser.exists_leave (p := p') (by rw [h.depth]; exact Nat.succ_pos _)
  obtain rfl := Parser.leave_eq_ok leaves'
  exact ⟨q', leaves', Nat.succ.inj h.depth, h.limit, h.ahead⟩

/-- All characters of both texts can be read. -/
theorem not_stops (h : Parallel ts us p p') : ¬p.Stops e q := by
  rintro ⟨l, read, -⟩
  obtain ⟨n, ahead, -⟩ := h.ahead
  rw [Lexer.drain_of_error read] at ahead
  cases (Prod.mk.inj ahead).2

theorem takes (same : ts.map Token.content = us.map Token.content) (h : Parallel ts us p p')
    (takes : p.Takes t q) :
    ∃ position q', p'.Takes (t.moved position) q' ∧ Counterpart ts us t position ∧
      (t.kind ≠ .eof → Parallel ts us q q') := by
  obtain ⟨depth, limit, n, ahead, ahead'⟩ := h
  obtain ⟨rest, first⟩ := takes.ahead
  rw [ahead] at first
  obtain ⟨position, rest', first', counterpart⟩ := exists_counterpart same first
  rw [first'] at ahead'
  obtain ⟨l', read', further⟩ := Lexer.next_of_drain ahead'
  refine ⟨position, { p' with lexer := l' }, ⟨l', read', rfl⟩, counterpart, fun more => ?_⟩
  obtain ⟨tokens, stop⟩ := Prod.mk.inj (ahead.symm.trans (takes.consumes more))
  obtain ⟨depth_q, limit_q⟩ := takes.depth_limit
  refine ⟨depth.trans depth_q.symm, limit.trans limit_q.symm, n + 1, ?_, ?_⟩
  · exact Prod.ext (getElem?_of_drop tokens).2.symm stop.symm
  · rw [(getElem?_of_drop first').2]
    exact further more

theorem peeks (same : ts.map Token.content = us.map Token.content) (h : Parallel ts us p p')
    (peeks : p.Peeks t q) :
    ∃ position q', p'.Peeks (t.moved position) q' ∧ Parallel ts us q q' := by
  have back := peeks.drain_eq
  obtain ⟨depth, limit⟩ := peeks.depth_limit
  obtain ⟨l, l₁, read, unread, -⟩ := peeks
  obtain ⟨position, q', takes', -, -⟩ :=
    h.takes same (q := { p with lexer := l }) ⟨l, read, rfl⟩
  obtain ⟨q', peeks'⟩ := takes'.exists_peeks
  obtain ⟨depth', limit'⟩ := peeks'.depth_limit
  refine ⟨position, q', peeks', ?_, ?_, ?_⟩
  · rw [depth, depth', h.depth]
  · rw [limit, limit', h.limit]
  · rw [back, peeks'.drain_eq]
    exact h.ahead

end Parallel

end Parallel

/-! ## Side by side through the rules -/

section Rules

variable {ts us : List Token} {p q p' : Parser} {e : Error}

theorem Parses.parallel {ph : Phrase} {tree : Subtree}
    (same : ts.map Token.content = us.map Token.content) (h : Parses ph p tree q)
    (start : Parallel ts us p p') : ∃ q', Parses ph p' tree q' ∧ Parallel ts us q q' := by
  induction h generalizing p' with
  | operand _ ih =>
    obtain ⟨q', inner, after⟩ := ih start
    exact ⟨q', .operand inner, after⟩
  | binary _ takes hop _ fits ihl ihr =>
    obtain ⟨q', left, behind⟩ := ihl start
    obtain ⟨position, r', takes', -, further⟩ := behind.takes same takes
    obtain ⟨s', right, after⟩ := ihr (further (Level.kind_ne_eof hop))
    exact ⟨s', .binary left takes' (by simpa using hop) right (after.limit ▸ fits), after⟩
  | chain _ peeks hop ih =>
    obtain ⟨q', inner, behind⟩ := ih start
    obtain ⟨position, r', peeks', after⟩ := behind.peeks same peeks
    exact ⟨r', .chain inner peeks' (by simpa using hop), after⟩
  | plain _ peeks other ih =>
    obtain ⟨q', inner, behind⟩ := ih start
    obtain ⟨position, r', peeks', after⟩ := behind.peeks same peeks
    exact ⟨r', .plain inner peeks' other, after⟩
  | store _ takes store fits ih =>
    obtain ⟨q', inner, behind⟩ := ih start
    obtain ⟨position, r', takes', -, further⟩ := behind.takes same takes
    have after := further (Token.kind_ne_eof_of_isKeyword store)
    exact ⟨r', .store inner takes' store (after.limit ▸ fits), after⟩
  | positive peeks plus _ ih =>
    obtain ⟨position, q', peeks', behind⟩ := start.peeks same peeks
    obtain ⟨r', inner, after⟩ := ih behind
    exact ⟨r', .positive peeks' plus inner, after⟩
  | negate takes minus _ fits ih =>
    obtain ⟨position, q', takes', -, further⟩ := start.takes same takes
    obtain ⟨r', inner, after⟩ := ih (further (by simp [minus]))
    exact ⟨r', .negate takes' minus inner (after.limit ▸ fits), after⟩
  | number takes number value =>
    obtain ⟨position, q', takes', -, further⟩ := start.takes same takes
    exact ⟨q', .number takes' number value, further (by simp [number])⟩
  | memory takes memory =>
    obtain ⟨position, q', takes', -, further⟩ := start.takes same takes
    exact ⟨q', .memory takes' memory, further (Token.kind_ne_eof_of_isKeyword memory)⟩
  | parens takes opens room _ leave closes closing ih =>
    obtain ⟨position, q', takes', -, further⟩ := start.takes same takes
    have inside := further (by simp [opens])
    obtain ⟨r', inner, behind⟩ := ih inside.enter
    obtain ⟨s', leave', outside⟩ := behind.leave leave
    obtain ⟨position', u', closes', -, after⟩ := outside.takes same closes
    exact ⟨u', .parens takes' opens (inside.room room) inner leave' closes' closing,
      after (by simp [closing])⟩

/-- A phrase that one parser rejects is rejected by the other one, and for its own token of the same
index. -/
theorem Rejects.parallel {c : Category} (same : ts.map Token.content = us.map Token.content)
    (h : Rejects c p e q) (start : Parallel ts us p p') :
    ∃ e' q', Rejects c p' e' q' ∧ FailsAlike ts us e e' := by
  induction h generalizing p' with
  | operand _ ih =>
    obtain ⟨e', q', rejects, alike⟩ := ih start
    exact ⟨e', q', .operand rejects, alike⟩
  | chainStop parses stops | storeStop parses stops =>
    obtain ⟨q', -, behind⟩ := parses.parallel same start
    exact absurd stops behind.not_stops
  | negationStop stops | factorStop stops => exact absurd stops start.not_stops
  | right parses takes hop _ ih =>
    obtain ⟨q', left, behind⟩ := parses.parallel same start
    obtain ⟨position, r', takes', -, further⟩ := behind.takes same takes
    obtain ⟨e', s', rejects, alike⟩ := ih (further (Level.kind_ne_eof hop))
    exact ⟨e', s', .right left takes' (by simpa using hop) rejects, alike⟩
  | binaryHigh parses takes hop parses' high =>
    obtain ⟨q', left, behind⟩ := parses.parallel same start
    obtain ⟨position, r', takes', counterpart, further⟩ := behind.takes same takes
    obtain ⟨s', right, after⟩ := parses'.parallel same (further (Level.kind_ne_eof hop))
    rw [← after.limit] at high ⊢
    exact ⟨_, s', .binaryHigh left takes' (by simpa using hop) right high, counterpart.failsAlike _⟩
  | stored _ ih =>
    obtain ⟨e', q', rejects, alike⟩ := ih start
    exact ⟨e', q', .stored rejects, alike⟩
  | notStore parses takes keyword store =>
    obtain ⟨q', inner, behind⟩ := parses.parallel same start
    obtain ⟨position, r', takes', counterpart, -⟩ := behind.takes same takes
    exact ⟨_, r', .notStore inner takes' keyword store, counterpart.failsAlike _⟩
  | storeHigh parses takes store high =>
    obtain ⟨q', inner, behind⟩ := parses.parallel same start
    obtain ⟨position, r', takes', counterpart, further⟩ := behind.takes same takes
    rw [← (further (Token.kind_ne_eof_of_isKeyword store)).limit] at high ⊢
    exact ⟨_, r', .storeHigh inner takes' store high, counterpart.failsAlike _⟩
  | positive peeks plus _ ih =>
    obtain ⟨position, q', peeks', behind⟩ := start.peeks same peeks
    obtain ⟨e', r', rejects, alike⟩ := ih behind
    exact ⟨e', r', .positive peeks' plus rejects, alike⟩
  | negated takes minus _ ih =>
    obtain ⟨position, q', takes', -, further⟩ := start.takes same takes
    obtain ⟨e', r', rejects, alike⟩ := ih (further (by simp [minus]))
    exact ⟨e', r', .negated takes' minus rejects, alike⟩
  | negateHigh takes minus parses high =>
    obtain ⟨position, q', takes', counterpart, further⟩ := start.takes same takes
    obtain ⟨r', inner, after⟩ := parses.parallel same (further (by simp [minus]))
    rw [← after.limit] at high ⊢
    exact ⟨_, r', .negateHigh takes' minus inner high, counterpart.failsAlike _⟩
  | literal takes number value =>
    obtain ⟨position, q', takes', counterpart, -⟩ := start.takes same takes
    exact ⟨_, q', .literal takes' number value, counterpart.failsAlike _⟩
  | notMemory takes keyword memory =>
    obtain ⟨position, q', takes', counterpart, -⟩ := start.takes same takes
    exact ⟨_, q', .notMemory takes' keyword memory, counterpart.failsAlike _⟩
  | deep takes opens full =>
    obtain ⟨position, q', takes', counterpart, further⟩ := start.takes same takes
    have inside := further (by simp [opens])
    rw [← inside.limit, ← inside.depth] at full
    rw [← inside.limit]
    exact ⟨_, q', .deep takes' opens full, counterpart.failsAlike _⟩
  | inside takes opens room _ ih =>
    obtain ⟨position, q', takes', -, further⟩ := start.takes same takes
    have inside := further (by simp [opens])
    obtain ⟨e', r', rejects, alike⟩ := ih inside.enter
    exact ⟨e', r', .inside takes' opens (inside.room room) rejects, alike⟩
  | closeStop takes opens _ parses leave stops =>
    obtain ⟨position, q', -, -, further⟩ := start.takes same takes
    obtain ⟨r', -, behind⟩ := parses.parallel same (further (by simp [opens])).enter
    obtain ⟨s', -, outside⟩ := behind.leave leave
    exact absurd stops outside.not_stops
  | unclosed takes opens room parses leave closes closing =>
    obtain ⟨position, q', takes', -, further⟩ := start.takes same takes
    have inside := further (by simp [opens])
    obtain ⟨r', inner, behind⟩ := parses.parallel same inside.enter
    obtain ⟨s', leave', outside⟩ := behind.leave leave
    obtain ⟨position', u', closes', counterpart, -⟩ := outside.takes same closes
    exact ⟨_, u', .unclosed takes' opens (inside.room room) inner leave' closes' closing,
      counterpart.failsAlike _⟩
  | operandMissing takes number keyword opens =>
    obtain ⟨position, q', takes', counterpart, -⟩ := start.takes same takes
    exact ⟨_, q', .operandMissing takes' number keyword opens, counterpart.failsAlike _⟩

/-- The parsers come to the same tree, or they fail alike. -/
theorem Parser.parse_parallel (same : ts.map Token.content = us.map Token.content)
    (start : Parallel ts us p p') :
    (∃ tree, p.parse.1 = .ok tree ∧ p'.parse.1 = .ok tree) ∨
    ∃ e e', p.parse.1 = .error e ∧ p'.parse.1 = .error e' ∧ FailsAlike ts us e e' := by
  rcases parsed : p.parse with ⟨e | tree, r⟩
  · rcases parse_eq_error_iff.1 parsed with
      rejects | ⟨tree, q, parses, stops | ⟨t, takes, more, rfl⟩⟩
    · obtain ⟨e', q', rejects', alike⟩ := rejects.parallel same start
      exact .inr ⟨e, e', rfl, by rw [parse_of_rejects rejects'], alike⟩
    · obtain ⟨q', -, behind⟩ := parses.parallel same start
      exact absurd stops behind.not_stops
    · obtain ⟨q', parses', behind⟩ := parses.parallel same start
      obtain ⟨position, r', takes', counterpart, -⟩ := behind.takes same takes
      exact .inr ⟨_, _, rfl, by rw [parse_of_takes parses' takes', if_neg (by simpa using more)],
        counterpart.failsAlike _⟩
  · obtain ⟨q, t, parses, takes, eof⟩ := parse_eq_ok_iff.1 parsed
    obtain ⟨q', parses', behind⟩ := parses.parallel same start
    obtain ⟨position, r', takes', -, -⟩ := behind.takes same takes
    exact .inl ⟨tree, rfl, by rw [parse_of_takes parses' takes', if_pos (by simpa using eof)]⟩

end Rules

/-! ## Whole texts -/

/-- Both outcomes are syntax errors with the same texts, at tokens of one index. -/
def RejectedAlike {α : Type} (ts us : List Token) (r r' : Except Error α) : Prop :=
  ∃ (i : Nat) (t u : Token) (expected found : String), ts[i]? = some t ∧ us[i]? = some u ∧
    r = .error (.unexpected t.position expected found) ∧
    r' = .error (.unexpected u.position expected found)

section Texts

variable {α : Type} {source source' : String} {ts us : List Token}

theorem FailsAlike.rejectedAlike {e e' : Error} (h : FailsAlike ts us e e') :
    RejectedAlike (α := α) ts us (.error e) (.error e') := by
  obtain ⟨t, position, x, ⟨i, there, there'⟩, rfl, rfl⟩ := h
  exact ⟨i, t, t.moved position, x.phrase, t.describe, there, there', rfl, rfl⟩

theorem parallel_ofString (limit : Nat) (h : tokenize source = .ok ts)
    (h' : tokenize source' = .ok us) :
    Parallel ts us { Parser.ofString source with limit := limit }
      { Parser.ofString source' with limit := limit } :=
  ⟨rfl, rfl, 0, tokenize_eq_ok.1 h, tokenize_eq_ok.1 h'⟩

/-- Whatever is done with the tree of a text is done with the same tree, or it is not done for
either text. -/
theorem parse_bind_parallel (h : tokenize source = .ok ts) (h' : tokenize source' = .ok us)
    (same : ts.map Token.content = us.map Token.content) (f : Expr → Except Error α) :
    (∃ e, parse source >>= f = f e ∧ parse source' >>= f = f e) ∨
    RejectedAlike ts us (parse source >>= f) (parse source' >>= f) := by
  rcases Parser.parse_parallel same (parallel_ofString 256 h h') with
    ⟨tree, parsed, parsed'⟩ | ⟨e, e', failed, failed', alike⟩
  · have accepted : parse source = .ok tree.expr := congrArg (·.map Subtree.expr) parsed
    have accepted' : parse source' = .ok tree.expr := congrArg (·.map Subtree.expr) parsed'
    rw [accepted, accepted']
    exact .inl ⟨tree.expr, rfl, rfl⟩
  · have rejected : parse source = .error e := congrArg (·.map Subtree.expr) failed
    have rejected' : parse source' = .error e' := congrArg (·.map Subtree.expr) failed'
    rw [rejected, rejected']
    exact .inr alike.rejectedAlike

/-- The kinds and the texts of the tokens decide everything: whatever the positions are, two texts
have the same tree or are rejected alike. So they have the same value, fault, code and program. -/
theorem tokens_decide_up_to_position (limit : Nat) (h : tokenize source = .ok ts)
    (h' : tokenize source' = .ok us)
    (same : ts.map (fun t => (t.kind, t.lexeme)) = us.map fun t => (t.kind, t.lexeme)) :
    let tree := { Parser.ofString source with limit := limit }.parse.1
    let tree' := { Parser.ofString source' with limit := limit }.parse.1
    ((∃ e, tree = .ok e ∧ tree' = .ok e) ∨ RejectedAlike ts us tree tree') ∧
    ((∃ v, calculate source = .ok v ∧ calculate source' = .ok v) ∨
      (∃ f, calculate source = .error (.arithmetic f) ∧
        calculate source' = .error (.arithmetic f)) ∨
      RejectedAlike ts us (calculate source) (calculate source')) ∧
    ((∃ code, compile source = .ok code ∧ compile source' = .ok code) ∨
      RejectedAlike ts us (compile source) (compile source')) ∧
    ((∃ text, compileProgram source = .ok text ∧ compileProgram source' = .ok text) ∨
      RejectedAlike ts us (compileProgram source) (compileProgram source')) := by
  intro tree tree'
  refine ⟨?_, ?_, ?_, ?_⟩
  · rcases Parser.parse_parallel same (parallel_ofString limit h h') with
      accepted | ⟨e, e', failed, failed', alike⟩
    · exact .inl accepted
    · refine .inr ?_
      unfold tree tree'
      rw [failed, failed']
      exact alike.rejectedAlike
  · rcases parse_bind_parallel h h' same (fun e => e.calculate.mapError .arithmetic) with
      ⟨e, value, value'⟩ | rejected
    · rw [show calculate source = _ from value, show calculate source' = _ from value']
      rcases e.calculate with f | v
      · exact .inr (.inl ⟨f, rfl, rfl⟩)
      · exact .inl ⟨v, rfl, rfl⟩
    · exact .inr (.inr rejected)
  · exact (parse_bind_parallel h h' same (fun e => .ok (Ewe.render (Ewe.block e)))).imp_left
      fun ⟨_, code, code'⟩ => ⟨_, code, code'⟩
  · exact (parse_bind_parallel h h' same (fun e => .ok (Ewe.render (Ewe.program e)))).imp_left
      fun ⟨_, text, text'⟩ => ⟨_, text, text'⟩

/-- A line feed moves the end of the input to another line, and the error that it is found in place
of a parenthesis with it. -/
theorem error_moves_with_line_feed :
    ∃ ts us, tokenize "(1" = .ok ts ∧ tokenize "(\n1" = .ok us ∧
      RejectedAlike ts us (Parser.ofString "(1").parse.1 (Parser.ofString "(\n1").parse.1 ∧
      RejectedAlike ts us (calculate "(1") (calculate "(\n1") := by
  let one (position : Position) : Token := { kind := .number, position, lexeme := some "1" }
  let opening : Token := { kind := .openParen, position := ⟨1, 1⟩ }
  have h : tokenize "(1" = .ok [opening, one ⟨1, 2⟩, { kind := .eof, position := ⟨1, 3⟩ }] := by
    decide +kernel
  have h' : tokenize "(\n1" = .ok [opening, one ⟨2, 1⟩, { kind := .eof, position := ⟨2, 2⟩ }] := by
    decide +kernel
  have failed : (Parser.ofString "(1").parse.1 =
      .error (.unexpected ⟨1, 3⟩ Expectation.closeParen.phrase "EOF") := by decide +kernel
  have value : calculate "(1" = .error (.unexpected ⟨1, 3⟩ Expectation.closeParen.phrase "EOF") := by
    decide +kernel
  obtain ⟨parsed, calculated, -⟩ := tokens_decide_up_to_position 256 h h' rfl
  refine ⟨_, _, h, h', parsed.resolve_left ?_, ?_⟩
  · rintro ⟨e, accepted, -⟩
    cases failed.symm.trans accepted
  · rcases calculated with ⟨v, accepted, -⟩ | ⟨f, fault, -⟩ | rejected
    · cases value.symm.trans accepted
    · cases value.symm.trans fault
    · exact rejected

end Texts

end Calculator
