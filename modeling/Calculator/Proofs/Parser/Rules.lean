import Calculator.Proofs.Parser.Grammar
import Calculator.Proofs.Parser.Stream

/-!
# The rules a parser follows

`Parses` lists the ways in which a parser reads a phrase, and `Rejects` the ways
in which it gives up. One of the two happens from every state
(`parses_or_rejects`). No rule is about a breach: a token is taken back only
after it was read, and parentheses are left only after they were entered.
-/

namespace Calculator

def Level.op? : Level → Token → Option Op
  | .sum => Token.sumOp?
  | .product => Token.productOp?

theorem Level.op?_eq_some {level : Level} {t : Token} {op : Op} :
    level.op? t = some op ↔ t.kind = .operator op ∧ op.level = level := by
  cases level <;> simp only [op?, Token.sumOp?, Token.productOp?] <;> split <;>
    cases op <;> simp_all [Op.level]

namespace Parser

/-- The parser reads the token `t`. -/
def Takes (p : Parser) (t : Token) (q : Parser) : Prop :=
  ∃ l, p.lexer.next = (.ok t, l) ∧ q = { p with lexer := l }

/-- The parser reads the token `t` and takes it back. -/
def Peeks (p : Parser) (t : Token) (q : Parser) : Prop :=
  ∃ l r, p.lexer.next = (.ok t, l) ∧ l.unread = .ok r ∧ q = { p with lexer := r }

/-- The parser comes to a character that starts no token. -/
def Stops (p : Parser) (e : Error) (q : Parser) : Prop :=
  ∃ l, p.lexer.next = (.error e, l) ∧ q = { p with lexer := l }

end Parser

/-- What a parser is reading: a category, or a chain that may go on. -/
inductive Phrase where
  | whole (c : Category)
  | begun (level : Level)

/-- From the first state, the phrase is read as the tree and the second state is
reached. -/
inductive Parses : Phrase → Parser → Subtree → Parser → Prop where
  | operand {level : Level} {p q : Parser} {tree : Subtree} :
      Parses (.whole level.operand) p tree q → Parses (.begun level) p tree q
  | binary {level : Level} {op : Op} {p q r s : Parser} {t : Token} {left right : Subtree} :
      Parses (.begun level) p left q → q.Takes t r → level.op? t = some op →
      Parses (.whole level.operand) r right s → max left.height right.height < s.limit →
      Parses (.begun level) p
        ⟨.binary op left.expr right.expr, max left.height right.height + 1⟩ s
  | chain {level : Level} {p q r : Parser} {t : Token} {tree : Subtree} :
      Parses (.begun level) p tree q → q.Peeks t r → level.op? t = none →
      Parses (.whole (.chain level)) p tree r
  | plain {p q r : Parser} {t : Token} {tree : Subtree} :
      Parses (.whole .negation) p tree q → q.Peeks t r → t.kind ≠ .keyword →
      Parses (.whole .storable) p tree r
  | store {p q r : Parser} {t : Token} {tree : Subtree} :
      Parses (.whole .negation) p tree q → q.Takes t r → t.isKeyword "S" →
      tree.height < r.limit → Parses (.whole .storable) p ⟨.store tree.expr, tree.height + 1⟩ r
  | positive {p q r : Parser} {t : Token} {tree : Subtree} :
      p.Peeks t q → t.kind ≠ .operator .sub → Parses (.whole .factor) q tree r →
      Parses (.whole .negation) p tree r
  | negate {p q r : Parser} {t : Token} {tree : Subtree} :
      p.Takes t q → t.kind = .operator .sub → Parses (.whole .factor) q tree r →
      tree.height < r.limit → Parses (.whole .negation) p ⟨.negate tree.expr, tree.height + 1⟩ r
  | number {p q : Parser} {t : Token} {v : Int64} :
      p.Takes t q → t.kind = .number → t.value? = some v →
      Parses (.whole .factor) p ⟨.number v, 1⟩ q
  | memory {p q : Parser} {t : Token} :
      p.Takes t q → t.isKeyword "R" → Parses (.whole .factor) p ⟨.memory, 1⟩ q
  | parens {p q r s u : Parser} {o c : Token} {tree : Subtree} :
      p.Takes o q → o.kind = .openParen → q.depth < q.limit → Parses (.whole .expr) q.enter tree r →
      r.leave = .ok s → s.Takes c u → c.kind = .closeParen → Parses (.whole .factor) p tree u

/-- From the first state, reading the category fails with the error in the second
state. -/
inductive Rejects : Category → Parser → Error → Parser → Prop where
  | operand {level : Level} {p q : Parser} {e : Error} :
      Rejects level.operand p e q → Rejects (.chain level) p e q
  | chainStop {level : Level} {p q r : Parser} {left : Subtree} {e : Error} :
      Parses (.begun level) p left q → q.Stops e r → Rejects (.chain level) p e r
  | right {level : Level} {op : Op} {p q r s : Parser} {t : Token} {left : Subtree} {e : Error} :
      Parses (.begun level) p left q → q.Takes t r → level.op? t = some op →
      Rejects level.operand r e s → Rejects (.chain level) p e s
  | binaryHigh {level : Level} {op : Op} {p q r s : Parser} {t : Token} {left right : Subtree} :
      Parses (.begun level) p left q → q.Takes t r → level.op? t = some op →
      Parses (.whole level.operand) r right s → s.limit ≤ max left.height right.height →
      Rejects (.chain level) p (t.unexpected (.nesting s.limit)) s
  | stored {p q : Parser} {e : Error} : Rejects .negation p e q → Rejects .storable p e q
  | storeStop {p q r : Parser} {tree : Subtree} {e : Error} :
      Parses (.whole .negation) p tree q → q.Stops e r → Rejects .storable p e r
  | notStore {p q r : Parser} {t : Token} {tree : Subtree} :
      Parses (.whole .negation) p tree q → q.Takes t r → t.kind = .keyword → ¬t.isKeyword "S" →
      Rejects .storable p (t.unexpected .store) r
  | storeHigh {p q r : Parser} {t : Token} {tree : Subtree} :
      Parses (.whole .negation) p tree q → q.Takes t r → t.isKeyword "S" →
      r.limit ≤ tree.height → Rejects .storable p (t.unexpected (.nesting r.limit)) r
  | negationStop {p q : Parser} {e : Error} : p.Stops e q → Rejects .negation p e q
  | positive {p q r : Parser} {t : Token} {e : Error} :
      p.Peeks t q → t.kind ≠ .operator .sub → Rejects .factor q e r → Rejects .negation p e r
  | negated {p q r : Parser} {t : Token} {e : Error} :
      p.Takes t q → t.kind = .operator .sub → Rejects .factor q e r → Rejects .negation p e r
  | negateHigh {p q r : Parser} {t : Token} {tree : Subtree} :
      p.Takes t q → t.kind = .operator .sub → Parses (.whole .factor) q tree r →
      r.limit ≤ tree.height → Rejects .negation p (t.unexpected (.nesting r.limit)) r
  | factorStop {p q : Parser} {e : Error} : p.Stops e q → Rejects .factor p e q
  | literal {p q : Parser} {t : Token} :
      p.Takes t q → t.kind = .number → t.value? = none →
      Rejects .factor p (t.unexpected .literal) q
  | notMemory {p q : Parser} {t : Token} :
      p.Takes t q → t.kind = .keyword → ¬t.isKeyword "R" →
      Rejects .factor p (t.unexpected .memory) q
  | deep {p q : Parser} {o : Token} :
      p.Takes o q → o.kind = .openParen → q.limit ≤ q.depth →
      Rejects .factor p (o.unexpected (.nesting q.limit)) q
  | inside {p q r : Parser} {o : Token} {e : Error} :
      p.Takes o q → o.kind = .openParen → q.depth < q.limit → Rejects .expr q.enter e r →
      Rejects .factor p e r
  | closeStop {p q r s u : Parser} {o : Token} {tree : Subtree} {e : Error} :
      p.Takes o q → o.kind = .openParen → q.depth < q.limit → Parses (.whole .expr) q.enter tree r →
      r.leave = .ok s → s.Stops e u → Rejects .factor p e u
  | unclosed {p q r s u : Parser} {o c : Token} {tree : Subtree} :
      p.Takes o q → o.kind = .openParen → q.depth < q.limit → Parses (.whole .expr) q.enter tree r →
      r.leave = .ok s → s.Takes c u → c.kind ≠ .closeParen →
      Rejects .factor p (c.unexpected .closeParen) u
  | operandMissing {p q : Parser} {t : Token} :
      p.Takes t q → t.kind ≠ .number → t.kind ≠ .keyword → t.kind ≠ .openParen →
      Rejects .factor p (t.unexpected .operand) q

/-! ## What reading does to the state -/

namespace Parser

variable {p q : Parser} {t : Token} {e : Error}

theorem stops_or_takes (p : Parser) : (∃ e q, p.Stops e q) ∨ ∃ t q, p.Takes t q := by
  rcases h : p.lexer.next with ⟨e | t, l⟩
  · exact .inl ⟨e, _, l, h, rfl⟩
  · exact .inr ⟨t, _, l, h, rfl⟩

theorem Takes.exists_peeks (h : p.Takes t q) : ∃ r, p.Peeks t r := by
  obtain ⟨l, next, rfl⟩ := h
  obtain ⟨r, unread, -⟩ := Lexer.exists_unread next
  exact ⟨_, l, r, next, unread, rfl⟩

theorem Takes.depth_limit (h : p.Takes t q) : q.depth = p.depth ∧ q.limit = p.limit := by
  obtain ⟨l, -, rfl⟩ := h
  exact ⟨rfl, rfl⟩

theorem Peeks.depth_limit (h : p.Peeks t q) : q.depth = p.depth ∧ q.limit = p.limit := by
  obtain ⟨l, r, -, -, rfl⟩ := h
  exact ⟨rfl, rfl⟩

theorem Stops.depth_limit (h : p.Stops e q) : q.depth = p.depth ∧ q.limit = p.limit := by
  obtain ⟨l, -, rfl⟩ := h
  exact ⟨rfl, rfl⟩

theorem Takes.size_lt (h : p.Takes t q) (ht : t.kind ≠ .eof) : q.size < p.size := by
  obtain ⟨l, next, rfl⟩ := h
  exact Lexer.size_next_lt next ht

theorem Peeks.size_le (h : p.Peeks t q) : q.size ≤ p.size := by
  obtain ⟨l, r, next, unread, rfl⟩ := h
  exact Lexer.size_unread next unread

theorem leave_eq_ok (h : p.leave = .ok q) : p = q.enter := by
  obtain ⟨l, depth, limit⟩ := p
  cases depth with
  | zero => simp [leave] at h
  | succ d =>
    obtain rfl := Except.ok.inj h
    rfl

theorem exists_leave (h : 0 < p.depth) : ∃ q, p.leave = .ok q := by
  obtain ⟨d, hd⟩ := Nat.exists_eq_succ_of_ne_zero (Nat.ne_of_gt h)
  exact ⟨{ p with depth := d }, by rw [leave, hd]⟩

end Parser

/-- Reading a phrase leaves the depth and the limit as they were. -/
theorem Parses.depth_limit {ph : Phrase} {p q : Parser} {tree : Subtree} (h : Parses ph p tree q) :
    q.depth = p.depth ∧ q.limit = p.limit := by
  induction h with
  | operand _ ih => exact ih
  | binary _ ht _ _ _ ihl ihr =>
    have := ht.depth_limit
    omega
  | chain _ hp _ ih | plain _ hp _ ih =>
    have := hp.depth_limit
    omega
  | store _ ht _ _ ih =>
    have := ht.depth_limit
    omega
  | positive hp _ _ ih =>
    have := hp.depth_limit
    omega
  | negate ht _ _ _ ih =>
    have := ht.depth_limit
    omega
  | number ht | memory ht => exact ht.depth_limit
  | parens ho _ _ _ hl hc _ ih =>
    have := ho.depth_limit
    have := hc.depth_limit
    obtain rfl := Parser.leave_eq_ok hl
    simp only [Parser.enter] at ih
    omega

theorem Level.kind_ne_eof {level : Level} {t : Token} {op : Op} (h : level.op? t = some op) :
    t.kind ≠ .eof := by
  rw [(Level.op?_eq_some.1 h).1]
  simp

theorem Token.kind_ne_eof_of_isKeyword {t : Token} {word : String} (h : t.isKeyword word) :
    t.kind ≠ .eof := by
  simp [Token.kind_of_isKeyword h]

/-- Reading a phrase uses up tokens. -/
theorem Parses.size_lt {ph : Phrase} {p q : Parser} {tree : Subtree} (h : Parses ph p tree q) :
    q.size < p.size := by
  induction h with
  | operand _ ih => exact ih
  | binary _ ht hop _ _ ihl ihr =>
    have := ht.size_lt (Level.kind_ne_eof hop)
    omega
  | chain _ hp _ ih | plain _ hp _ ih =>
    have := hp.size_le
    omega
  | store _ ht hs _ ih =>
    have := ht.size_lt (Token.kind_ne_eof_of_isKeyword hs)
    omega
  | positive hp _ _ ih =>
    have := hp.size_le
    omega
  | negate ht hm _ _ ih =>
    have := ht.size_lt (by simp [hm])
    omega
  | number ht hn => exact ht.size_lt (by simp [hn])
  | memory ht hr => exact ht.size_lt (Token.kind_ne_eof_of_isKeyword hr)
  | parens ho hk _ _ hl hc hk' ih =>
    have := ho.size_lt (by simp [hk])
    have := hc.size_lt (by simp [hk'])
    have := Parser.size_leave hl
    simp only [Parser.size_enter] at ih
    omega

/-! ## What a text is rejected for -/

/-- The error is about the text: a character or a token that does not fit. -/
def Error.IsRejection : Error → Prop
  | .unrecognized _ _ | .unexpected _ _ _ => True
  | .arithmetic _ | .breach _ => False

/-- A lexer fails only at a character that starts no token. -/
theorem Lexer.unrecognized_of_next {l r : Lexer} {e : Error} (h : l.next = (.error e, r)) :
    ∃ position c, e = .unrecognized position c := by
  simp only [next] at h
  split at h
  · simp at h
  · split at h
    · simp at h
    · next hs =>
      obtain ⟨rfl, rfl⟩ := by simpa using h
      simp only [scan] at hs
      split at hs
      · simp at hs
      · split at hs
        · obtain ⟨rfl, -⟩ := by simpa using hs
          exact ⟨_, _, rfl⟩
        · simp at hs

theorem Parser.Stops.unrecognized {p q : Parser} {e : Error} (h : p.Stops e q) :
    ∃ position c, e = .unrecognized position c := by
  obtain ⟨l, read, -⟩ := h
  exact Lexer.unrecognized_of_next read

theorem Parser.Stops.isRejection {p q : Parser} {e : Error} (h : p.Stops e q) : e.IsRejection := by
  obtain ⟨_, _, rfl⟩ := h.unrecognized
  trivial

theorem Rejects.isRejection {c : Category} {p q : Parser} {e : Error} (h : Rejects c p e q) :
    e.IsRejection := by
  induction h with
  | operand _ ih | right _ _ _ _ ih | stored _ ih => exact ih
  | positive _ _ _ ih | negated _ _ _ ih | inside _ _ _ _ ih => exact ih
  | chainStop _ stops | storeStop _ stops | negationStop stops => exact stops.isRejection
  | factorStop stops | closeStop _ _ _ _ _ stops => exact stops.isRejection
  | binaryHigh | notStore | storeHigh | negateHigh | literal => trivial
  | notMemory | deep | unclosed | operandMissing => trivial

/-- An expression that does not start with a sign fails as its first factor does. -/
theorem Rejects.expr_of_factor {p q r : Parser} {t : Token} {e : Error} (takes : p.Takes t q)
    (plus : t.kind ≠ .operator .sub) (factor : ∀ p', p'.Takes t q → Rejects .factor p' e r) :
    Rejects .expr p e r := by
  obtain ⟨l, read, rfl⟩ := takes
  obtain ⟨l', unread, again⟩ := Lexer.exists_unread read
  have peeks : p.Peeks t { p with lexer := l' } := ⟨l, l', read, unread, rfl⟩
  exact .operand (.operand (.stored (.positive peeks plus (factor _ ⟨l, again, rfl⟩))))

/-! ## Every state leads somewhere -/

/-- Reading the category from the state comes to an end by the rules. -/
def Decided (c : Category) (p : Parser) : Prop :=
  (∃ tree q, Parses (.whole c) p tree q) ∨ ∃ e q, Rejects c p e q

namespace Decided

variable {n : Nat}

theorem factor (inner : ∀ p : Parser, p.size < n → Decided .expr p) {p : Parser} (hp : p.size ≤ n) :
    Decided .factor p := by
  rcases p.stops_or_takes with ⟨e, q, stops⟩ | ⟨t, q, takes⟩
  · exact .inr ⟨e, q, .factorStop stops⟩
  by_cases number : t.kind = .number
  · rcases value : t.value? with _ | v
    · exact .inr ⟨_, q, .literal takes number value⟩
    · exact .inl ⟨_, q, .number takes number value⟩
  by_cases keyword : t.kind = .keyword
  · by_cases memory : t.isKeyword "R"
    · exact .inl ⟨_, q, .memory takes memory⟩
    · exact .inr ⟨_, q, .notMemory takes keyword memory⟩
  by_cases opening : t.kind = .openParen
  · by_cases deep : q.limit ≤ q.depth
    · exact .inr ⟨_, q, .deep takes opening deep⟩
    have room : q.depth < q.limit := by omega
    have shorter : q.enter.size < n := by
      have := takes.size_lt (by simp [opening])
      rw [Parser.size_enter]
      omega
    rcases inner q.enter shorter with ⟨tree, r, parses⟩ | ⟨e, r, rejects⟩
    · -- the parenthesis that was entered is still counted
      have depth : 0 < r.depth := by simp [parses.depth_limit.1, Parser.enter]
      obtain ⟨s, leave⟩ := Parser.exists_leave depth
      rcases s.stops_or_takes with ⟨e, u, stops⟩ | ⟨c, u, closes⟩
      · exact .inr ⟨e, u, .closeStop takes opening room parses leave stops⟩
      by_cases closing : c.kind = .closeParen
      · exact .inl ⟨tree, u, .parens takes opening room parses leave closes closing⟩
      · exact .inr ⟨_, u, .unclosed takes opening room parses leave closes closing⟩
    · exact .inr ⟨e, r, .inside takes opening room rejects⟩
  · exact .inr ⟨_, q, .operandMissing takes number keyword opening⟩

theorem negation (factor : ∀ p : Parser, p.size ≤ n → Decided .factor p) {p : Parser}
    (hp : p.size ≤ n) : Decided .negation p := by
  rcases p.stops_or_takes with ⟨e, q, stops⟩ | ⟨t, q, takes⟩
  · exact .inr ⟨e, q, .negationStop stops⟩
  by_cases minus : t.kind = .operator .sub
  · have shorter := takes.size_lt (by simp [minus])
    rcases factor q (by omega) with ⟨tree, r, parses⟩ | ⟨e, r, rejects⟩
    · by_cases high : r.limit ≤ tree.height
      · exact .inr ⟨_, r, .negateHigh takes minus parses high⟩
      · exact .inl ⟨_, r, .negate takes minus parses (by omega)⟩
    · exact .inr ⟨e, r, .negated takes minus rejects⟩
  · obtain ⟨q, peeks⟩ := takes.exists_peeks
    have shorter := peeks.size_le
    rcases factor q (by omega) with ⟨tree, r, parses⟩ | ⟨e, r, rejects⟩
    · exact .inl ⟨tree, r, .positive peeks minus parses⟩
    · exact .inr ⟨e, r, .positive peeks minus rejects⟩

theorem storable {p : Parser} (negation : Decided .negation p) : Decided .storable p := by
  rcases negation with ⟨tree, q, parses⟩ | ⟨e, q, rejects⟩
  · rcases q.stops_or_takes with ⟨e, r, stops⟩ | ⟨t, r, takes⟩
    · exact .inr ⟨e, r, .storeStop parses stops⟩
    by_cases keyword : t.kind = .keyword
    · by_cases store : t.isKeyword "S"
      · by_cases high : r.limit ≤ tree.height
        · exact .inr ⟨_, r, .storeHigh parses takes store high⟩
        · exact .inl ⟨_, r, .store parses takes store (by omega)⟩
      · exact .inr ⟨_, r, .notStore parses takes keyword store⟩
    · obtain ⟨r, peeks⟩ := takes.exists_peeks
      exact .inl ⟨tree, r, .plain parses peeks keyword⟩
  · exact .inr ⟨e, q, .stored rejects⟩

/-- A chain that has begun is read to its end, by induction on what is left. -/
theorem begun {level : Level} {p q : Parser} {left : Subtree} (hp : p.size ≤ n)
    (operand : ∀ p : Parser, p.size ≤ n → Decided level.operand p)
    (parses : Parses (.begun level) p left q) : Decided (.chain level) p := by
  induction hq : q.size using Nat.strongRecOn generalizing q left with
  | ind m ih =>
    subst hq
    have smaller := parses.size_lt
    rcases q.stops_or_takes with ⟨e, r, stops⟩ | ⟨t, r, takes⟩
    · exact .inr ⟨e, r, .chainStop parses stops⟩
    rcases hop : level.op? t with _ | op
    · obtain ⟨r, peeks⟩ := takes.exists_peeks
      exact .inl ⟨left, r, .chain parses peeks hop⟩
    have shorter := takes.size_lt (Level.kind_ne_eof hop)
    rcases operand r (by omega) with ⟨right, s, parses'⟩ | ⟨e, s, rejects⟩
    · by_cases high : s.limit ≤ max left.height right.height
      · exact .inr ⟨_, s, .binaryHigh parses takes hop parses' high⟩
      · exact ih s.size (Nat.lt_trans parses'.size_lt shorter)
          (.binary parses takes hop parses' (by omega)) rfl
    · exact .inr ⟨e, s, .right parses takes hop rejects⟩

theorem chain {level : Level} (operand : ∀ p : Parser, p.size ≤ n → Decided level.operand p)
    {p : Parser} (hp : p.size ≤ n) : Decided (.chain level) p := by
  rcases operand p hp with ⟨tree, q, parses⟩ | ⟨e, q, rejects⟩
  · exact begun hp operand (.operand parses)
  · exact .inr ⟨e, q, .operand rejects⟩

end Decided

/-- The categories are decided in the order in which they are built, and an
expression in parentheses is shorter than the factor it stands in. -/
theorem parses_or_rejects (c : Category) (p : Parser) :
    (∃ tree q, Parses (.whole c) p tree q) ∨ ∃ e q, Rejects c p e q := by
  change Decided c p
  induction hn : p.size using Nat.strongRecOn generalizing c p with
  | ind n ih =>
    have hp : p.size ≤ n := Nat.le_of_eq hn
    have factor (p : Parser) (hp : p.size ≤ n) : Decided .factor p :=
      .factor (fun p hp => ih p.size hp .expr p rfl) hp
    have negation (p : Parser) (hp : p.size ≤ n) : Decided .negation p := .negation factor hp
    have storable (p : Parser) (hp : p.size ≤ n) : Decided .storable p := .storable (negation p hp)
    have term (p : Parser) (hp : p.size ≤ n) : Decided .term p :=
      .chain storable hp
    cases c with
    | chain level =>
      cases level with
      | sum => exact Decided.chain term hp
      | product => exact term p hp
    | storable => exact storable p hp
    | negation => exact negation p hp
    | factor => exact factor p hp

end Calculator
