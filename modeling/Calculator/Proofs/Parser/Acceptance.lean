import Calculator.Proofs.Numeral
import Calculator.Proofs.Parser.Adequacy

/-!
# What a parser accepts

A parser accepts a text exactly if its tokens are an expression of the grammar
that stays within the limit, and the tree is the one that the grammar gives.
Soundness is by induction on the rules of reading, completeness by induction on
the derivation: a phrase is read to its end because the token after it does not
go on with it.
-/

namespace Calculator

/-- A run of digits is read as a word exactly if its value fits. -/
theorem Token.value?_eq_some {t : Token} {text : String} {n : Nat} {v : Int64}
    (lexeme : t.lexeme = some text) (numeral : IsNumeral text.toList n) :
    t.value? = some v ↔ n ≤ 2 ^ 63 - 1 ∧ v = Int64.ofNat n := by
  obtain ⟨c, cs, hcs⟩ := List.exists_cons_of_ne_nil numeral.ne_nil
  have digit : c.isDigit := numeral.isDigit c (by simp [hcs])
  have plus : c ≠ '+' := by rintro rfl; simp at digit
  have minus : c ≠ '-' := by rintro rfl; simp at digit
  have natural : Numeral.natural? (c :: cs) = some n :=
    hcs ▸ Numeral.natural?_eq_some.2 ⟨numeral.ne_nil, numeral.isDigit, numeral.value⟩
  rw [value?, lexeme, Option.bind_some, hcs, Numeral.signed?, Numeral.integer?_eq plus minus,
    natural, Option.map_some, Option.bind_some, Numeral.word?_eq_some]
  constructor
  · intro value
    have small := v.toInt_lt
    have fits : n < 2 ^ 63 := by
      rw [value] at small
      exact Int.ofNat_lt.1 small
    refine ⟨by omega, Int64.toInt_inj.1 ?_⟩
    rw [value, Int64.toInt_ofNat_of_lt fits]
    rfl
  · rintro ⟨fits, rfl⟩
    rw [Int64.toInt_ofNat_of_lt (by omega)]
    rfl

namespace Parser

variable {p q r : Parser} {t : Token} {ts us rest : List Token} {stop : Option Error}

/-- The tokens ahead of the first state are `ts` and those ahead of the second. -/
def Consumes (p : Parser) (ts : List Token) (q : Parser) : Prop :=
  p.lexer.drain = (ts ++ q.lexer.drain.1, q.lexer.drain.2)

theorem Consumes.trans (h : p.Consumes ts q) (h' : q.Consumes us r) : p.Consumes (ts ++ us) r := by
  rw [Consumes] at *
  rw [h, h', List.append_assoc]

theorem Takes.consumes (h : p.Takes t q) (ht : t.kind ≠ .eof) : p.Consumes [t] q := by
  obtain ⟨l, read, rfl⟩ := h
  exact Lexer.drain_of_token read ht

theorem Peeks.drain_eq (h : p.Peeks t q) : q.lexer.drain = p.lexer.drain := by
  obtain ⟨l, r, read, unread, rfl⟩ := h
  obtain ⟨r', unread', again⟩ := Lexer.exists_unread read
  obtain rfl : r = r' := Except.ok.inj (unread.symm.trans unread')
  exact Lexer.drain_congr (again.trans read.symm)

theorem Peeks.consumes (h : p.Peeks t q) : p.Consumes [] q := by
  rw [Consumes, h.drain_eq]
  rfl

end Parser

/-! ## Soundness -/

/-- The grammar does not tell a chain that may go on from one that has ended. -/
def Phrase.category : Phrase → Category
  | .whole c => c
  | .begun level => .chain level

/-- The height that a parser counts is the height of the tree, and it is in
bounds. -/
theorem Parses.height {ph : Phrase} {p q : Parser} {tree : Subtree} (h : Parses ph p tree q) :
    tree.height = tree.expr.height ∧ tree.height ≤ max 1 p.limit := by
  induction h with
  | operand _ ih => exact ih
  | binary left takes _ right fits ihl ihr =>
    have := left.depth_limit
    have := takes.depth_limit
    have := right.depth_limit
    simp only [Expr.height]
    omega
  | chain _ _ _ ih | plain _ _ _ ih => exact ih
  | store inner takes _ fits ih =>
    have := inner.depth_limit
    have := takes.depth_limit
    simp only [Expr.height]
    omega
  | positive peeks _ _ ih => rwa [peeks.depth_limit.2] at ih
  | negate takes _ inner fits ih =>
    have := takes.depth_limit
    have := inner.depth_limit
    simp only [Expr.height]
    omega
  | number | memory => exact ⟨rfl, Nat.le_max_left 1 _⟩
  | parens takes _ _ _ _ _ _ ih =>
    rw [← takes.depth_limit.2]
    exact ih

/-- What was read is a phrase of the grammar, and its parentheses are within the
limit. -/
theorem Parses.derives {ph : Phrase} {p q : Parser} {tree : Subtree} (h : Parses ph p tree q) :
    ∃ ts, p.Consumes ts q ∧ ((∀ t ∈ ts, t.Lexical) → Derives ph.category ts tree.expr ∧
      (p.depth ≤ p.limit → p.depth + nesting ts ≤ p.limit)) := by
  induction h with
  | operand _ ih =>
    obtain ⟨ts, consumes, sound⟩ := ih
    refine ⟨ts, consumes, fun lexical => ?_⟩
    obtain ⟨derives, deep⟩ := sound lexical
    exact ⟨.operand derives, deep⟩
  | @binary _ _ _ _ _ _ t _ _ left takes hop right _ ihl ihr =>
    obtain ⟨ts, consumes, sound⟩ := ihl
    obtain ⟨us, consumes', sound'⟩ := ihr
    refine ⟨ts ++ ([t] ++ us),
      consumes.trans ((takes.consumes (Level.kind_ne_eof hop)).trans consumes'), fun lexical => ?_⟩
    obtain ⟨derives, deep⟩ := sound fun t ht => lexical t (by simp [ht])
    obtain ⟨derives', deep'⟩ := sound' fun t ht => lexical t (by simp [ht])
    obtain ⟨operator, level⟩ := Level.op?_eq_some.1 hop
    refine ⟨.binary derives operator level derives', fun room => ?_⟩
    have := left.depth_limit
    have := takes.depth_limit
    rw [derives.balanced.nesting_append, List.singleton_append,
      nesting_cons (Token.neutral_operator operator)]
    omega
  | chain _ peeks _ ih =>
    obtain ⟨ts, consumes, sound⟩ := ih
    exact ⟨ts, ts.append_nil ▸ consumes.trans peeks.consumes, sound⟩
  | plain _ peeks _ ih =>
    obtain ⟨ts, consumes, sound⟩ := ih
    refine ⟨ts, ts.append_nil ▸ consumes.trans peeks.consumes, fun lexical => ?_⟩
    obtain ⟨derives, deep⟩ := sound lexical
    exact ⟨.plain derives, deep⟩
  | @store _ _ _ t _ _ takes hs _ ih =>
    obtain ⟨ts, consumes, sound⟩ := ih
    refine ⟨ts ++ [t], consumes.trans (takes.consumes (Token.kind_ne_eof_of_isKeyword hs)),
      fun lexical => ?_⟩
    obtain ⟨derives, deep⟩ := sound fun t ht => lexical t (by simp [ht])
    refine ⟨.store derives hs, fun room => ?_⟩
    have := deep room
    rw [derives.balanced.nesting_append, nesting_cons (Token.neutral_keyword hs), nesting_nil]
    omega
  | positive peeks _ _ ih =>
    obtain ⟨ts, consumes, sound⟩ := ih
    refine ⟨ts, peeks.consumes.trans consumes, fun lexical => ?_⟩
    obtain ⟨derives, deep⟩ := sound lexical
    obtain ⟨depth, limit⟩ := peeks.depth_limit
    rw [depth, limit] at deep
    exact ⟨.positive derives, deep⟩
  | @negate _ _ _ t _ takes hm _ _ ih =>
    obtain ⟨ts, consumes, sound⟩ := ih
    refine ⟨[t] ++ ts, (takes.consumes (by simp [hm])).trans consumes, fun lexical => ?_⟩
    obtain ⟨derives, deep⟩ := sound fun t ht => lexical t (by simp [ht])
    obtain ⟨depth, limit⟩ := takes.depth_limit
    rw [depth, limit] at deep
    rw [List.singleton_append, nesting_cons (Token.neutral_operator hm)]
    exact ⟨.negate hm derives, deep⟩
  | @number _ _ t v takes hk hv =>
    refine ⟨[t], takes.consumes (by simp [hk]), fun lexical => ?_⟩
    obtain ⟨cs, ne, digits, lexeme⟩ := lexical t (List.mem_singleton_self t) hk
    have numeral : IsNumeral (String.ofList cs).toList (Nat.ofDigitChars 10 cs 0) := by
      rw [String.toList_ofList]
      exact ⟨ne, digits, rfl⟩
    obtain ⟨fits, rfl⟩ := (Token.value?_eq_some lexeme numeral).1 hv
    rw [nesting_cons (Token.neutral_number hk)]
    exact ⟨.number hk lexeme numeral fits, fun room => room⟩
  | @memory _ _ t takes hr =>
    refine ⟨[t], takes.consumes (Token.kind_ne_eof_of_isKeyword hr), fun _ => ?_⟩
    rw [nesting_cons (Token.neutral_keyword hr)]
    exact ⟨.memory hr, fun room => room⟩
  | @parens _ _ _ _ _ o c _ takes ho room inner leave closes hc ih =>
    obtain ⟨ts, consumes, sound⟩ := ih
    obtain rfl := Parser.leave_eq_ok leave
    refine ⟨[o] ++ ts ++ [c], ((takes.consumes (by simp [ho])).trans consumes).trans
      (closes.consumes (by simp [hc])), fun lexical => ?_⟩
    obtain ⟨derives, deep⟩ := sound fun t ht => lexical t (by simp [ht])
    refine ⟨.parens ho derives hc, fun _ => ?_⟩
    have := takes.depth_limit
    have := deep room
    rw [List.singleton_append, derives.balanced.nesting_parens ho hc]
    simp only [Parser.enter] at this
    omega

/-! ## Completeness -/

/-- The token does not go on with a phrase of the category that ends before it. -/
def Category.EndsBefore : Category → Token → Prop
  | .factor, _ | .negation, _ => True
  | .storable, t => t.kind ≠ .keyword
  | .term, t => t.kind ≠ .keyword ∧ Level.product.op? t = none
  | .expr, t => (t.kind ≠ .keyword ∧ Level.product.op? t = none) ∧ Level.sum.op? t = none

/-- A chain that may go on ends where its last operand does. -/
def Phrase.EndsBefore : Phrase → Token → Prop
  | .whole c, t => c.EndsBefore t
  | .begun level, t => level.operand.EndsBefore t

theorem Category.endsBefore_chain {level : Level} {t : Token} :
    (Category.chain level).EndsBefore t ↔ level.operand.EndsBefore t ∧ level.op? t = none := by
  cases level <;> exact Iff.rfl

theorem Level.endsBefore_operator {t : Token} {op : Op} (h : t.kind = .operator op) :
    op.level.operand.EndsBefore t := by
  cases op <;> simp [Op.level, operand, Category.EndsBefore, op?, Token.productOp?, h]

theorem Category.expr_endsBefore {t : Token} (h : t.kind = .closeParen ∨ t.kind = .eof) :
    Category.expr.EndsBefore t := by
  rcases h with h | h <;> simp [EndsBefore, Level.op?, Token.productOp?, Token.sumOp?, h]

/-- How a phrase is read in steps: a chain is left open. -/
def Category.phrase : Category → Phrase
  | .chain level => .begun level
  | c => .whole c

theorem Category.phrase_endsBefore {c : Category} {t : Token} (h : c.EndsBefore t) :
    c.phrase.EndsBefore t := by
  cases c with
  | chain level => exact (endsBefore_chain.1 h).1
  | storable | negation | factor => exact h

/-- The phrase is read as the expression, and what is ahead then is `ahead`. -/
def Phrase.Reads (ph : Phrase) (p : Parser) (e : Expr) (ahead : List Token × Option Error) : Prop :=
  ∃ q, Parses ph p ⟨e, e.height⟩ q ∧ q.lexer.drain = ahead

namespace Parser

variable {p : Parser} {t : Token} {ts : List Token} {stop : Option Error}

theorem exists_takes (ahead : p.lexer.drain = (t :: ts, stop)) (ht : t.kind ≠ .eof) :
    ∃ q, p.Takes t q ∧ q.lexer.drain = (ts, stop) := by
  obtain ⟨l, read, drain⟩ := Lexer.next_of_drain ahead
  exact ⟨{ p with lexer := l }, ⟨l, read, rfl⟩, drain ht⟩

theorem exists_peeks (ahead : p.lexer.drain = (t :: ts, stop)) :
    ∃ q, p.Peeks t q ∧ q.lexer.drain = (t :: ts, stop) := by
  obtain ⟨l, read, -⟩ := Lexer.next_of_drain ahead
  obtain ⟨q, peeks⟩ := Takes.exists_peeks (q := { p with lexer := l }) ⟨l, read, rfl⟩
  exact ⟨q, peeks, peeks.drain_eq.trans ahead⟩

end Parser

/-- A phrase is read to its end if the token behind it does not go on with it. -/
theorem Phrase.Reads.whole {c : Category} {p : Parser} {e : Expr} {t : Token} {rest : List Token}
    {stop : Option Error} (h : c.phrase.Reads p e (t :: rest, stop)) (ends : c.EndsBefore t) :
    (Phrase.whole c).Reads p e (t :: rest, stop) := by
  cases c with
  | chain level =>
    obtain ⟨q, parses, ahead⟩ := h
    obtain ⟨r, peeks, ahead⟩ := Parser.exists_peeks ahead
    exact ⟨r, .chain parses peeks (Category.endsBefore_chain.1 ends).2, ahead⟩
  | storable | negation | factor => exact h

theorem Derives.head_of_factor {ts : List Token} {e : Expr} (h : Derives .factor ts e) :
    ∃ t us, ts = t :: us ∧ t.kind ≠ .operator .sub := by
  cases h with
  | number ht => exact ⟨_, _, rfl, by simp [ht]⟩
  | memory ht => exact ⟨_, _, rfl, by simp [Token.kind_of_isKeyword ht]⟩
  | parens ho => exact ⟨_, _, rfl, by simp [ho]⟩

theorem Expr.height_pos (e : Expr) : 0 < e.height := by
  cases e <;> simp [height]

/-- A phrase of the grammar that stays within the limits is read. -/
theorem Derives.reads {c : Category} {ts : List Token} {e : Expr} (h : Derives c ts e) :
    ∀ (p : Parser) (t : Token) (rest : List Token) (stop : Option Error),
      p.lexer.drain = (ts ++ t :: rest, stop) → c.phrase.EndsBefore t →
      p.depth + nesting ts ≤ p.limit → e.height ≤ max 1 p.limit →
      c.phrase.Reads p e (t :: rest, stop) := by
  induction h with
  | operand _ ih =>
    intro p t rest stop ahead ends deep high
    have reads := ih p t rest stop ahead (Category.phrase_endsBefore ends) deep high
    obtain ⟨q, parses, ahead⟩ := reads.whole ends
    exact ⟨q, .operand parses, ahead⟩
  | @binary level op ts us o l r derives ho hop derives' ihl ihr =>
    intro p t rest stop ahead ends deep high
    subst hop
    have := l.height_pos
    simp only [Expr.height] at high
    rw [derives.balanced.nesting_append, nesting_cons (Token.neutral_operator ho)] at deep
    rw [List.append_assoc] at ahead
    -- the operator ends the left operand, and what ends the chain ends the right one
    obtain ⟨q, left, ahead⟩ := ihl p o (us ++ t :: rest) stop ahead (Level.endsBefore_operator ho)
      (by omega) (by omega)
    obtain ⟨r, takes, ahead⟩ := Parser.exists_takes ahead (by simp [ho])
    have := left.depth_limit
    have := takes.depth_limit
    have reads := ihr r t rest stop ahead (Category.phrase_endsBefore ends) (by omega) (by omega)
    obtain ⟨s, right, ahead⟩ := reads.whole ends
    have := right.depth_limit
    exact ⟨s, .binary left takes (Level.op?_eq_some.2 ⟨ho, rfl⟩) right (by simp only; omega), ahead⟩
  | plain _ ih =>
    intro p t rest stop ahead ends deep high
    obtain ⟨q, parses, ahead⟩ := ih p t rest stop ahead trivial deep high
    obtain ⟨r, peeks, ahead⟩ := Parser.exists_peeks ahead
    exact ⟨r, .plain parses peeks ends, ahead⟩
  | @store ts s e derives hs ih =>
    intro p t rest stop ahead ends deep high
    have := e.height_pos
    simp only [Expr.height] at high
    rw [List.append_assoc] at ahead
    rw [derives.balanced.nesting_append] at deep
    obtain ⟨q, parses, ahead⟩ := ih p s (t :: rest) stop ahead trivial (by omega) (by omega)
    obtain ⟨r, takes, ahead⟩ := Parser.exists_takes ahead (Token.kind_ne_eof_of_isKeyword hs)
    have := parses.depth_limit
    have := takes.depth_limit
    exact ⟨r, .store parses takes hs (by simp only; omega), ahead⟩
  | positive derives ih =>
    intro p t rest stop ahead ends deep high
    obtain ⟨s, us, rfl, hs⟩ := derives.head_of_factor
    obtain ⟨q, peeks, ahead⟩ := Parser.exists_peeks ahead
    obtain ⟨depth, limit⟩ := peeks.depth_limit
    rw [← depth, ← limit] at deep
    rw [← limit] at high
    obtain ⟨r, parses, ahead⟩ := ih q t rest stop ahead trivial deep high
    exact ⟨r, .positive peeks hs parses, ahead⟩
  | @negate ts m e hm derives ih =>
    intro p t rest stop ahead ends deep high
    have := e.height_pos
    simp only [Expr.height] at high
    rw [nesting_cons (Token.neutral_operator hm)] at deep
    obtain ⟨q, takes, ahead⟩ := Parser.exists_takes ahead (by simp [hm])
    have := takes.depth_limit
    obtain ⟨r, parses, ahead⟩ := ih q t rest stop ahead trivial (by omega) (by omega)
    have := parses.depth_limit
    exact ⟨r, .negate takes hm parses (by simp only; omega), ahead⟩
  | number ht lexeme numeral fits =>
    intro p t rest stop ahead ends deep high
    obtain ⟨q, takes, ahead⟩ := Parser.exists_takes ahead (by simp [ht])
    exact ⟨q, .number takes ht ((Token.value?_eq_some lexeme numeral).2 ⟨fits, rfl⟩), ahead⟩
  | memory ht =>
    intro p t rest stop ahead ends deep high
    obtain ⟨q, takes, ahead⟩ := Parser.exists_takes ahead (Token.kind_ne_eof_of_isKeyword ht)
    exact ⟨q, .memory takes ht, ahead⟩
  | @parens ts o c e ho derives hc ih =>
    intro p t rest stop ahead ends deep high
    rw [derives.balanced.nesting_parens ho hc] at deep
    rw [List.append_assoc] at ahead
    obtain ⟨q, takes, ahead⟩ := Parser.exists_takes ahead (by simp [ho])
    obtain ⟨depth, limit⟩ := takes.depth_limit
    have closing := Category.expr_endsBefore (.inl hc)
    have deeper : q.enter.depth + nesting ts ≤ q.enter.limit := by
      simp only [Parser.enter]
      omega
    have reads := ih q.enter c (t :: rest) stop ahead (Category.phrase_endsBefore closing) deeper
      (limit ▸ high)
    obtain ⟨r, inner, ahead⟩ := reads.whole closing
    obtain ⟨s, leave⟩ := Parser.exists_leave (p := r) (by simp [inner.depth_limit.1, Parser.enter])
    obtain rfl := Parser.leave_eq_ok leave
    obtain ⟨u, closes, ahead⟩ := Parser.exists_takes (p := s) ahead (by simp [hc])
    exact ⟨u, .parens takes ho (by omega) inner leave closes hc, ahead⟩

/-! ## Acceptance -/

section

variable {source : String} {limit : Nat}

theorem derives_of_parse {tree : Subtree} {r : Parser}
    (h : { Parser.ofString source with limit := limit }.parse = (.ok tree, r)) :
    ∃ ts eof, tokenize source = .ok (ts ++ [eof]) ∧ eof.kind = .eof ∧ Derives .expr ts tree.expr ∧
      nesting ts ≤ limit ∧ tree.expr.height ≤ max 1 limit := by
  obtain ⟨q, t, parses, ⟨l, read, -⟩, eof⟩ := Parser.parse_eq_ok_iff.1 h
  obtain ⟨ts, consumes, sound⟩ := parses.derives
  have tokens : (Lexer.ofString source).drain = (ts ++ [t], none) := by
    rw [Parser.Consumes, Lexer.drain_of_eof read eof] at consumes
    exact consumes
  have lexical : ∀ u ∈ ts, u.Lexical := fun u hu =>
    Lexer.lexical_drain (l := .ofString source) rfl u (by simp [tokens, hu])
  obtain ⟨derives, deep⟩ := sound lexical
  obtain ⟨height, high⟩ := parses.height
  have within : nesting ts ≤ limit := by simpa [Parser.ofString] using deep (Nat.zero_le _)
  exact ⟨ts, t, tokenize_eq_ok.2 tokens, eof, derives, within, height ▸ high⟩

theorem parse_of_derives {ts : List Token} {t : Token} {e : Expr}
    (tokens : tokenize source = .ok (ts ++ [t])) (eof : t.kind = .eof)
    (derives : Derives .expr ts e) (deep : nesting ts ≤ limit) (high : e.height ≤ max 1 limit) :
    { Parser.ofString source with limit := limit }.parse.1 = .ok ⟨e, e.height⟩ := by
  have ends := Category.expr_endsBefore (.inr eof)
  have reads := derives.reads { Parser.ofString source with limit := limit } t [] none
    (tokenize_eq_ok.1 tokens) (Category.phrase_endsBefore ends)
    (by simpa [Parser.ofString] using deep) high
  obtain ⟨q, parses, ahead⟩ := reads.whole ends
  obtain ⟨l, read, -⟩ := Lexer.next_of_drain ahead
  have takes : q.Takes t { q with lexer := l } := ⟨l, read, rfl⟩
  rw [Parser.parse_eq_ok_iff.2 ⟨q, t, parses, takes, eof⟩]

end

/-- A parser accepts exactly the expressions of the grammar within its limit, and
reads them as the trees that the grammar gives them. -/
theorem parse_eq_ok_iff_derives (source : String) (limit : Nat) (e : Expr) :
    { Parser.ofString source with limit := limit }.parse.1.map Subtree.expr = .ok e ↔
      ∃ ts eof, tokenize source = .ok (ts ++ [eof]) ∧ eof.kind = .eof ∧ Derives .expr ts e ∧
        nesting ts ≤ limit ∧ e.height ≤ max 1 limit := by
  constructor
  · intro h
    rcases hp : { Parser.ofString source with limit := limit }.parse with ⟨_ | tree, r⟩
    · simp [hp, Except.map] at h
    · obtain rfl : tree.expr = e := by simpa [hp, Except.map] using h
      exact derives_of_parse hp
  · rintro ⟨ts, t, tokens, eof, derives, deep, high⟩
    rw [parse_of_derives tokens eof derives deep high]
    rfl

end Calculator
