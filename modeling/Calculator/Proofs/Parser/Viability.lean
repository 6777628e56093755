import Calculator.Proofs.Parser.Acceptance

/-!
# Rejections blame the first token that does not fit

What may follow some tokens depends on little: whether an operand must come or
one has just ended, and how many parentheses are open. `Outlook.step` follows
these two through a list of tokens, and a sentence of the grammar never leaves
it stuck. A parser rejects exactly the token on which it gets stuck, so no
sentence goes on with that token, while the tokens before it can always be
completed to a sentence.
-/

namespace Calculator

/-! ## What may come next -/

inductive Stage where
  /-- An operand must come, and a minus may stand in front of it. -/
  | operand
  /-- An operand must come behind a minus. -/
  | factor
  /-- An operand has ended. It may be stored unless it is a store already. -/
  | ended (storable : Bool)
  deriving DecidableEq, Repr

structure Outlook where
  stage : Stage
  /-- The parentheses that are open. -/
  depth : Nat
  deriving DecidableEq, Repr

namespace Outlook

/-- The outlook behind the first token of an operand. -/
def begin (depth : Nat) (t : Token) : Option Outlook :=
  match t.kind with
  | .number => if t.value?.isSome then some ⟨.ended true, depth⟩ else none
  | .keyword => if t.isKeyword "R" then some ⟨.ended true, depth⟩ else none
  | .openParen => some ⟨.operand, depth + 1⟩
  | _ => none

/-- The outlook behind one more token, if it may come next. -/
def step (o : Outlook) (t : Token) : Option Outlook :=
  match o.stage with
  | .operand => if t.kind = .operator .sub then some ⟨.factor, o.depth⟩ else begin o.depth t
  | .factor => begin o.depth t
  | .ended storable =>
    match t.kind with
    | .operator _ => some ⟨.operand, o.depth⟩
    | .keyword => if storable && t.isKeyword "S" then some ⟨.ended false, o.depth⟩ else none
    | .closeParen => if 0 < o.depth then some ⟨.ended true, o.depth - 1⟩ else none
    | .eof => if o.depth = 0 then some o else none
    | _ => none

def run (o : Outlook) (ts : List Token) : Option Outlook := ts.foldlM step o

variable {d : Nat} {s : Bool} {t : Token} {ts us : List Token}

@[simp] theorem run_nil (o : Outlook) : o.run [] = some o := rfl

@[simp] theorem run_cons (o : Outlook) (t : Token) (ts : List Token) :
    o.run (t :: ts) = (o.step t).bind fun o => o.run ts := rfl

@[simp] theorem run_append (o : Outlook) (ts us : List Token) :
    o.run (ts ++ us) = (o.run ts).bind fun o => o.run us := List.foldlM_append

/-- Tokens that may not come make all that begins with them impossible. -/
theorem run_eq_none_mono {o : Outlook} (h : ts <+: us) (stuck : o.run ts = none) :
    o.run us = none := by
  obtain ⟨vs, rfl⟩ := h
  rw [run_append, stuck, Option.bind_none]

theorem step_minus (h : t.kind = .operator .sub) : step ⟨.operand, d⟩ t = some ⟨.factor, d⟩ :=
  if_pos h

theorem step_operand (h : t.kind ≠ .operator .sub) : step ⟨.operand, d⟩ t = step ⟨.factor, d⟩ t :=
  if_neg h

theorem step_number {v : Int64} (h : t.kind = .number) (value : t.value? = some v) :
    step ⟨.factor, d⟩ t = some ⟨.ended true, d⟩ := by
  simp [step, begin, h, value]

theorem step_memory (h : t.isKeyword "R") : step ⟨.factor, d⟩ t = some ⟨.ended true, d⟩ := by
  simp [step, begin, Token.kind_of_isKeyword h, h]

theorem step_openParen (h : t.kind = .openParen) :
    step ⟨.factor, d⟩ t = some ⟨.operand, d + 1⟩ := by
  simp [step, begin, h]

theorem step_operator {op : Op} (h : t.kind = .operator op) :
    step ⟨.ended s, d⟩ t = some ⟨.operand, d⟩ := by
  simp [step, h]

theorem step_store (h : t.isKeyword "S") :
    step ⟨.ended true, d⟩ t = some ⟨.ended false, d⟩ := by
  simp [step, Token.kind_of_isKeyword h, h]

theorem step_closeParen (h : t.kind = .closeParen) :
    step ⟨.ended s, d + 1⟩ t = some ⟨.ended true, d⟩ := by
  simp [step, h]

theorem step_eof (h : t.kind = .eof) : step ⟨.ended s, 0⟩ t = some ⟨.ended s, 0⟩ := by
  simp [step, h]

/-- An operator, a store and the right end are all that may follow an operand. -/
theorem step_ended_eq_none (operator : ∀ op, t.kind ≠ .operator op)
    (store : s = true → t.kind ≠ .keyword) (close : t.kind = .closeParen → d = 0)
    (eof : t.kind = .eof → 0 < d) : step ⟨.ended s, d⟩ t = none := by
  cases kind : t.kind with
  | operator op => exact absurd kind (operator op)
  | keyword =>
    cases s with
    | true => exact absurd kind (store rfl)
    | false => simp [step, kind]
  | closeParen => simp [step, kind, close kind]
  | eof => simp [step, kind, Nat.ne_of_gt (eof kind)]
  | identifier | number | openParen => simp [step, kind]

end Outlook

open Outlook

/-- From the stage on, the tokens are a phrase that closes what it opens, and `s`
says whether it may be stored. -/
def Passes (stage : Stage) (ts : List Token) (s : Bool) : Prop :=
  ∀ d, run ⟨stage, d⟩ ts = some ⟨.ended s, d⟩

namespace Passes

variable {ts us : List Token} {t o c : Token} {s s' : Bool}

theorem binary {op : Op} (left : Passes .operand ts s) (h : t.kind = .operator op)
    (right : Passes .operand us s') : Passes .operand (ts ++ t :: us) s' := by
  intro d
  simp [left d, step_operator h, right d]

theorem store (operand : Passes .operand ts true) (h : t.isKeyword "S") :
    Passes .operand (ts ++ [t]) false := by
  intro d
  simp [operand d, step_store h]

/-- What follows a minus may also stand without one. -/
theorem positive (factor : Passes .factor ts s) : Passes .operand ts s := by
  intro d
  have run := factor d
  cases ts with
  | nil => simp at run
  | cons t ts =>
    have head : t.kind ≠ .operator .sub := by
      intro minus
      simp [step, begin, minus] at run
    rwa [run_cons, step_operand head, ← run_cons]

theorem negate (h : t.kind = .operator .sub) (factor : Passes .factor ts s) :
    Passes .operand (t :: ts) s := by
  intro d
  simp [step_minus h, factor d]

theorem number {v : Int64} (h : t.kind = .number) (value : t.value? = some v) :
    Passes .factor [t] true := by
  intro d
  simp [step_number h value]

theorem memory (h : t.isKeyword "R") : Passes .factor [t] true := by
  intro d
  simp [step_memory h]

theorem parens (ho : o.kind = .openParen) (inner : Passes .operand ts s)
    (hc : c.kind = .closeParen) : Passes .factor (o :: ts ++ [c]) true := by
  intro d
  simp [step_openParen ho, inner (d + 1), step_closeParen hc]

end Passes

/-- Where a phrase of the category begins. -/
def Category.start : Category → Stage
  | .factor => .factor
  | _ => .operand

@[simp] theorem Category.start_chain (level : Level) :
    (Category.chain level).start = .operand := rfl

@[simp] theorem Level.start_operand (level : Level) : level.operand.start = .operand := by
  cases level <;> rfl

theorem Derives.passes {c : Category} {ts : List Token} {e : Expr} (h : Derives c ts e) :
    ∃ s, Passes c.start ts s ∧ (c = .negation ∨ c = .factor → s = true) := by
  induction h with
  | @operand level _ _ _ ih =>
    obtain ⟨s, passes, -⟩ := ih
    rw [level.start_operand] at passes
    exact ⟨s, passes, by simp⟩
  | @binary level _ _ _ _ _ _ _ operator _ _ ihl ihr =>
    obtain ⟨_, left, -⟩ := ihl
    obtain ⟨s, right, -⟩ := ihr
    exact ⟨s, left.binary operator (level.start_operand ▸ right), by simp⟩
  | plain _ ih =>
    obtain ⟨s, passes, -⟩ := ih
    exact ⟨s, passes, by simp⟩
  | store _ store ih =>
    obtain ⟨s, passes, storable⟩ := ih
    obtain rfl := storable (.inl rfl)
    exact ⟨false, passes.store store, by simp⟩
  | positive _ ih =>
    obtain ⟨s, passes, storable⟩ := ih
    exact ⟨s, passes.positive, fun _ => storable (.inr rfl)⟩
  | negate minus _ ih =>
    obtain ⟨s, passes, storable⟩ := ih
    exact ⟨s, passes.negate minus, fun _ => storable (.inr rfl)⟩
  | number kind lexeme numeral fits =>
    exact ⟨true, .number kind ((Token.value?_eq_some lexeme numeral).2 ⟨fits, rfl⟩), fun _ => rfl⟩
  | memory word => exact ⟨true, .memory word, fun _ => rfl⟩
  | parens opens _ closes ih =>
    obtain ⟨s, passes, -⟩ := ih
    exact ⟨true, passes.parens opens closes, fun _ => rfl⟩

/-- A sentence and the end of the input never get stuck. -/
theorem Derives.run_ne_none {ts : List Token} {e : Expr} {eof : Token} (h : Derives .expr ts e)
    (hs : eof.kind = .eof) : run ⟨.operand, 0⟩ (ts ++ [eof]) ≠ none := by
  obtain ⟨s, passes, -⟩ := h.passes
  simp [show run ⟨.operand, 0⟩ ts = _ from passes 0, step_eof hs]

/-! ## Phrases that were read -/

namespace Parser

variable {p q r : Parser} {t : Token} {ts us : List Token}

/-- The numbers ahead are runs of digits. -/
def Lexical (p : Parser) : Prop := ∀ t ∈ p.lexer.drain.1, t.Lexical

theorem consumes_nil (p : Parser) : p.Consumes [] p := rfl

theorem Consumes.ahead (h : p.Consumes ts q) : p.lexer.drain.1 = ts ++ q.lexer.drain.1 :=
  congrArg Prod.fst h

theorem Consumes.lexical (h : p.Consumes ts q) (lexical : p.Lexical) :
    (∀ t ∈ ts, t.Lexical) ∧ q.Lexical := by
  rw [Lexical, h.ahead, List.forall_mem_append] at lexical
  exact lexical

theorem Consumes.unique (h : p.Consumes ts q) (h' : p.Consumes us q) : us = ts :=
  List.append_cancel_right (h'.ahead.symm.trans h.ahead)

theorem Takes.ahead (h : p.Takes t q) : ∃ rest, p.lexer.drain.1 = t :: rest := by
  obtain ⟨l, read, -⟩ := h
  by_cases eof : t.kind = .eof
  · exact ⟨[], by rw [Lexer.drain_of_eof read eof]⟩
  · exact ⟨_, by rw [Lexer.drain_of_token read eof]⟩

theorem Peeks.ahead (h : p.Peeks t q) : ∃ rest, q.lexer.drain.1 = t :: rest := by
  rw [h.drain_eq]
  obtain ⟨l, _, read, -⟩ := h
  exact Takes.ahead ⟨l, read, rfl⟩

theorem Peeks.eq_of_ahead {u : Token} (h : p.Peeks t q) (ahead : q.lexer.drain.1 = u :: ts) :
    u = t := by
  obtain ⟨rest, first⟩ := h.ahead
  exact (List.cons.inj (ahead.symm.trans first)).1

end Parser

/-- The token does not go on with a phrase of the category that was just read,
where `s` says whether that phrase may be stored. -/
def Category.StopsBefore : Category → Bool → Token → Prop
  | .factor, s, _ | .negation, s, _ => s = true
  | .storable, s, t => s = true → t.kind ≠ .keyword
  | .term, s, t => (s = true → t.kind ≠ .keyword) ∧ Level.product.op? t = none
  | .expr, s, t =>
    ((s = true → t.kind ≠ .keyword) ∧ Level.product.op? t = none) ∧ Level.sum.op? t = none

def Phrase.StopsBefore : Phrase → Bool → Token → Prop
  | .whole c, s, t => c.StopsBefore s t
  | .begun level, s, t => level.operand.StopsBefore s t

theorem Category.stopsBefore_chain {level : Level} {s : Bool} {t : Token} :
    (Category.chain level).StopsBefore s t ↔
      level.operand.StopsBefore s t ∧ level.op? t = none := by
  cases level <;> exact Iff.rfl

/-- Behind an expression, nothing may come but the right end. -/
theorem Category.StopsBefore.step_eq_none {s : Bool} {t : Token} {d : Nat}
    (h : Category.expr.StopsBefore s t) (close : t.kind = .closeParen → d = 0)
    (eof : t.kind = .eof → 0 < d) : step ⟨.ended s, d⟩ t = none := by
  obtain ⟨⟨store, product⟩, sum⟩ := h
  refine step_ended_eq_none (fun op operator => ?_) store close eof
  rcases level : op.level with _ | _
  · simp [Level.op?_eq_some.2 ⟨operator, level⟩] at sum
  · simp [Level.op?_eq_some.2 ⟨operator, level⟩] at product

/-- A phrase that was read is passed, and the token behind it does not go on with
it. -/
theorem Parses.passes {ph : Phrase} {p q : Parser} {tree : Subtree} (h : Parses ph p tree q) :
    ∃ ts s, p.Consumes ts q ∧ Passes ph.category.start ts s ∧
      ∀ t rest, q.lexer.drain.1 = t :: rest → ph.StopsBefore s t := by
  induction h with
  | @operand level _ _ _ _ ih =>
    obtain ⟨ts, s, consumes, passes, stops⟩ := ih
    rw [Phrase.category, level.start_operand] at passes
    exact ⟨ts, s, consumes, passes, stops⟩
  | @binary level _ _ _ _ _ t _ _ _ takes hop _ _ ihl ihr =>
    obtain ⟨ts, _, consumes, left, -⟩ := ihl
    obtain ⟨us, s, consumes', right, stops⟩ := ihr
    rw [Phrase.category, level.start_operand] at right
    have operator := takes.consumes (Level.kind_ne_eof hop)
    exact ⟨ts ++ ([t] ++ us), s, consumes.trans (operator.trans consumes'),
      left.binary (Level.op?_eq_some.1 hop).1 right, stops⟩
  | chain _ peeks hop ih =>
    obtain ⟨ts, s, consumes, passes, stops⟩ := ih
    refine ⟨ts, s, ts.append_nil ▸ consumes.trans peeks.consumes, passes, fun u rest ahead => ?_⟩
    obtain rfl := peeks.eq_of_ahead ahead
    exact Category.stopsBefore_chain.2 ⟨stops u rest (peeks.drain_eq ▸ ahead), hop⟩
  | plain _ peeks other ih =>
    obtain ⟨ts, s, consumes, passes, -⟩ := ih
    refine ⟨ts, s, ts.append_nil ▸ consumes.trans peeks.consumes, passes, fun u rest ahead _ => ?_⟩
    obtain rfl := peeks.eq_of_ahead ahead
    exact other
  | @store _ _ _ t _ _ takes store _ ih =>
    obtain ⟨ts, s, consumes, passes, stops⟩ := ih
    obtain ⟨rest, ahead⟩ := takes.ahead
    obtain rfl : s = true := stops t rest ahead
    exact ⟨ts ++ [t], false, consumes.trans (takes.consumes (Token.kind_ne_eof_of_isKeyword store)),
      passes.store store, fun _ _ _ => nofun⟩
  | positive peeks _ _ ih =>
    obtain ⟨ts, s, consumes, passes, stops⟩ := ih
    exact ⟨ts, s, peeks.consumes.trans consumes, passes.positive, stops⟩
  | @negate _ _ _ t _ takes minus _ _ ih =>
    obtain ⟨ts, s, consumes, passes, stops⟩ := ih
    exact ⟨[t] ++ ts, s, (takes.consumes (by simp [minus])).trans consumes, passes.negate minus,
      stops⟩
  | @number _ _ t _ takes kind value =>
    exact ⟨[t], true, takes.consumes (by simp [kind]), .number kind value, fun _ _ _ => rfl⟩
  | @memory _ _ t takes word =>
    exact ⟨[t], true, takes.consumes (Token.kind_ne_eof_of_isKeyword word), .memory word,
      fun _ _ _ => rfl⟩
  | @parens _ _ _ _ _ o c _ takes opens _ _ leave closes closing ih =>
    obtain ⟨ts, s, consumes, passes, -⟩ := ih
    obtain rfl := Parser.leave_eq_ok leave
    exact ⟨[o] ++ ts ++ [c], true, ((takes.consumes (by simp [opens])).trans consumes).trans
      (closes.consumes (by simp [closing])), passes.parens opens closing, fun _ _ _ => rfl⟩

/-- What is known of the tokens of a phrase that was read. -/
structure Understood (ph : Phrase) (ts : List Token) (s : Bool) (q : Parser) : Prop where
  lexical : q.Lexical
  derives : ∃ e, Derives ph.category ts e
  passes : Passes ph.category.start ts s
  stops : ∀ t rest, q.lexer.drain.1 = t :: rest → ph.StopsBefore s t

theorem Parses.understood {ph : Phrase} {p q : Parser} {tree : Subtree} (h : Parses ph p tree q)
    (lexical : p.Lexical) : ∃ ts s, p.Consumes ts q ∧ Understood ph ts s q := by
  obtain ⟨ts, s, consumes, passes, stops⟩ := h.passes
  obtain ⟨us, consumes', sound⟩ := h.derives
  obtain rfl := consumes.unique consumes'
  obtain ⟨numbers, lexical⟩ := consumes.lexical lexical
  exact ⟨us, s, consumes, lexical, ⟨_, (sound numbers).1⟩, passes, stops⟩

/-! ## Tokens that do not fit -/

/-- Parentheses around an expression can be closed. -/
theorem Derives.exists_parens {ts : List Token} {e : Expr} {o : Token} (h : Derives .expr ts e)
    (opens : o.kind = .openParen) : ∃ c, Derives .factor (o :: ts ++ [c]) e :=
  ⟨{ kind := .closeParen, position := .start }, .parens opens h rfl⟩

/-- The tokens `ts` can be completed to a phrase of the category, but no phrase
goes on with `t`. -/
structure Misplaced (c : Category) (ts : List Token) (t : Token) : Prop where
  viable : ∃ us e, Derives c (ts ++ us) e
  stuck : ∀ d, run ⟨c.start, d⟩ (ts ++ [t]) = none

namespace Misplaced

variable {ts us : List Token} {t o : Token} {s : Bool}

/-- A missing operand can always be completed by the memory. -/
theorem factor (h : ∀ d, step ⟨.factor, d⟩ t = none) : Misplaced .factor [] t where
  viable := ⟨[{ kind := .keyword, position := .start, lexeme := some "R" }], _, .memory rfl⟩
  stuck d := by simp [Category.start, h d]

theorem operand {level : Level} (h : Misplaced level.operand ts t) :
    Misplaced (.chain level) ts t where
  viable := by
    obtain ⟨us, e, derives⟩ := h.viable
    exact ⟨us, e, .operand derives⟩
  stuck d := by simpa using h.stuck d

theorem right {level : Level} {op : Op} {l : Expr} (derives : Derives (.chain level) ts l)
    (passes : Passes .operand ts s) (hop : level.op? o = some op)
    (h : Misplaced level.operand us t) : Misplaced (.chain level) (ts ++ o :: us) t where
  viable := by
    obtain ⟨operator, level⟩ := Level.op?_eq_some.1 hop
    obtain ⟨vs, r, derives'⟩ := h.viable
    exact ⟨vs, _, by simpa using Derives.binary derives operator level derives'⟩
  stuck d := by
    simpa [passes d, step_operator (Level.op?_eq_some.1 hop).1] using h.stuck d

theorem plain (h : Misplaced .negation ts t) : Misplaced .storable ts t where
  viable := by
    obtain ⟨us, e, derives⟩ := h.viable
    exact ⟨us, e, .plain derives⟩
  stuck := h.stuck

theorem notStore {e : Expr} (derives : Derives .negation ts e) (passes : Passes .operand ts true)
    (kind : t.kind = .keyword) (h : ¬ t.isKeyword "S") : Misplaced .storable ts t where
  viable := ⟨[], e, by simpa using Derives.plain derives⟩
  stuck d := by simp [Category.start, passes d, step, kind, h]

theorem positive (h : Misplaced .factor ts t) (head : (ts ++ [t]).head? = some o)
    (plus : o.kind ≠ .operator .sub) : Misplaced .negation ts t where
  viable := by
    obtain ⟨us, e, derives⟩ := h.viable
    exact ⟨us, e, .positive derives⟩
  stuck d := by
    obtain ⟨us, tokens⟩ := List.head?_eq_some_iff.1 head
    have later : run ⟨.factor, d⟩ (ts ++ [t]) = none := h.stuck d
    rw [tokens] at later ⊢
    rwa [run_cons, ← step_operand plus] at later

theorem negate (minus : o.kind = .operator .sub) (h : Misplaced .factor ts t) :
    Misplaced .negation (o :: ts) t where
  viable := by
    obtain ⟨us, e, derives⟩ := h.viable
    exact ⟨us, _, .negate minus derives⟩
  stuck d := by simpa [Category.start, step_minus minus] using h.stuck d

theorem inside (opens : o.kind = .openParen) (h : Misplaced .expr ts t) :
    Misplaced .factor (o :: ts) t where
  viable := by
    obtain ⟨us, e, derives⟩ := h.viable
    obtain ⟨c, closed⟩ := derives.exists_parens opens
    exact ⟨us ++ [c], e, by simpa using closed⟩
  stuck d := by simpa [Category.start, step_openParen opens] using h.stuck (d + 1)

/-- Behind an expression in parentheses, only the right parenthesis is left. -/
theorem unclosed {e : Expr} (opens : o.kind = .openParen) (derives : Derives .expr ts e)
    (passes : Passes .operand ts s) (stops : Category.expr.StopsBefore s t)
    (h : t.kind ≠ .closeParen) : Misplaced .factor (o :: ts) t where
  viable := by
    obtain ⟨c, closed⟩ := derives.exists_parens opens
    exact ⟨[c], e, closed⟩
  stuck d := by
    have last : step ⟨.ended s, d + 1⟩ t = none :=
      stops.step_eq_none (fun closes => absurd closes h) fun _ => Nat.succ_pos d
    simp [Category.start, step_openParen opens, passes (d + 1), last]

end Misplaced

/-- The error complains of a token, and not of the nesting. -/
def Error.IsMisplacement (limit : Nat) : Error → Prop
  | .unexpected _ expected _ => expected ≠ (Expectation.nesting limit).phrase
  | _ => False

/-- The error is about a token ahead that does not fit into the category. -/
def Blames (c : Category) (p : Parser) (e : Error) : Prop :=
  ∃ ts t rest, p.lexer.drain.1 = ts ++ t :: rest ∧ (∃ x, e = t.unexpected x) ∧ Misplaced c ts t

namespace Blames

variable {c c' : Category} {p q r : Parser} {e : Error} {ts : List Token} {t : Token}

theorem here (x : Expectation) (consumes : p.Consumes ts q) (takes : q.Takes t r)
    (h : Misplaced c ts t) : Blames c p (t.unexpected x) := by
  obtain ⟨rest, ahead⟩ := takes.ahead
  exact ⟨ts, t, rest, by rw [consumes.ahead, ahead], ⟨x, rfl⟩, h⟩

theorem later (consumes : p.Consumes ts q) (h : Blames c q e)
    (outer : ∀ {us t}, Misplaced c us t → Misplaced c' (ts ++ us) t) : Blames c' p e := by
  obtain ⟨us, t, rest, ahead, x, misplaced⟩ := h
  exact ⟨ts ++ us, t, rest, by rw [consumes.ahead, ahead, List.append_assoc], x, outer misplaced⟩

end Blames

theorem Parser.Stops.not_isMisplacement {p q : Parser} {e : Error} {limit : Nat}
    (h : p.Stops e q) : ¬ e.IsMisplacement limit := by
  obtain ⟨_, _, rfl⟩ := h.unrecognized
  exact id

/-- An error about a token blames the first one that does not fit. -/
theorem Rejects.blames {c : Category} {p q : Parser} {e : Error} (h : Rejects c p e q)
    (bad : e.IsMisplacement p.limit) (lexical : p.Lexical) : Blames c p e := by
  induction h with
  | operand _ ih => exact (ih bad lexical).later (Parser.consumes_nil _) Misplaced.operand
  | chainStop _ stops | storeStop _ stops | negationStop stops | factorStop stops =>
    exact (stops.not_isMisplacement bad).elim
  | closeStop _ _ _ _ _ stops => exact (stops.not_isMisplacement bad).elim
  | @right level op p q r s t left e parses takes hop _ ih =>
    obtain ⟨ts, b, consumes, understood⟩ := parses.understood lexical
    obtain ⟨l, derives⟩ := understood.derives
    have operator := takes.consumes (Level.kind_ne_eof hop)
    rw [← parses.depth_limit.2, ← takes.depth_limit.2] at bad
    have blames := ih bad (operator.lexical understood.lexical).2
    refine blames.later (consumes.trans operator) fun misplaced => ?_
    simpa using misplaced.right derives understood.passes hop
  | binaryHigh parses takes _ parses' =>
    refine (bad ?_).elim
    rw [parses'.depth_limit.2, takes.depth_limit.2, parses.depth_limit.2]
  | stored _ ih => exact (ih bad lexical).later (Parser.consumes_nil _) Misplaced.plain
  | notStore parses takes keyword other =>
    obtain ⟨ts, s, consumes, understood⟩ := parses.understood lexical
    obtain ⟨e, derives⟩ := understood.derives
    obtain ⟨rest, ahead⟩ := takes.ahead
    obtain rfl : s = true := understood.stops _ rest ahead
    exact .here .store consumes takes (.notStore derives understood.passes keyword other)
  | storeHigh parses takes =>
    exact (bad (by rw [takes.depth_limit.2, parses.depth_limit.2])).elim
  | @positive p q r t e peeks plus _ ih =>
    rw [← peeks.depth_limit.2] at bad
    obtain ⟨ts, u, rest, ahead, x, misplaced⟩ := ih bad (peeks.consumes.lexical lexical).2
    refine ⟨ts, u, rest, by rw [← ahead, peeks.drain_eq], x, misplaced.positive ?_ plus⟩
    -- the token that was looked at is the first one
    cases ts with
    | nil => rw [peeks.eq_of_ahead ahead, List.nil_append, List.head?_cons]
    | cons v ts => rw [peeks.eq_of_ahead ahead, List.cons_append, List.head?_cons]
  | negated takes minus _ ih =>
    have consumes := takes.consumes (by simp [minus])
    rw [← takes.depth_limit.2] at bad
    exact (ih bad (consumes.lexical lexical).2).later consumes (Misplaced.negate minus)
  | negateHigh takes _ parses =>
    exact (bad (by rw [parses.depth_limit.2, takes.depth_limit.2])).elim
  | literal takes kind value =>
    refine .here .literal (Parser.consumes_nil _) takes (.factor fun d => ?_)
    simp [step, begin, kind, value]
  | notMemory takes kind other =>
    refine .here .memory (Parser.consumes_nil _) takes (.factor fun d => ?_)
    simp [step, begin, kind, other]
  | deep takes => exact (bad (by rw [takes.depth_limit.2])).elim
  | inside takes opens _ _ ih =>
    have consumes := takes.consumes (by simp [opens])
    rw [← takes.depth_limit.2] at bad
    exact (ih bad (consumes.lexical lexical).2).later (q := Parser.enter _) consumes
      (Misplaced.inside opens)
  | @unclosed _ _ _ s _ _ _ _ takes opens _ parses leave closes other =>
    have consumes := takes.consumes (by simp [opens])
    obtain ⟨ts, b, consumes', understood⟩ := parses.understood (consumes.lexical lexical).2
    obtain ⟨e, derives⟩ := understood.derives
    obtain ⟨rest, ahead⟩ := closes.ahead
    obtain rfl := Parser.leave_eq_ok leave
    have stops := understood.stops _ rest ahead
    exact .here (q := s) .closeParen (consumes.trans consumes') closes
      (.unclosed opens derives understood.passes stops other)
  | operandMissing takes number keyword opens =>
    refine .here .operand (Parser.consumes_nil _) takes (.factor fun d => ?_)
    simp only [step, begin]

/-- So does an error of a whole text, where the token may also stand behind the
sentence. -/
theorem Parser.exists_misfit {p r : Parser} {e : Error} (h : p.parse = (.error e, r))
    (bad : e.IsMisplacement p.limit) (lexical : p.Lexical) :
    ∃ ts t rest, p.lexer.drain.1 = ts ++ t :: rest ∧ (∃ x, e = t.unexpected x) ∧
      (∃ us e, Derives .expr (ts ++ us) e) ∧ run ⟨.operand, 0⟩ (ts ++ [t]) = none := by
  rcases Parser.parse_eq_error_iff.1 h with
    rejects | ⟨tree, q, parses, stops | ⟨t, takes, eof, rfl⟩⟩
  · obtain ⟨ts, t, rest, ahead, x, misplaced⟩ := rejects.blames bad lexical
    exact ⟨ts, t, rest, ahead, x, misplaced.viable, misplaced.stuck 0⟩
  · exact (stops.not_isMisplacement bad).elim
  · obtain ⟨ts, s, consumes, understood⟩ := parses.understood lexical
    obtain ⟨e, derives⟩ := understood.derives
    obtain ⟨rest, ahead⟩ := takes.ahead
    have last : step ⟨.ended s, 0⟩ t = none :=
      (understood.stops t rest ahead).step_eq_none (fun _ => rfl) fun h => absurd h eof
    refine ⟨ts, t, rest, by rw [consumes.ahead, ahead], ⟨_, rfl⟩,
      ⟨[], e, ts.append_nil.symm ▸ derives⟩, ?_⟩
    rw [run_append, show run ⟨.operand, 0⟩ ts = _ from understood.passes 0]
    simp [last]

/-- A syntax error is about the first token that does not fit: the tokens before
it begin a sentence of the grammar, and with it they do not. -/
theorem syntax_error_blames_first_misfit (source : String) (limit : Nat) (position : Position)
    (expected found : String)
    (h : { Parser.ofString source with limit := limit }.parse.1 =
      .error (.unexpected position expected found))
    (other : expected ≠ (Expectation.nesting limit).phrase) :
    ∃ ts t rest, (Lexer.ofString source).drain.1 = ts ++ t :: rest ∧
      t.position = position ∧ t.describe = found ∧
      (∃ us e, Derives .expr (ts ++ us) e) ∧
      ∀ us e eof, Derives .expr us e → eof.kind = .eof → ¬ ts ++ [t] <+: us ++ [eof] := by
  have lexical : Parser.Lexical { Parser.ofString source with limit := limit } :=
    Lexer.lexical_drain (l := .ofString source) rfl
  obtain ⟨ts, t, rest, ahead, ⟨x, error⟩, viable, stuck⟩ :=
    Parser.exists_misfit (Prod.ext h rfl) other lexical
  obtain ⟨rfl, -, rfl⟩ := Error.unexpected.inj error
  refine ⟨ts, t, rest, ahead, rfl, rfl, viable, fun us e eof derives ends begins => ?_⟩
  exact derives.run_ne_none ends (run_eq_none_mono begins stuck)

/-- In `1+*2`, the star is to blame. -/
theorem star_is_misfit :
    ∃ ts t rest, (Lexer.ofString "1+*2").drain.1 = ts ++ t :: rest ∧
      t.position = ⟨1, 3⟩ ∧ t.describe = "\"*\"" ∧
      (∃ us e, Derives .expr (ts ++ us) e) ∧
      ∀ us e eof, Derives .expr us e → eof.kind = .eof → ¬ ts ++ [t] <+: us ++ [eof] := by
  let star : Token := { kind := .operator .mul, position := ⟨1, 3⟩ }
  have error : (Parser.ofString "1+*2").parse.1 = .error (star.unexpected .operand) := by
    decide +kernel
  have text : star.describe = "\"*\"" := by decide +kernel
  rw [← text]
  exact syntax_error_blames_first_misfit "1+*2" 256 _ _ _ error (by decide +kernel)

end Calculator
