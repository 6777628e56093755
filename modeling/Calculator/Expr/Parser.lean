import Calculator.Expr
import Calculator.Token.Lexer

/-!
# Reading expressions

The grammar, loosest binding first:

```text
expr     = term (("+" | "-") term)*
term     = storable (("*" | "/" | "%") storable)*
storable = negation "S"?
negation = "-" factor | factor
factor   = NUMBER | "R" | "(" expr ")"
```

Chains of operators group to the left. A parser has a limit that neither the
nesting of parentheses nor the height of the tree may exceed. It can be asked
again after an error: it goes on where it stopped, and parentheses that were
entered and not left still count.

Every production reads at least one token, so the tokens still to come get
fewer with each success. `Reply` carries that fact, and the recursion rests on
it.
-/

namespace Calculator

/-- What a token was found in place of. -/
inductive Expectation where
  | endOfInput
  | store
  | memory
  | closeParen
  | literal
  | operand
  | nesting (limit : Nat)
  deriving DecidableEq, Repr

def Expectation.nestingPhrase (limit : Nat) : String :=
  s!"an expression nested at most {limit} deep"

def Expectation.phrase : Expectation → String
  | .endOfInput => "end of input"
  | .store => "\"S\""
  | .memory => "\"R\""
  | .closeParen => "\")\""
  | .literal => "an integer literal that fits in 64 bits"
  | .operand => "a number, \"R\" or \"(\""
  | .nesting limit => nestingPhrase limit

def Token.unexpected (t : Token) (expected : Expectation) : Error :=
  .unexpected t.position expected.phrase t.describe

/-- The operator of a chain of terms. -/
def Token.sumOp? (t : Token) : Option Op :=
  match t.kind with
  | .operator .add => some .add
  | .operator .sub => some .sub
  | _ => none

/-- The operator of a chain of factors. -/
def Token.productOp? (t : Token) : Option Op :=
  match t.kind with
  | .operator .mul => some .mul
  | .operator .div => some .div
  | .operator .mod => some .mod
  | _ => none

def Token.minus? (t : Token) : Option Unit :=
  if t.kind = .operator .sub then some () else none

/-- Whether a keyword is the one that stores. -/
def Token.storing? (t : Token) : Option Bool :=
  if t.kind = .keyword then some (t.isKeyword "S") else none

/-- The value of a number. -/
def Token.value? (t : Token) : Option Int64 := t.lexeme.bind fun text => Numeral.signed? text.toList

/-- An expression and its height. -/
structure Subtree where
  expr : Expr
  height : Nat
  deriving DecidableEq, Repr

structure Parser where
  lexer : Lexer
  /-- The parentheses entered and not left. -/
  depth : Nat := 0
  /-- How high a tree may be and how deep parentheses may nest. -/
  limit : Nat := 256
  deriving DecidableEq, Repr

namespace Parser

def ofString (source : String) : Parser := { lexer := .ofString source }

/-- A bound on the tokens still to be read. -/
def size (p : Parser) : Nat := p.lexer.size

/-- What reading one token came to. -/
inductive Read (p : Parser) where
  | token (t : Token) (rest : Parser) (progress : rest.size + t.weight ≤ p.size)
  | error (e : Error) (rest : Parser)

/-- What looking for a token that may be missing came to. A token that was not
wanted is still to be read. -/
inductive Choice (p : Parser) (α : Type) where
  | taken (t : Token) (value : α) (rest : Parser) (progress : rest.size < p.size)
  | passed (rest : Parser) (progress : rest.size ≤ p.size)
  | error (e : Error) (rest : Parser)

/-- What reading an expression came to. A success leaves less than `bound`. -/
inductive Reply (bound : Nat) where
  | ok (tree : Subtree) (rest : Parser) (progress : rest.size < bound)
  | error (e : Error) (rest : Parser)

def Reply.weaken {m n : Nat} (r : Reply m) (h : m ≤ n) : Reply n :=
  match r with
  | .ok tree rest progress => .ok tree rest (Nat.lt_of_lt_of_le progress h)
  | .error e rest => .error e rest

def next (p : Parser) : Read p :=
  match h : p.lexer.next with
  | (.ok t, l) => .token t { p with lexer := l } (Lexer.size_next h)
  | (.error e, l) => .error e { p with lexer := l }

/-- Take back the token that was just read. -/
def pass {α : Type} {t : Token} {l : Lexer} (p : Parser) (h : p.lexer.next = (.ok t, l)) :
    Choice p α :=
  match hu : l.unread with
  | .ok r => .passed { p with lexer := r } (Lexer.size_unread h hu)
  | .error b => .error (.breach b) { p with lexer := l }

/-- Read a token if it is wanted. The end of the input never is. -/
def choose {α : Type} (p : Parser) (want : Token → Option α) : Choice p α :=
  match h : p.lexer.next with
  | (.error e, l) => .error e { p with lexer := l }
  | (.ok t, l) =>
    if ht : t.kind = .eof then p.pass h
    else
      match want t with
      | some a => .taken t a { p with lexer := l } (Lexer.size_next_lt h ht)
      | none => p.pass h

/-- The height of a node at `t` whose highest operand has the given height. -/
def grow (p : Parser) (t : Token) (height : Nat) : Except Error Nat :=
  if p.limit ≤ height then .error (t.unexpected (.nesting p.limit)) else .ok (height + 1)

/-- Go into parentheses. -/
def enter (p : Parser) : Parser := { p with depth := p.depth + 1 }

/-- Come out of parentheses. -/
def leave (p : Parser) : Except Breach Parser :=
  match p.depth with
  | 0 => .error .notNested
  | d + 1 => .ok { p with depth := d }

@[simp] theorem size_enter (p : Parser) : p.enter.size = p.size := rfl

theorem size_leave {p q : Parser} (h : p.leave = .ok q) : q.size = p.size := by
  simp only [leave] at h
  split at h
  · simp at h
  · obtain rfl := by simpa using h
    rfl

-- The measures are numbers, and not pairs, so that parsing also computes in proofs.
mutual

def expr (p : Parser) : Reply p.size :=
  match p.term with
  | .error e q => .error e q
  | .ok left q h => (q.sum left).weaken (by omega)
termination_by 5 * p.size + 4

/-- The rest of a chain of terms that starts with `left`. -/
def sum (p : Parser) (left : Subtree) : Reply (p.size + 1) :=
  match p.choose Token.sumOp? with
  | .error e q => .error e q
  | .passed q h => .ok left q (by omega)
  | .taken t op q h =>
    match q.term with
    | .error e r => .error e r
    | .ok right r h' =>
      match r.grow t (max left.height right.height) with
      | .error e => .error e r
      | .ok height => (r.sum ⟨.binary op left.expr right.expr, height⟩).weaken (by omega)
termination_by 5 * p.size

def term (p : Parser) : Reply p.size :=
  match p.storable with
  | .error e q => .error e q
  | .ok left q h => (q.product left).weaken (by omega)
termination_by 5 * p.size + 3

/-- The rest of a chain of factors that starts with `left`. -/
def product (p : Parser) (left : Subtree) : Reply (p.size + 1) :=
  match p.choose Token.productOp? with
  | .error e q => .error e q
  | .passed q h => .ok left q (by omega)
  | .taken t op q h =>
    match q.storable with
    | .error e r => .error e r
    | .ok right r h' =>
      match r.grow t (max left.height right.height) with
      | .error e => .error e r
      | .ok height => (r.product ⟨.binary op left.expr right.expr, height⟩).weaken (by omega)
termination_by 5 * p.size

def storable (p : Parser) : Reply p.size :=
  match p.negation with
  | .error e q => .error e q
  | .ok tree q h =>
    match q.choose Token.storing? with
    | .error e r => .error e r
    | .passed r h' => .ok tree r (by omega)
    | .taken t false r h' => .error (t.unexpected .store) r
    | .taken t true r h' =>
      match r.grow t tree.height with
      | .error e => .error e r
      | .ok height => .ok ⟨.store tree.expr, height⟩ r (by omega)
termination_by 5 * p.size + 2

def negation (p : Parser) : Reply p.size :=
  match p.choose Token.minus? with
  | .error e q => .error e q
  | .passed q h => q.factor.weaken h
  | .taken t () q h =>
    match q.factor with
    | .error e r => .error e r
    | .ok tree r h' =>
      match r.grow t tree.height with
      | .error e => .error e r
      | .ok height => .ok ⟨.negate tree.expr, height⟩ r (by omega)
termination_by 5 * p.size + 1

def factor (p : Parser) : Reply p.size :=
  match p.next with
  | .error e q => .error e q
  | .token t q h =>
    match hk : t.kind with
    | .number =>
      match t.value? with
      | some v => .ok ⟨.number v, 1⟩ q (by rw [Token.weight, hk] at h; simp at h; omega)
      | none => .error (t.unexpected .literal) q
    | .keyword =>
      if t.isKeyword "R" then
        .ok ⟨.memory, 1⟩ q (by rw [Token.weight, hk] at h; simp at h; omega)
      else .error (t.unexpected .memory) q
    | .openParen =>
      have shorter : q.size < p.size := by rw [Token.weight, hk] at h; simp at h; omega
      if q.limit ≤ q.depth then .error (t.unexpected (.nesting q.limit)) q
      else
        match q.enter.expr with
        | .error e r => .error e r
        | .ok tree r h' =>
          match hl : r.leave with
          | .error b => .error (.breach b) r
          | .ok s =>
            match s.next with
            | .error e u => .error e u
            | .token c u h'' =>
              if c.kind = .closeParen then
                .ok tree u (by have := size_leave hl; simp at h'; omega)
              else .error (c.unexpected .closeParen) u
    | _ => .error (t.unexpected .operand) q
termination_by 5 * p.size

end

/-- Read one expression and the end of the input after it. -/
def parse (p : Parser) : Except Error Subtree × Parser :=
  match p.expr with
  | .error e q => (.error e, q)
  | .ok tree q _ =>
    match q.next with
    | .error e r => (.error e, r)
    | .token t r _ =>
      if t.kind = .eof then (.ok tree, r) else (.error (t.unexpected .endOfInput), r)

end Parser

end Calculator
