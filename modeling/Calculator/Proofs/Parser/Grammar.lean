import Calculator.Expr.Parser
import Mathlib.Algebra.Group.Nat.Defs

/-!
# The grammar of expressions

`Derives c ts e` says that the tokens `ts` are a phrase of category `c` that
stands for `e`. Nothing in it speaks of reading, of limits or of what comes
next. The nesting of a list of tokens is counted on the tokens alone.
-/

namespace Calculator

/-- The two levels of binary operators. -/
inductive Level where
  | sum
  | product
  deriving DecidableEq, Repr

def Op.level : Op → Level
  | .add | .sub => .sum
  | .mul | .div | .mod => .product

inductive Category where
  | chain (level : Level)
  | storable
  | negation
  | factor
  deriving DecidableEq, Repr

@[match_pattern] abbrev Category.expr : Category := .chain .sum

@[match_pattern] abbrev Category.term : Category := .chain .product

/-- What a chain is made of. -/
def Level.operand : Level → Category
  | .sum => .term
  | .product => .storable

/-- The digits `cs` are a decimal numeral of value `n`. -/
structure IsNumeral (cs : List Char) (n : Nat) : Prop where
  ne_nil : cs ≠ []
  isDigit : ∀ c ∈ cs, c.isDigit
  value : Nat.ofDigitChars 10 cs 0 = n

inductive Derives : Category → List Token → Expr → Prop where
  | operand {level : Level} {ts : List Token} {e : Expr} :
      Derives level.operand ts e → Derives (.chain level) ts e
  | binary {level : Level} {op : Op} {ts us : List Token} {t : Token} {l r : Expr} :
      Derives (.chain level) ts l → t.kind = .operator op → op.level = level →
      Derives level.operand us r → Derives (.chain level) (ts ++ t :: us) (.binary op l r)
  | plain {ts : List Token} {e : Expr} : Derives .negation ts e → Derives .storable ts e
  | store {ts : List Token} {t : Token} {e : Expr} :
      Derives .negation ts e → t.isKeyword "S" → Derives .storable (ts ++ [t]) (.store e)
  | positive {ts : List Token} {e : Expr} : Derives .factor ts e → Derives .negation ts e
  | negate {ts : List Token} {t : Token} {e : Expr} :
      t.kind = .operator .sub → Derives .factor ts e → Derives .negation (t :: ts) (.negate e)
  | number {t : Token} {text : String} {n : Nat} :
      t.kind = .number → t.lexeme = some text → IsNumeral text.toList n → n ≤ 2 ^ 63 - 1 →
      Derives .factor [t] (.number (Int64.ofNat n))
  | memory {t : Token} : t.isKeyword "R" → Derives .factor [t] .memory
  | parens {ts : List Token} {o c : Token} {e : Expr} :
      o.kind = .openParen → Derives .expr ts e → c.kind = .closeParen →
      Derives .factor (o :: ts ++ [c]) e

/-! ## The nesting of parentheses -/

/-- The parentheses that are open after the token, of which `depth` are open
before it. -/
def Token.depthAfter (t : Token) (depth : Nat) : Nat :=
  match t.kind with
  | .openParen => depth + 1
  | .closeParen => depth - 1
  | _ => depth

/-- The most parentheses that are open at once, of which `depth` are open from
the start. -/
def nestingFrom (depth : Nat) : List Token → Nat
  | [] => depth
  | t :: ts => max depth (nestingFrom (t.depthAfter depth) ts)

def nesting (ts : List Token) : Nat := nestingFrom 0 ts

theorem Token.kind_of_isKeyword {t : Token} {word : String} (h : t.isKeyword word) :
    t.kind = .keyword := by
  simp only [isKeyword, Bool.and_eq_true, beq_iff_eq] at h
  exact h.1

/-- The token neither opens nor closes parentheses. -/
def Token.Neutral (t : Token) : Prop := ∀ depth, t.depthAfter depth = depth

theorem Token.neutral_operator {t : Token} {op : Op} (h : t.kind = .operator op) : t.Neutral := by
  intro depth
  rw [depthAfter, h]

theorem Token.neutral_number {t : Token} (h : t.kind = .number) : t.Neutral := by
  intro depth
  rw [depthAfter, h]

theorem Token.neutral_keyword {t : Token} {word : String} (h : t.isKeyword word) : t.Neutral := by
  intro depth
  rw [depthAfter, kind_of_isKeyword h]

@[simp] theorem nesting_nil : nesting [] = 0 := rfl

theorem nesting_cons {t : Token} (h : t.Neutral) (ts : List Token) :
    nesting (t :: ts) = nesting ts := by
  simp [nesting, nestingFrom, h 0]

/-- Tokens that close what they open, and only that: wherever they stand, they
add their own nesting and leave the rest as it is. -/
def Balanced (ts : List Token) : Prop :=
  ∀ depth us, nestingFrom depth (ts ++ us) = max (depth + nesting ts) (nestingFrom depth us)

namespace Balanced

variable {ts us : List Token} {t o c : Token}

theorem nesting_append (h : Balanced ts) (us : List Token) :
    nesting (ts ++ us) = max (nesting ts) (nesting us) := by
  simpa [nesting] using h 0 us

theorem append (hts : Balanced ts) (hus : Balanced us) : Balanced (ts ++ us) := by
  intro depth vs
  rw [List.append_assoc, hts, hus, hts.nesting_append]
  omega

theorem singleton (h : t.Neutral) : Balanced [t] := by
  intro depth us
  simp [nesting_cons h, nestingFrom, h depth]

theorem nestingFrom_parens (ho : o.kind = .openParen) (h : Balanced ts) (hc : c.kind = .closeParen)
    (depth : Nat) (us : List Token) :
    nestingFrom depth (o :: ts ++ [c] ++ us) =
      max (depth + 1 + nesting ts) (nestingFrom depth us) := by
  have opened : o.depthAfter depth = depth + 1 := by rw [Token.depthAfter, ho]
  have closed : c.depthAfter (depth + 1) = depth := by
    rw [Token.depthAfter, hc]
    rfl
  have inner := h (depth + 1) ([c] ++ us)
  simp only [List.cons_append, List.append_assoc, List.nil_append, nestingFrom, opened, closed]
    at inner ⊢
  omega

theorem nesting_parens (ho : o.kind = .openParen) (h : Balanced ts) (hc : c.kind = .closeParen) :
    nesting (o :: ts ++ [c]) = nesting ts + 1 := by
  have outer := nestingFrom_parens ho h hc 0 []
  simp only [List.append_nil, nestingFrom] at outer
  rw [nesting, outer]
  omega

theorem parens (ho : o.kind = .openParen) (h : Balanced ts) (hc : c.kind = .closeParen) :
    Balanced (o :: ts ++ [c]) := by
  intro depth us
  rw [nestingFrom_parens ho h hc, nesting_parens ho h hc]
  omega

end Balanced

/-- Every phrase closes the parentheses that it opens. -/
theorem Derives.balanced {c : Category} {ts : List Token} {e : Expr} (h : Derives c ts e) :
    Balanced ts := by
  induction h with
  | operand _ ih => exact ih
  | binary _ ht _ _ ihl ihr =>
    exact ihl.append (.append (.singleton (Token.neutral_operator ht)) ihr)
  | plain _ ih => exact ih
  | store _ ht ih => exact ih.append (.singleton (Token.neutral_keyword ht))
  | positive _ ih => exact ih
  | negate ht _ ih => exact .append (.singleton (Token.neutral_operator ht)) ih
  | number ht _ _ _ => exact .singleton (Token.neutral_number ht)
  | memory ht => exact .singleton (Token.neutral_keyword ht)
  | parens ho _ hc ih => exact ih.parens ho hc

end Calculator
