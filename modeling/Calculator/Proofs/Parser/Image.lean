import Calculator.Proofs.Parser.Acceptance
import Calculator.Proofs.Token.Layout

/-!
# The trees that a parser returns

A number of a text has no sign, and a parser keeps trees within its limit. Every
other tree is returned for some text: it is enough to write each operand in
parentheses. They nest less deep than the tree is high, so a limit that admits
the tree admits its parentheses too.
-/

namespace Calculator

namespace Expr

/-- The numbers that are written in an expression. -/
def literals : Expr → List Int64
  | number v => [v]
  | memory => []
  | negate e | store e => e.literals
  | binary _ l r => l.literals ++ r.literals

/-- No number has a sign of its own. -/
def Unsigned (e : Expr) : Prop := ∀ v ∈ e.literals, 0 ≤ v.toInt

/-- The text in parentheses. -/
def enclosed (cs : List Char) : List Char := '(' :: cs ++ [')']

/-- The text of an expression, with parentheses around every operand. -/
def parenthesized : Expr → List Char
  | number v => Numeral.ofWord v
  | memory => ['R']
  | negate e => '-' :: enclosed e.parenthesized
  | store e => enclosed e.parenthesized ++ ['S']
  | binary op l r => enclosed l.parenthesized ++ op.symbol :: enclosed r.parenthesized

end Expr

/-! ## Literals of phrases -/

/-- The numbers of a phrase are numerals, which have no sign. -/
theorem Derives.unsigned {c : Category} {ts : List Token} {e : Expr} (h : Derives c ts e) :
    e.Unsigned := by
  induction h with
  | operand _ ih | plain _ ih | store _ _ ih => exact ih
  | positive _ ih | negate _ _ ih | parens _ _ _ ih => exact ih
  | binary _ _ _ _ ihl ihr => exact List.forall_mem_append.2 ⟨ihl, ihr⟩
  | @number t text n _ _ _ fits =>
    have value : (Int64.ofNat n).toInt = n := Int64.toInt_ofNat_of_lt (by omega)
    simp [Expr.Unsigned, Expr.literals, value]
  | memory => simp [Expr.Unsigned, Expr.literals]

/-! ## Texts of phrases -/

/-- The text `cs`, behind `before` and in front of `rest`, is cut into the tokens of
a phrase, whose parentheses nest less than `bound` deep. -/
def Spells (c : Category) (e : Expr) (bound : Nat) (before cs rest : List Char) : Prop :=
  ∃ pieces : List Piece, cs = pieces.flatMap Piece.text ∧ Layout before pieces rest ∧
    Derives c (pieces.map Piece.token) e ∧ nesting (pieces.map Piece.token) < bound

/-- A token without blanks in front of it. -/
def Piece.bare (before : List Char) (kind : Token.Kind) (lexeme : Option String := none) :
    Piece where
  gap := []
  token := { kind, position := .after before, lexeme }

/-- A sign is its own text, and other tokens keep theirs. -/
theorem Piece.text_bare (before : List Char) (kind : Token.Kind) (lexeme : Option String) :
    (bare before kind lexeme).text =
      match kind.sign? with
      | some c => [c]
      | none => (lexeme.getD "").toList := rfl

theorem Piece.fits_bare {before rest : List Char} {kind : Token.Kind} {lexeme : Option String}
    (spelled : (bare before kind lexeme).token.WellSpelled)
    (longest : ∀ c ∈ rest.head?, ¬ (bare before kind lexeme).token.goesOn c) :
    (bare before kind lexeme).Fits before rest where
  blank := nofun
  spelled := spelled
  longest := longest
  placed := by simp [bare]

/-- A sign can stand in front of anything. -/
theorem Piece.fits_sign {kind : Token.Kind} {c : Char} (h : kind.sign? = some c)
    (before rest : List Char) : (bare before kind).Fits before rest := by
  obtain ⟨-, spelled, alone, -⟩ := Token.of_sign? (t := (bare before kind).token) h
  exact fits_bare (spelled.2 rfl) fun d _ => alone d

theorem layout_singleton {before rest : List Char} {x : Piece} (fits : x.Fits before rest) :
    Layout before [x] rest :=
  layout_cons.2 ⟨by simpa using fits, layout_nil _ _⟩

namespace Spells

variable {c : Category} {e l r : Expr} {n : Nat} {before cs ds rest : List Char}

theorem imp {c' : Category} (h : Spells c e n before cs rest)
    (wider : ∀ {ts}, Derives c ts e → Derives c' ts e) : Spells c' e n before cs rest := by
  obtain ⟨pieces, text, layout, derives, nested⟩ := h
  exact ⟨pieces, text, layout, wider derives, nested⟩

theorem mono {m : Nat} (h : Spells c e n before cs rest) (le : n ≤ m) :
    Spells c e m before cs rest := by
  obtain ⟨pieces, text, layout, derives, nested⟩ := h
  exact ⟨pieces, text, layout, derives, by omega⟩

/-- The digits of a number end where no digit follows. -/
theorem number {v : Int64} (h : 0 ≤ v.toInt) (stop : ∀ d ∈ rest.head?, ¬ d.isAlphanum) :
    Spells .factor (.number v) 1 before (Numeral.ofWord v) rest := by
  obtain ⟨n, value⟩ := Int.eq_ofNat_of_zero_le h
  have digits : Numeral.ofWord v = Numeral.ofNat n := by
    rw [Numeral.ofWord, value]
    rfl
  have small := v.toInt_lt
  have word : Int64.ofNat n = v := by
    rw [← Int64.toInt_inj, Int64.toInt_ofNat_of_lt (by omega), value]
  obtain ⟨ne, all, sum⟩ := Numeral.natural?_eq_some.1 (Numeral.natural?_ofNat n)
  have numeral : IsNumeral (String.ofList (Numeral.ofNat n)).toList n := by
    rw [String.toList_ofList]
    exact ⟨ne, all, sum⟩
  let x := Piece.bare before .number (some (String.ofList (Numeral.ofNat n)))
  have fits : x.Fits before rest := by
    refine Piece.fits_bare ?_ fun d hd digit => stop d hd (Token.isAlphanum_of_goesOn digit)
    obtain ⟨c, cs, split⟩ := List.exists_cons_of_ne_nil ne
    exact ⟨c, cs, congrArg (some ∘ String.ofList) split, split ▸ all⟩
  refine ⟨[x], ?_, layout_singleton fits, word ▸ .number rfl rfl numeral (by omega), ?_⟩
  · simp [x, digits, Piece.text_bare, Token.Kind.sign?]
  · rw [List.map_singleton, nesting_cons (Token.neutral_number rfl), nesting_nil]
    exact Nat.one_pos

theorem memory (stop : ∀ d ∈ rest.head?, ¬ d.isAlphanum) :
    Spells .factor .memory 1 before ['R'] rest := by
  let x := Piece.bare before .keyword (some "R")
  have word : x.token.isKeyword "R" := rfl
  have fits : x.Fits before rest := Piece.fits_bare (.inr rfl) stop
  refine ⟨[x], ?_, layout_singleton fits, .memory word, ?_⟩
  · simp [x, Piece.text_bare, Token.Kind.sign?]
  · rw [List.map_singleton, nesting_cons (Token.neutral_keyword word), nesting_nil]
    exact Nat.one_pos

/-- What stands in parentheses is one level deeper. -/
theorem parens (inner : Spells .expr e n (before ++ ['(']) cs (')' :: rest)) :
    Spells .factor e (n + 1) before (Expr.enclosed cs) rest := by
  obtain ⟨pieces, rfl, layout, derives, nested⟩ := inner
  let o := Piece.bare before .openParen
  let c := Piece.bare (before ++ ['('] ++ pieces.flatMap Piece.text) .closeParen
  have left : o.text = ['('] := rfl
  have right : c.text = [')'] := rfl
  refine ⟨o :: pieces ++ [c], by simp [Expr.enclosed, left, right], ?_, ?_, ?_⟩
  · rw [List.cons_append, layout_cons, layout_append]
    refine ⟨Piece.fits_sign rfl _ _, ?_, ?_⟩
    · simpa [left, right] using layout
    · rw [left]
      exact layout_singleton (Piece.fits_sign rfl _ _)
  · simpa using Derives.parens (o := o.token) (c := c.token) rfl derives rfl
  · have deeper := derives.balanced.nesting_parens (o := o.token) (c := c.token) rfl rfl
    simp only [List.map_append, List.map_cons, List.map_nil, List.cons_append] at deeper ⊢
    omega

theorem negate (operand : Spells .factor e n (before ++ ['-']) cs rest) :
    Spells .negation (.negate e) n before ('-' :: cs) rest := by
  obtain ⟨pieces, rfl, layout, derives, nested⟩ := operand
  let m := Piece.bare before (.operator .sub)
  have sign : m.text = ['-'] := rfl
  refine ⟨m :: pieces, by simp [sign], layout_cons.2 ⟨Piece.fits_sign rfl _ _, ?_⟩,
    .negate rfl derives, ?_⟩
  · rwa [sign]
  · rwa [List.map_cons, nesting_cons (Token.neutral_operator rfl)]

theorem store (operand : Spells .negation e n before cs ('S' :: rest))
    (stop : ∀ d ∈ rest.head?, ¬ d.isAlphanum) :
    Spells .storable (.store e) n before (cs ++ ['S']) rest := by
  obtain ⟨pieces, rfl, layout, derives, nested⟩ := operand
  let x := Piece.bare (before ++ pieces.flatMap Piece.text) .keyword (some "S")
  have word : x.token.isKeyword "S" := rfl
  have text : x.text = ['S'] := by simp [x, Piece.text_bare, Token.Kind.sign?]
  have fits : x.Fits (before ++ pieces.flatMap Piece.text) rest := Piece.fits_bare (.inl rfl) stop
  refine ⟨pieces ++ [x], by simp [text], layout_append.2 ⟨?_, layout_singleton fits⟩, ?_, ?_⟩
  · simpa [text] using layout
  · simpa using Derives.store derives word
  · rw [List.map_append, derives.balanced.nesting_append, List.map_singleton,
      nesting_cons (Token.neutral_keyword word), nesting_nil]
    omega

theorem binary {op : Op} (left : Spells (.chain op.level) l n before cs (op.symbol :: ds ++ rest))
    (right : Spells op.level.operand r n (before ++ cs ++ [op.symbol]) ds rest) :
    Spells (.chain op.level) (.binary op l r) n before (cs ++ op.symbol :: ds) rest := by
  obtain ⟨xs, rfl, layout, derives, nested⟩ := left
  obtain ⟨ys, rfl, layout', derives', nested'⟩ := right
  let o := Piece.bare (before ++ xs.flatMap Piece.text) (.operator op)
  have sign : o.text = [op.symbol] := rfl
  refine ⟨xs ++ o :: ys, by simp [sign],
    layout_append.2 ⟨?_, layout_cons.2 ⟨Piece.fits_sign rfl _ _, ?_⟩⟩, ?_, ?_⟩
  · simpa [sign] using layout
  · rwa [sign]
  · simpa using derives.binary (t := o.token) rfl rfl derives'
  · rw [List.map_append, derives.balanced.nesting_append, List.map_cons,
      nesting_cons (Token.neutral_operator rfl)]
    omega

end Spells

/-- A factor is a phrase of every category. -/
theorem Derives.of_factor {ts : List Token} {e : Expr} (h : Derives .factor ts e) :
    ∀ c, Derives c ts e
  | .factor => h
  | .negation => .positive h
  | .storable => .plain (.positive h)
  | .term => @Derives.operand .product _ _ (.plain (.positive h))
  | .expr => @Derives.operand .sum _ _ (@Derives.operand .product _ _ (.plain (.positive h)))

theorem Derives.expr_of_storable {ts : List Token} {e : Expr} (h : Derives .storable ts e) :
    Derives .expr ts e :=
  @Derives.operand .sum _ _ (@Derives.operand .product _ _ h)

theorem Derives.expr_of_chain {level : Level} {ts : List Token} {e : Expr}
    (h : Derives (.chain level) ts e) : Derives .expr ts e := by
  cases level with
  | sum => exact h
  | product => exact @Derives.operand .sum _ _ h

/-- With its operands in parentheses, an expression without signs is spelled as a
phrase. An operand is shut off from what follows by its own parenthesis. -/
theorem Expr.spells {e : Expr} (unsigned : e.Unsigned) (before : List Char) {rest : List Char}
    (stop : ∀ d ∈ rest.head?, ¬ d.isAlphanum) :
    Spells .expr e e.height before e.parenthesized rest := by
  have shut (rest : List Char) : ∀ d ∈ (')' :: rest).head?, ¬ d.isAlphanum := by
    simp only [List.head?_cons, Option.mem_some_iff, forall_eq']
    decide
  induction e generalizing before rest with
  | number v =>
    exact (Spells.number (unsigned v (by simp [literals])) stop).imp fun h => h.of_factor _
  | memory => exact (Spells.memory stop).imp fun h => h.of_factor _
  | negate e ih =>
    have operand := (ih unsigned (before ++ ['-'] ++ ['(']) (shut rest)).parens
    exact operand.negate.imp fun h => .expr_of_storable (.plain h)
  | store e ih =>
    have operand := (ih unsigned (before ++ ['(']) (shut ('S' :: rest))).parens
    have stored := (operand.imp fun h => h.of_factor .negation).store stop
    exact stored.imp .expr_of_storable
  | binary op l r ihl ihr =>
    obtain ⟨left, right⟩ := List.forall_mem_append.1 unsigned
    have lhs := (ihl left (before ++ ['('])
      (shut (op.symbol :: enclosed r.parenthesized ++ rest))).parens
    have rhs := (ihr right (before ++ enclosed l.parenthesized ++ [op.symbol] ++ ['('])
      (shut rest)).parens
    have both := Spells.binary (n := (Expr.binary op l r).height)
      ((lhs.imp fun h => h.of_factor _).mono (by rw [height]; omega))
      ((rhs.imp fun h => h.of_factor _).mono (by rw [height]; omega))
    exact both.imp .expr_of_chain

/-! ## Acceptance -/

theorem Expr.parse_parenthesized {e : Expr} {limit : Nat} (unsigned : e.Unsigned)
    (low : e.height ≤ limit) :
    { Parser.ofString (.ofList e.parenthesized) with limit := limit }.parse.1 =
      .ok ⟨e, e.height⟩ := by
  obtain ⟨pieces, text, layout, derives, nested⟩ := @e.spells unsigned [] [] (by simp)
  rw [text]
  exact parse_of_derives (tokenize_of_layout layout) rfl derives (by omega) (by omega)

/-- A parser returns exactly the trees within its limit that have no number with a
sign, and each of them for the text with all operands in parentheses. -/
theorem parser_returns_iff_unsigned (limit : Nat) (positive : 1 ≤ limit) (e : Expr) :
    ((∃ source, { Parser.ofString source with limit := limit }.parse.1.map Subtree.expr = .ok e) ↔
      (∀ v ∈ e.literals, 0 ≤ v.toInt) ∧ e.height ≤ limit) ∧
    ((∀ v ∈ e.literals, 0 ≤ v.toInt) → e.height ≤ limit →
      { Parser.ofString (.ofList e.parenthesized) with limit := limit }.parse.1.map Subtree.expr =
        .ok e) := by
  have written (unsigned : e.Unsigned) (low : e.height ≤ limit) :
      { Parser.ofString (.ofList e.parenthesized) with limit := limit }.parse.1.map Subtree.expr =
        .ok e := by
    rw [e.parse_parenthesized unsigned low]
    rfl
  refine ⟨⟨?_, fun ⟨unsigned, low⟩ => ⟨_, written unsigned low⟩⟩, written⟩
  rintro ⟨source, returned⟩
  rcases parsed : { Parser.ofString source with limit := limit }.parse with ⟨_ | tree, r⟩
  · simp [parsed, Except.map] at returned
  · obtain rfl : tree.expr = e := by simpa [parsed, Except.map] using returned
    obtain ⟨ts, eof, -, -, derives, -, low⟩ := derives_of_parse parsed
    exact ⟨derives.unsigned, by omega⟩

/-- The limit four admits this tree of height four, and the limit three does not. -/
theorem four_levels_are_returned :
    { Parser.ofString "-(((5)S)+(R))" with limit := 4 }.parse.1.map Subtree.expr =
      .ok (.negate (.binary .add (.store (.number 5)) .memory)) ∧
    ¬ ∃ source, { Parser.ofString source with limit := 3 }.parse.1.map Subtree.expr =
      .ok (.negate (.binary .add (.store (.number 5)) .memory)) := by
  let e : Expr := .negate (.binary .add (.store (.number 5)) .memory)
  have text : String.ofList e.parenthesized = "-(((5)S)+(R))" := by decide
  constructor
  · rw [← text]
    have unsigned : ∀ v ∈ e.literals, 0 ≤ v.toInt := by simp [e, Expr.literals]
    exact (parser_returns_iff_unsigned 4 (by decide) e).2 unsigned (by decide)
  · intro returned
    have low := ((parser_returns_iff_unsigned 3 (by decide) e).1.1 returned).2
    exact absurd low (by decide)

end Calculator
