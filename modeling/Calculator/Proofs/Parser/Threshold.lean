import Calculator.Proofs.Parser.Adequacy
import Mathlib.Data.Nat.Find

/-!
# The limit only cuts off

A parser under a larger limit goes the same way, until the smaller limit stops the
other one. So a tree, or an error that is not about the nesting, stays what it is
when the limit is raised. A tree is not higher than its text is long. So there is
a limit that stops nothing, and the least one is the threshold.
-/

namespace Calculator

/-- The error says that the limit is exceeded. -/
def Error.IsNesting (limit : Nat) (e : Error) : Prop :=
  ∃ position found, e = .unexpected position (Expectation.nesting limit).phrase found

theorem Expectation.take_nestingPhrase (limit : Nat) :
    (nestingPhrase limit).toList.take 4 = ['a', 'n', ' ', 'e'] := by
  have text : nestingPhrase limit =
      "an expression nested at most " ++ (toString limit ++ " deep") := String.append_assoc
  rw [text, String.toList_append, List.take_append_of_le_length (by decide +kernel)]
  decide +kernel

/-- No other expectation reads like one about the nesting. -/
theorem Expectation.eq_nesting {x : Expectation} {limit : Nat}
    (h : x.phrase = (nesting limit).phrase) : ∃ n, x = .nesting n := by
  have first := take_nestingPhrase limit
  rw [show nestingPhrase limit = _ from h.symm] at first
  cases x with
  | nesting n => exact ⟨n, rfl⟩
  | endOfInput | store | memory | closeParen | literal | operand =>
    exact absurd first (by decide +kernel)

theorem Token.isNesting_unexpected (t : Token) {n limit : Nat} (h : n = limit) :
    (t.unexpected (.nesting n)).IsNesting limit := by
  subst h
  exact ⟨_, _, rfl⟩

theorem Token.not_isNesting_unexpected (t : Token) {x : Expectation} (limit : Nat)
    (h : ∀ n, x ≠ .nesting n) : ¬(t.unexpected x).IsNesting limit := by
  rintro ⟨position, found, same⟩
  obtain ⟨-, phrase, -⟩ := Error.unexpected.inj same
  obtain ⟨n, rfl⟩ := Expectation.eq_nesting phrase
  exact h n rfl

theorem Parser.Stops.not_isNesting {p q : Parser} {e : Error} (h : p.Stops e q) (limit : Nat) :
    ¬e.IsNesting limit := by
  obtain ⟨_, _, rfl⟩ := h.unrecognized
  rintro ⟨_, _, same⟩
  cases same

/-! ## A larger limit -/

namespace Parser

variable {p q : Parser} {t : Token} {e : Error} {n : Nat}

/-- The same state under another limit. -/
def limited (p : Parser) (n : Nat) : Parser := { p with limit := n }

theorem Takes.limited (h : p.Takes t q) : (p.limited n).Takes t (q.limited n) := by
  obtain ⟨l, read, rfl⟩ := h
  exact ⟨l, read, rfl⟩

theorem Peeks.limited (h : p.Peeks t q) : (p.limited n).Peeks t (q.limited n) := by
  obtain ⟨l, r, read, unread, rfl⟩ := h
  exact ⟨l, r, read, unread, rfl⟩

theorem Stops.limited (h : p.Stops e q) : (p.limited n).Stops e (q.limited n) := by
  obtain ⟨l, read, rfl⟩ := h
  exact ⟨l, read, rfl⟩

theorem leave_limited (h : p.leave = .ok q) : (p.limited n).leave = .ok (q.limited n) := by
  obtain rfl := leave_eq_ok h
  rfl

end Parser

variable {d n : Nat}

theorem Parses.limited {ph : Phrase} {p q : Parser} {tree : Subtree} (h : Parses ph p tree q)
    (wider : p.limit ≤ n) : Parses ph (p.limited n) tree (q.limited n) := by
  induction h with
  | operand _ ih => exact .operand (ih wider)
  | binary left takes hop right fits ihl ihr =>
    have := left.depth_limit
    have := takes.depth_limit
    have := right.depth_limit
    exact .binary (ihl wider) takes.limited hop (ihr (by omega))
      (by simp only [Parser.limited]; omega)
  | chain _ peeks hop ih => exact .chain (ih wider) peeks.limited hop
  | plain _ peeks other ih => exact .plain (ih wider) peeks.limited other
  | store inner takes store fits ih =>
    have := inner.depth_limit
    have := takes.depth_limit
    exact .store (ih wider) takes.limited store (by simp only [Parser.limited]; omega)
  | positive peeks plus _ ih =>
    have := peeks.depth_limit
    exact .positive peeks.limited plus (ih (by omega))
  | negate takes minus inner fits ih =>
    have := takes.depth_limit
    have := inner.depth_limit
    exact .negate takes.limited minus (ih (by omega)) (by simp only [Parser.limited]; omega)
  | number takes number value => exact .number takes.limited number value
  | memory takes memory => exact .memory takes.limited memory
  | parens takes opens room _ leave closes closing ih =>
    have := takes.depth_limit
    exact .parens takes.limited opens (by simp only [Parser.limited]; omega)
      (ih (by simp only [Parser.enter]; omega)) (Parser.leave_limited leave) closes.limited closing

/-- A phrase that is rejected, but not for its nesting, is rejected in the same way under a larger
limit. -/
theorem Rejects.limited {c : Category} {p q : Parser} {e : Error} (h : Rejects c p e q)
    (here : p.limit = d) (wider : d ≤ n) (other : ¬e.IsNesting d) :
    Rejects c (p.limited n) e (q.limited n) := by
  have room {q : Parser} (small : q.limit = d) (fits : q.depth < q.limit) :
      (q.limited n).depth < (q.limited n).limit := by
    simp only [Parser.limited]
    omega
  induction h with
  | operand _ ih => exact .operand (ih here other)
  | chainStop parses stops => exact .chainStop (parses.limited (by omega)) stops.limited
  | right parses takes hop _ ih =>
    have := parses.depth_limit
    have := takes.depth_limit
    exact .right (parses.limited (by omega)) takes.limited hop (ih (by omega) other)
  | binaryHigh parses takes _ parses' =>
    have := parses.depth_limit
    have := takes.depth_limit
    have := parses'.depth_limit
    exact absurd (Token.isNesting_unexpected _ (by omega)) other
  | stored _ ih => exact .stored (ih here other)
  | storeStop parses stops => exact .storeStop (parses.limited (by omega)) stops.limited
  | notStore parses takes keyword store =>
    exact .notStore (parses.limited (by omega)) takes.limited keyword store
  | storeHigh parses takes =>
    have := parses.depth_limit
    have := takes.depth_limit
    exact absurd (Token.isNesting_unexpected _ (by omega)) other
  | negationStop stops => exact .negationStop stops.limited
  | positive peeks plus _ ih =>
    have := peeks.depth_limit
    exact .positive peeks.limited plus (ih (by omega) other)
  | negated takes minus _ ih =>
    have := takes.depth_limit
    exact .negated takes.limited minus (ih (by omega) other)
  | negateHigh takes _ parses =>
    have := takes.depth_limit
    have := parses.depth_limit
    exact absurd (Token.isNesting_unexpected _ (by omega)) other
  | factorStop stops => exact .factorStop stops.limited
  | literal takes number value => exact .literal takes.limited number value
  | notMemory takes keyword memory => exact .notMemory takes.limited keyword memory
  | deep takes =>
    have := takes.depth_limit
    exact absurd (Token.isNesting_unexpected _ (by omega)) other
  | inside takes opens fits _ ih =>
    have := takes.depth_limit
    exact .inside takes.limited opens (room (by omega) fits)
      (ih (by simp only [Parser.enter]; omega) other)
  | closeStop takes opens fits parses leave stops =>
    have := takes.depth_limit
    have inside := parses.limited (n := n) (by simp only [Parser.enter]; omega)
    exact .closeStop takes.limited opens (room (by omega) fits) inside
      (Parser.leave_limited leave) stops.limited
  | unclosed takes opens fits parses leave closes closing =>
    have := takes.depth_limit
    have inside := parses.limited (n := n) (by simp only [Parser.enter]; omega)
    exact .unclosed takes.limited opens (room (by omega) fits) inside
      (Parser.leave_limited leave) closes.limited closing
  | operandMissing takes number keyword opens =>
    exact .operandMissing takes.limited number keyword opens

/-- The text is not rejected for its nesting. -/
def Parser.Free (p : Parser) : Prop := ∀ e, p.parse.1 = .error e → ¬e.IsNesting p.limit

/-- Then a larger limit does not change what the text is read as. -/
theorem Parser.Free.parse_limited {p : Parser} (h : p.Free) (wider : p.limit ≤ n) :
    (p.limited n).parse.1 = p.parse.1 := by
  rcases parsed : p.parse with ⟨e | tree, r⟩
  · have other := h e (by rw [parsed])
    rcases parse_eq_error_iff.1 parsed with
      rejects | ⟨tree, q, parses, stops | ⟨t, takes, more, rfl⟩⟩
    · rw [parse_of_rejects (rejects.limited rfl wider other)]
    · rw [parse_of_stops (parses.limited wider) stops.limited]
    · rw [parse_of_takes (parses.limited wider) takes.limited, if_neg more]
  · obtain ⟨q, t, parses, takes, eof⟩ := parse_eq_ok_iff.1 parsed
    rw [parse_of_takes (parses.limited wider) takes.limited, if_pos eof]

/-! ## A limit that is large enough -/

/-- Every node of a tree comes from a token of its own. -/
theorem Parses.height_add_size_le {ph : Phrase} {p q : Parser} {tree : Subtree}
    (h : Parses ph p tree q) : tree.height + q.size ≤ p.size := by
  induction h with
  | operand _ ih => exact ih
  | binary _ takes hop _ _ ihl ihr =>
    have := takes.size_lt (Level.kind_ne_eof hop)
    dsimp only
    omega
  | chain _ peeks _ ih | plain _ peeks _ ih =>
    have := peeks.size_le
    omega
  | store _ takes store _ ih =>
    have := takes.size_lt (Token.kind_ne_eof_of_isKeyword store)
    dsimp only
    omega
  | positive peeks _ _ ih =>
    have := peeks.size_le
    omega
  | negate takes minus _ _ ih =>
    have := takes.size_lt (by simp [minus])
    dsimp only
    omega
  | number takes number =>
    have := takes.size_lt (by simp [number])
    dsimp only
    omega
  | memory takes memory =>
    have := takes.size_lt (Token.kind_ne_eof_of_isKeyword memory)
    dsimp only
    omega
  | parens takes opens _ _ leave closes closing ih =>
    have := takes.size_lt (by simp [opens])
    have := closes.size_lt (by simp [closing])
    have := Parser.size_leave leave
    rw [Parser.size_enter] at ih
    omega

/-- A limit above the depth and the size is never exceeded. -/
theorem Rejects.not_isNesting {c : Category} {p q : Parser} {e : Error} (h : Rejects c p e q)
    (wide : p.depth + p.size < p.limit) (limit : Nat) : ¬e.IsNesting limit := by
  induction h with
  | operand _ ih | stored _ ih => exact ih wide
  | chainStop _ stops | storeStop _ stops | negationStop stops => exact stops.not_isNesting limit
  | factorStop stops | closeStop _ _ _ _ _ stops => exact stops.not_isNesting limit
  | right parses takes hop _ ih =>
    have := parses.depth_limit
    have := parses.size_lt
    have := takes.depth_limit
    have := takes.size_lt (Level.kind_ne_eof hop)
    exact ih (by omega)
  | binaryHigh parses takes hop parses' high =>
    have := parses.depth_limit
    have := parses.height_add_size_le
    have := takes.depth_limit
    have := takes.size_lt (Level.kind_ne_eof hop)
    have := parses'.depth_limit
    have := parses'.height_add_size_le
    omega
  | notStore | literal | notMemory | unclosed | operandMissing =>
    exact Token.not_isNesting_unexpected _ limit nofun
  | storeHigh parses takes _ high =>
    have := parses.depth_limit
    have := parses.height_add_size_le
    have := takes.depth_limit
    omega
  | positive peeks _ _ ih =>
    have := peeks.depth_limit
    have := peeks.size_le
    exact ih (by omega)
  | negated takes minus _ ih =>
    have := takes.depth_limit
    have := takes.size_lt (by simp [minus])
    exact ih (by omega)
  | negateHigh takes minus parses high =>
    have := takes.depth_limit
    have := takes.size_lt (by simp [minus])
    have := parses.depth_limit
    have := parses.height_add_size_le
    omega
  | deep takes _ full =>
    have := takes.depth_limit
    omega
  | inside takes opens _ _ ih =>
    have := takes.depth_limit
    have := takes.size_lt (by simp [opens])
    exact ih (by rw [Parser.size_enter]; simp only [Parser.enter]; omega)

theorem Parser.free_of_wide {p : Parser} (wide : p.depth + p.size < p.limit) : p.Free := by
  intro e failed
  rcases parse_eq_error_iff.1 (Prod.ext failed rfl) with
    rejects | ⟨tree, q, parses, stops | ⟨t, takes, more, rfl⟩⟩
  · exact rejects.not_isNesting wide _
  · exact stops.not_isNesting _
  · exact t.not_isNesting_unexpected _ nofun

/-- There is a least limit that a text is not rejected for. Below it, the text is rejected for its
nesting, and from there on the limit changes nothing. -/
theorem limit_cuts_off_at_threshold (source : String) :
    let parse (limit : Nat) := ({ Parser.ofString source with limit } : Parser).parse.1
    (∃ threshold ≤ source.length + 1, ∃ outcome,
      (∀ limit, threshold ≤ limit → parse limit = outcome) ∧
      ∀ limit, limit < threshold → ∃ position found, parse limit =
        .error (.unexpected position s!"an expression nested at most {limit} deep" found)) ∧
    (∀ limit limit' tree, limit ≤ limit' → parse limit = .ok tree → parse limit' = .ok tree) ∧
    ∀ limit limit' e, limit ≤ limit' → parse limit = .error e →
      (∀ position found, e ≠
        .unexpected position s!"an expression nested at most {limit} deep" found) →
      parse limit' = .error e := by
  intro parse
  let p := Parser.ofString source
  have stays {limit limit' : Nat} (free : (p.limited limit).Free) (le : limit ≤ limit') :
      parse limit' = parse limit := free.parse_limited le
  have wide : (p.limited (source.length + 1)).Free := by
    apply Parser.free_of_wide
    simp [p, Parser.limited, Parser.size, Parser.ofString, Lexer.size, Lexer.ofString,
      String.length_toList]
  refine ⟨?_, ?_, ?_⟩
  · classical
    have exists_free : ∃ limit, (p.limited limit).Free := ⟨_, wide⟩
    refine ⟨Nat.find exists_free, Nat.find_min' exists_free wide,
      parse (Nat.find exists_free), ?_, ?_⟩
    · intro limit le
      exact stays (Nat.find_spec exists_free) le
    · intro limit lt
      have stopped := Nat.find_min exists_free lt
      simp only [Parser.Free, not_forall, not_not] at stopped
      obtain ⟨e, failed, position, found, rfl⟩ := stopped
      exact ⟨position, found, failed⟩
  · intro limit limit' tree le parsed
    have free : (p.limited limit).Free := by
      intro e failed
      cases parsed.symm.trans failed
    exact (stays free le).trans parsed
  · intro limit limit' e le failed other
    have free : (p.limited limit).Free := by
      intro e' failed'
      cases failed.symm.trans failed'
      rintro ⟨position, found, same⟩
      exact other position found same
    exact (stays free le).trans failed

/-- One pair of parentheses is too much for the limit zero, and for no larger one. -/
theorem parentheses_need_limit_one :
    let parse (limit : Nat) := ({ Parser.ofString "(1)" with limit } : Parser).parse.1
    parse 0 = .error (.unexpected ⟨1, 1⟩ "an expression nested at most 0 deep" "\"(\"") ∧
    ∀ limit, 1 ≤ limit → parse limit = .ok ⟨.number 1, 1⟩ := by
  intro parse
  have one : parse 1 = .ok ⟨.number 1, 1⟩ := by decide +kernel
  refine ⟨by decide +kernel, fun limit le => ?_⟩
  exact (limit_cuts_off_at_threshold "(1)").2.1 1 limit _ le one

end Calculator
