import Calculator.Proofs.Parser.Acceptance
import Mathlib.Logic.Relation

/-!
# A parser step by step

The functions of a parser call each other. `Descent` keeps the calls that wait
for a tree in a list, so that everything a parser does on its way is a step from
one state to the next. The counters of a step are words of 64 bits, and a step
that would go past their ends panics, like one that breaks a rule of use.

Every step does one of a few things to the parser (`Effect`), and none of them
panics (`turn_follows`). Step by step, a descent comes to what `Parser.parse`
gives (`ends_parse`).
-/

namespace Calculator

/-- Why a step cannot be done at all. -/
inductive Panic where
  | breach (rule : Breach)
  /-- A counter has no next word. -/
  | overflow
  deriving DecidableEq, Repr

namespace Descent

/-- What is done next. -/
inductive Task where
  | read (c : Category)
  /-- Go on with a chain that starts with `left`. -/
  | goOn (level : Level) (left : Subtree)
  /-- Hand the tree to the call that waits for it. -/
  | give (tree : Subtree)
  /-- Read the parenthesis behind the tree. -/
  | close (tree : Subtree)
  deriving DecidableEq, Repr

/-- A call that waits for a tree. -/
inductive Frame where
  | chain (level : Level)
  | right (level : Level) (left : Subtree) (t : Token) (op : Op)
  | store
  | negate (t : Token)
  | parens
  deriving DecidableEq, Repr

end Descent

structure Descent where
  task : Descent.Task
  /-- The calls that wait, the innermost first. -/
  waiting : List Descent.Frame
  parser : Parser
  deriving DecidableEq, Repr

namespace Descent

/-- What one step comes to. -/
inductive Turn where
  | goes (next : Descent)
  | halts (outcome : Except Error Subtree) (rest : Parser)
  | panics (reason : Panic)

/-- Read a token and go on with it. -/
def reading (p : Parser) (next : Token → Parser → Turn) : Turn :=
  match p.lexer.next with
  | (.error e, l) => .halts (.error e) { p with lexer := l }
  | (.ok t, l) => next t { p with lexer := l }

/-- Take back the token that was just read. -/
def unreading (p : Parser) (next : Parser → Turn) : Turn :=
  match p.lexer.unread with
  | .error b => .panics (.breach b)
  | .ok l => next { p with lexer := l }

/-- Count one more in a word. -/
def counting (n : Nat) (next : Nat → Turn) : Turn :=
  if n + 1 < UInt64.size then next (n + 1) else .panics .overflow

/-- Put a node at `t` on top of operands of the given height. -/
def growing (p : Parser) (t : Token) (height : Nat) (next : Nat → Turn) : Turn :=
  if p.limit ≤ height then .halts (.error (t.unexpected (.nesting p.limit))) p
  else counting height next

def turnFactor (ws : List Frame) (t : Token) (p : Parser) : Turn :=
  match t.kind with
  | .number =>
    match t.value? with
    | some v => .goes ⟨.give ⟨.number v, 1⟩, ws, p⟩
    | none => .halts (.error (t.unexpected .literal)) p
  | .keyword =>
    if t.isKeyword "R" then .goes ⟨.give ⟨.memory, 1⟩, ws, p⟩
    else .halts (.error (t.unexpected .memory)) p
  | .openParen =>
    if p.limit ≤ p.depth then .halts (.error (t.unexpected (.nesting p.limit))) p
    else counting p.depth fun depth => .goes ⟨.read .expr, .parens :: ws, { p with depth }⟩
  | _ => .halts (.error (t.unexpected .operand)) p

def turnStore (tree : Subtree) (ws : List Frame) (t : Token) (p : Parser) : Turn :=
  match t.storing? with
  | some true =>
    growing p t tree.height fun height => .goes ⟨.give ⟨.store tree.expr, height⟩, ws, p⟩
  | some false => .halts (.error (t.unexpected .store)) p
  | none => unreading p fun q => .goes ⟨.give tree, ws, q⟩

/-- Hand the tree to the innermost call. Without one, it is the whole text. -/
def turnGive (tree : Subtree) (p : Parser) : List Frame → Turn
  | [] => reading p fun t q =>
    if t.kind = .eof then .halts (.ok tree) q else .halts (.error (t.unexpected .endOfInput)) q
  | .chain level :: ws => .goes ⟨.goOn level tree, ws, p⟩
  | .right level left t op :: ws =>
    growing p t (max left.height tree.height) fun height =>
      .goes ⟨.goOn level ⟨.binary op left.expr tree.expr, height⟩, ws, p⟩
  | .store :: ws => reading p (turnStore tree ws)
  | .negate t :: ws =>
    growing p t tree.height fun height => .goes ⟨.give ⟨.negate tree.expr, height⟩, ws, p⟩
  | .parens :: ws =>
    match p.leave with
    | .error b => .panics (.breach b)
    | .ok q => .goes ⟨.close tree, ws, q⟩

/-- One step. -/
def turn : Descent → Turn
  | ⟨.read (.chain level), ws, p⟩ => .goes ⟨.read level.operand, .chain level :: ws, p⟩
  | ⟨.read .storable, ws, p⟩ => .goes ⟨.read .negation, .store :: ws, p⟩
  | ⟨.read .negation, ws, p⟩ =>
    reading p fun t q =>
      if t.kind = .operator .sub then .goes ⟨.read .factor, .negate t :: ws, q⟩
      else unreading q fun r => .goes ⟨.read .factor, ws, r⟩
  | ⟨.read .factor, ws, p⟩ => reading p (turnFactor ws)
  | ⟨.goOn level left, ws, p⟩ =>
    reading p fun t q =>
      match level.op? t with
      | some op => .goes ⟨.read level.operand, .right level left t op :: ws, q⟩
      | none => unreading q fun r => .goes ⟨.give left, ws, r⟩
  | ⟨.close tree, ws, p⟩ =>
    reading p fun t q =>
      if t.kind = .closeParen then .goes ⟨.give tree, ws, q⟩
      else .halts (.error (t.unexpected .closeParen)) q
  | ⟨.give tree, ws, p⟩ => turnGive tree p ws

/-- Read a whole text. -/
def start (p : Parser) : Descent := ⟨.read .expr, [], p⟩

def Goes (d d' : Descent) : Prop := d.turn = .goes d'

def Reaches : Descent → Descent → Prop := Relation.ReflTransGen Goes

/-- The parentheses that were entered and whose expression is not read yet. -/
def opened (d : Descent) : Nat := d.waiting.count .parens

/-! ## What a step does -/

section Equations

variable {p q r : Parser} {t : Token} {e : Error}

theorem reading_of_stops (h : p.Stops e q) (next : Token → Parser → Turn) :
    reading p next = .halts (.error e) q := by
  obtain ⟨l, read, rfl⟩ := h
  rw [reading, read]

theorem reading_of_takes (h : p.Takes t q) (next : Token → Parser → Turn) :
    reading p next = next t q := by
  obtain ⟨l, read, rfl⟩ := h
  rw [reading, read]

/-- A token that is looked at is read and taken back. -/
theorem exists_unreading (h : p.Peeks t r) :
    ∃ q, p.Takes t q ∧ ∀ next, unreading q next = next r := by
  obtain ⟨l, l', read, unread, rfl⟩ := h
  refine ⟨{ p with lexer := l }, ⟨l, read, rfl⟩, fun next => ?_⟩
  rw [unreading, unread]

theorem unreading_of_takes (h : p.Takes t q) :
    ∃ r, p.Peeks t r ∧ ∀ next, unreading q next = next r := by
  obtain ⟨r, peeks⟩ := h.exists_peeks
  obtain ⟨q', takes, back⟩ := exists_unreading peeks
  obtain ⟨l, read, rfl⟩ := h
  obtain ⟨l', read', rfl⟩ := takes
  cases read.symm.trans read'
  exact ⟨r, peeks, back⟩

theorem counting_of_lt {n : Nat} (h : n + 1 < UInt64.size) (next : Nat → Turn) :
    counting n next = next (n + 1) := if_pos h

theorem growing_of_lt {height : Nat} (small : p.limit < UInt64.size) (h : height < p.limit)
    (next : Nat → Turn) : growing p t height next = next (height + 1) := by
  rw [growing, if_neg (by omega), counting_of_lt (by omega)]

theorem growing_of_le {height : Nat} (h : p.limit ≤ height) (next : Nat → Turn) :
    growing p t height next = .halts (.error (t.unexpected (.nesting p.limit))) p := if_pos h

end Equations

/-- What a step may do to the parser, and to the number of open parentheses. -/
inductive Effect : Nat → Parser → Nat → Parser → Prop where
  | none {n : Nat} {p : Parser} : Effect n p n p
  | takes {n : Nat} {p q : Parser} {t : Token} : p.Takes t q → Effect n p n q
  | peeks {n : Nat} {p q : Parser} {t : Token} : p.Peeks t q → Effect n p n q
  | enters {n : Nat} {p q : Parser} {t : Token} :
      p.Takes t q → q.depth < q.limit → Effect n p (n + 1) q.enter
  | leaves {n : Nat} {p q : Parser} : p.leave = .ok q → Effect (n + 1) p n q

/-- The step does not panic. It has an effect, or it is the last one and reads at
most one token. -/
def Turn.Follows (d : Descent) : Turn → Prop
  | .goes d' => Effect d.opened d.parser d'.opened d'.parser
  | .halts _ q => q = d.parser ∨ (∃ t, d.parser.Takes t q) ∨ ∃ e, d.parser.Stops e q
  | .panics _ => False

section Follows

variable {d : Descent} {q : Parser} {t : Token}

theorem follows_reading {next : Token → Parser → Turn}
    (h : ∀ t q, d.parser.Takes t q → (next t q).Follows d) : (reading d.parser next).Follows d := by
  rcases d.parser.stops_or_takes with ⟨e, q, stops⟩ | ⟨t, q, takes⟩
  · rw [reading_of_stops stops]
    exact .inr (.inr ⟨e, stops⟩)
  · rw [reading_of_takes takes]
    exact h t q takes

theorem follows_unreading {next : Parser → Turn} (takes : d.parser.Takes t q)
    (h : ∀ r, d.parser.Peeks t r → (next r).Follows d) : (unreading q next).Follows d := by
  obtain ⟨r, peeks, back⟩ := unreading_of_takes takes
  rw [back]
  exact h r peeks

theorem follows_growing {next : Nat → Turn} (small : d.parser.limit < UInt64.size)
    (here : q = d.parser ∨ ∃ t, d.parser.Takes t q) (height : Nat)
    (h : ∀ n, (next n).Follows d) : (growing q t height next).Follows d := by
  have limit : q.limit = d.parser.limit := by
    rcases here with rfl | ⟨t, takes⟩
    · rfl
    · exact takes.depth_limit.2
  by_cases high : q.limit ≤ height
  · rw [growing_of_le high]
    exact here.imp_right .inl
  · rw [growing_of_lt (by omega) (by omega)]
    exact h _

end Follows

theorem follows_factor {d : Descent} {q : Parser} {t : Token}
    (small : d.parser.limit < UInt64.size) (takes : d.parser.Takes t q) :
    (turnFactor d.waiting t q).Follows d := by
  have stop {e : Error} : (Turn.halts (.error e) q).Follows d := .inr (.inl ⟨t, takes⟩)
  have limit := takes.depth_limit.2
  unfold turnFactor
  split
  · split
    · exact .takes takes
    · exact stop
  · split
    · exact .takes takes
    · exact stop
  · split
    · exact stop
    · next room =>
      rw [counting_of_lt (by omega)]
      simpa [Turn.Follows, opened, Parser.enter] using Effect.enters takes (by omega)
  · exact stop

theorem follows_store {d : Descent} {q : Parser} {t : Token} {tree : Subtree} {ws : List Frame}
    (small : d.parser.limit < UInt64.size) (waiting : d.waiting = .store :: ws)
    (takes : d.parser.Takes t q) : (turnStore tree ws t q).Follows d := by
  have opened : d.opened = ws.count .parens := by simp [opened, waiting]
  unfold turnStore
  split
  · refine follows_growing small (.inr ⟨t, takes⟩) _ fun n => ?_
    rw [Turn.Follows, opened]
    exact .takes takes
  · exact .inr (.inl ⟨t, takes⟩)
  · refine follows_unreading takes fun r peeks => ?_
    rw [Turn.Follows, opened]
    exact .peeks peeks

theorem follows_give {d : Descent} (tree : Subtree) (small : d.parser.limit < UInt64.size)
    (counted : d.opened ≤ d.parser.depth) : (turnGive tree d.parser d.waiting).Follows d := by
  rcases waiting : d.waiting with _ | ⟨w, ws⟩
  · rw [turnGive]
    refine follows_reading fun t q takes => ?_
    split <;> exact .inr (.inl ⟨t, takes⟩)
  have opened_eq (h : w ≠ .parens) : d.opened = ws.count .parens := by simp [opened, waiting, h]
  cases w with
  | chain level =>
    rw [turnGive, Turn.Follows, opened_eq nofun]
    exact .none
  | right level left t op =>
    refine follows_growing small (.inl rfl) _ fun n => ?_
    rw [Turn.Follows, opened_eq nofun]
    exact .none
  | store => exact follows_reading fun t q takes => follows_store small waiting takes
  | negate t =>
    refine follows_growing small (.inl rfl) _ fun n => ?_
    rw [Turn.Follows, opened_eq nofun]
    exact .none
  | parens =>
    have one : d.opened = ws.count .parens + 1 := by simp [opened, waiting]
    obtain ⟨q, leave⟩ := Parser.exists_leave (p := d.parser) (by omega)
    rw [turnGive, leave, Turn.Follows, one]
    exact .leaves leave

/-- Where the open parentheses are counted and the limit is a word, a step does not
panic. -/
theorem turn_follows (d : Descent) (small : d.parser.limit < UInt64.size)
    (counted : d.opened ≤ d.parser.depth) : d.turn.Follows d := by
  obtain ⟨task, ws, p⟩ := d
  cases task with
  | read c =>
    cases c with
    | chain level => simpa [turn, Turn.Follows, opened] using Effect.none
    | storable => simpa [turn, Turn.Follows, opened] using Effect.none
    | negation =>
      rw [turn]
      refine follows_reading (d := ⟨_, _, _⟩) fun t q takes => ?_
      split
      · simpa [Turn.Follows, opened] using Effect.takes takes
      · exact follows_unreading takes fun r peeks => .peeks peeks
    | factor => exact follows_reading (d := ⟨_, _, _⟩) fun t q takes => follows_factor small takes
  | goOn level left =>
    rw [turn]
    refine follows_reading (d := ⟨_, _, _⟩) fun t q takes => ?_
    split
    · simpa [Turn.Follows, opened] using Effect.takes takes
    · exact follows_unreading takes fun r peeks => .peeks peeks
  | close tree =>
    rw [turn]
    refine follows_reading (d := ⟨_, _, _⟩) fun t q takes => ?_
    split
    · exact .takes takes
    · exact .inr (.inl ⟨t, takes⟩)
  | give tree => exact follows_give (d := ⟨_, _, _⟩) tree small counted

/-! ## What a run does -/

/-- The depth follows the parentheses, and the limit stays. -/
theorem Effect.depth_limit {n m : Nat} {p q : Parser} (h : Effect n p m q) :
    q.depth + n = p.depth + m ∧ q.limit = p.limit := by
  cases h with
  | none => exact ⟨rfl, rfl⟩
  | takes takes =>
    have := takes.depth_limit
    omega
  | peeks peeks =>
    have := peeks.depth_limit
    omega
  | enters takes =>
    have := takes.depth_limit
    simp only [Parser.enter]
    omega
  | leaves leave =>
    obtain rfl := Parser.leave_eq_ok leave
    refine ⟨?_, rfl⟩
    simp only [Parser.enter]
    omega

/-- In the state `d` of a run from `p`, the open parentheses are counted. -/
structure Within (p : Parser) (d : Descent) : Prop where
  limit : d.parser.limit = p.limit
  depth : d.parser.depth = p.depth + d.opened

section Run

variable {p q : Parser} {d d' : Descent}

theorem within_start (p : Parser) : Within p (start p) := ⟨rfl, rfl⟩

theorem Within.follows (h : Within p d) (small : p.limit < UInt64.size) : d.turn.Follows d :=
  turn_follows d (h.limit ▸ small) (by rw [h.depth]; exact Nat.le_add_left _ _)

theorem Within.effect (h : Within p d) (small : p.limit < UInt64.size) (goes : d.Goes d') :
    Effect d.opened d.parser d'.opened d'.parser := by
  have follows := h.follows small
  rwa [goes] at follows

/-- What holds at the start and is kept by every effect holds all the way. -/
theorem Reaches.induction {I : Parser → Prop} (h : (start p).Reaches d)
    (small : p.limit < UInt64.size) (first : I p)
    (step : ∀ n m q r, Effect n q m r → q.limit = p.limit → I q → I r) :
    Within p d ∧ I d.parser := by
  induction h with
  | refl => exact ⟨within_start p, first⟩
  | tail _ goes ih =>
    obtain ⟨within, holds⟩ := ih
    have effect := within.effect small goes
    have counts := effect.depth_limit
    have depth := within.depth
    exact ⟨⟨by rw [counts.2, within.limit], by omega⟩, step _ _ _ _ effect within.limit holds⟩

theorem Reaches.within (h : (start p).Reaches d) (small : p.limit < UInt64.size) : Within p d :=
  (h.induction (I := fun _ => True) small trivial fun _ _ _ _ _ _ _ => trivial).1

/-- A run comes to one end only. -/
theorem Reaches.unique {a : Descent} {x y : Except Error Subtree} {q r : Parser}
    (h : a.Reaches d) (h' : a.Reaches d') (halts : d.turn = .halts x q)
    (halts' : d'.turn = .halts y r) : d = d' := by
  have last {d d' : Descent} {x : Except Error Subtree} {q : Parser} (halts : d.turn = .halts x q)
      (h : d.Reaches d') : d = d' := by
    rcases h.cases_head with same | ⟨_, goes, -⟩
    · exact same
    · cases halts.symm.trans goes
  have one : Relator.RightUnique Goes := fun _ _ _ goes goes' => by
    cases goes.symm.trans goes'
    rfl
  rcases h.total_of_right_unique one h' with onward | onward
  · exact last halts onward
  · exact (last halts' onward).symm

end Run

/-! ## Runs give what the functions give -/

section Steps

variable {p q r : Parser} {t : Token} (ws : List Frame)

theorem goes_chain (level : Level) (p : Parser) :
    Goes ⟨.read (.chain level), ws, p⟩ ⟨.read level.operand, .chain level :: ws, p⟩ := rfl

theorem goes_storable (p : Parser) :
    Goes ⟨.read .storable, ws, p⟩ ⟨.read .negation, .store :: ws, p⟩ := rfl

theorem goes_right {level : Level} {op : Op} (left : Subtree) (takes : q.Takes t r)
    (hop : level.op? t = some op) :
    Goes ⟨.goOn level left, ws, q⟩ ⟨.read level.operand, .right level left t op :: ws, r⟩ := by
  simp only [Goes, turn, reading_of_takes takes, hop]

theorem goes_positive (peeks : p.Peeks t q) (plus : t.kind ≠ .operator .sub) :
    Goes ⟨.read .negation, ws, p⟩ ⟨.read .factor, ws, q⟩ := by
  obtain ⟨_, takes, back⟩ := exists_unreading peeks
  simp only [Goes, turn, reading_of_takes takes, if_neg plus, back]

theorem goes_negate (takes : p.Takes t q) (minus : t.kind = .operator .sub) :
    Goes ⟨.read .negation, ws, p⟩ ⟨.read .factor, .negate t :: ws, q⟩ := by
  simp only [Goes, turn, reading_of_takes takes, if_pos minus]

theorem goes_enter (small : p.limit < UInt64.size) (takes : p.Takes t q)
    (opens : t.kind = .openParen) (room : q.depth < q.limit) :
    Goes ⟨.read .factor, ws, p⟩ ⟨.read .expr, .parens :: ws, q.enter⟩ := by
  have := takes.depth_limit
  simp only [Goes, turn, reading_of_takes takes, turnFactor, opens]
  rw [if_neg (by omega), counting_of_lt (by omega)]
  rfl

theorem goes_leave (tree : Subtree) (leave : p.leave = .ok q) :
    Goes ⟨.give tree, .parens :: ws, p⟩ ⟨.close tree, ws, q⟩ := by
  simp only [Goes, turn, turnGive, leave]

end Steps

/-- What a phrase that was read is handed on as. -/
def yields : Phrase → Subtree → Task
  | .whole _, tree => .give tree
  | .begun level, tree => .goOn level tree

/-- A phrase that is read is read step by step, whatever waits for it. -/
theorem reaches_of_parses {ph : Phrase} {p q : Parser} {tree : Subtree} (h : Parses ph p tree q)
    (small : p.limit < UInt64.size) (ws : List Frame) :
    Reaches ⟨.read ph.category, ws, p⟩ ⟨yields ph tree, ws, q⟩ := by
  induction h generalizing ws with
  | @operand level p q tree _ ih =>
    have given : Goes ⟨.give tree, .chain level :: ws, q⟩ ⟨.goOn level tree, ws, q⟩ := rfl
    exact ((ih small _).head (goes_chain ws level p)).tail given
  | @binary level op p q r s t left right parses takes hop parses' fits ihl ihr =>
    have := parses.depth_limit
    have := takes.depth_limit
    have := parses'.depth_limit
    have grows : Goes ⟨.give right, .right level left t op :: ws, s⟩
        ⟨.goOn level ⟨.binary op left.expr right.expr, max left.height right.height + 1⟩, ws, s⟩ :=
      growing_of_lt (by omega) fits _
    exact ((ihl small ws).tail (goes_right ws left takes hop)).trans
      ((ihr (by omega) _).tail grows)
  | chain _ peeks hop ih =>
    obtain ⟨_, takes, back⟩ := exists_unreading peeks
    refine (ih small ws).tail ?_
    simp only [yields, Goes, turn, reading_of_takes takes, hop, back]
  | plain _ peeks other ih =>
    obtain ⟨_, takes, back⟩ := exists_unreading peeks
    refine ((ih small _).head (goes_storable ws _)).tail ?_
    simp only [yields, Goes, turn, turnGive, reading_of_takes takes, turnStore,
      Token.storing?_eq_none other, back]
  | store parses takes store fits ih =>
    have := parses.depth_limit
    have := takes.depth_limit
    refine ((ih small _).head (goes_storable ws _)).tail ?_
    simp only [yields, Goes, turn, turnGive, reading_of_takes takes, turnStore,
      Token.storing?_of_store store]
    exact growing_of_lt (by omega) fits _
  | positive peeks plus _ ih =>
    have := peeks.depth_limit
    exact (ih (by omega) ws).head (goes_positive ws peeks plus)
  | @negate p q r t tree takes minus parses fits ih =>
    have := takes.depth_limit
    have := parses.depth_limit
    have grows : Goes ⟨.give tree, .negate t :: ws, r⟩
        ⟨.give ⟨.negate tree.expr, tree.height + 1⟩, ws, r⟩ :=
      growing_of_lt (by omega) fits _
    exact ((ih (by omega) _).head (goes_negate ws takes minus)).tail grows
  | number takes kind value =>
    refine .single ?_
    simp only [yields, Goes, Phrase.category, turn, reading_of_takes takes, turnFactor, kind, value]
  | memory takes word =>
    refine .single ?_
    simp only [yields, Goes, Phrase.category, turn, reading_of_takes takes, turnFactor,
      Token.kind_of_isKeyword word, word, if_true]
  | @parens p q r s u o c tree takes opens room _ leave closes closing ih =>
    have := takes.depth_limit
    have closed : Goes ⟨.close tree, ws, s⟩ ⟨.give tree, ws, u⟩ := by
      simp only [Goes, turn, reading_of_takes closes, if_pos closing]
    have inside := ih (by simp only [Parser.enter]; omega) (.parens :: ws)
    exact ((inside.head (goes_enter ws small takes opens room)).tail
      (goes_leave ws tree leave)).tail closed

/-- The steps from `d` end with the outcome in the state `q`. -/
def Ends (d : Descent) (outcome : Except Error Subtree) (q : Parser) : Prop :=
  ∃ d', d.Reaches d' ∧ d'.turn = .halts outcome q

theorem Reaches.ends {d d' : Descent} {outcome : Except Error Subtree} {q : Parser}
    (h : d.Reaches d') (ends : d'.Ends outcome q) : d.Ends outcome q := by
  obtain ⟨last, onward, halts⟩ := ends
  exact ⟨last, h.trans onward, halts⟩

/-- A phrase that is rejected ends the run, whatever waits for it. -/
theorem ends_of_rejects {c : Category} {p q : Parser} {e : Error} (h : Rejects c p e q)
    (small : p.limit < UInt64.size) (ws : List Frame) : Ends ⟨.read c, ws, p⟩ (.error e) q := by
  induction h generalizing ws with
  | operand _ ih => exact Reaches.ends (.single (goes_chain ws _ _)) (ih small _)
  | chainStop parses stops =>
    refine ⟨_, reaches_of_parses parses small ws, ?_⟩
    simp only [yields, turn, reading_of_stops stops]
  | right parses takes hop _ ih =>
    have := parses.depth_limit
    have := takes.depth_limit
    exact Reaches.ends ((reaches_of_parses parses small ws).tail (goes_right ws _ takes hop))
      (ih (by omega) _)
  | @binaryHigh level op p q r s t left right parses takes hop parses' high =>
    have := parses.depth_limit
    have := takes.depth_limit
    have begun := (reaches_of_parses parses small ws).tail (goes_right ws left takes hop)
    exact ⟨_, begun.trans (reaches_of_parses parses' (by omega) _), growing_of_le high _⟩
  | stored _ ih => exact Reaches.ends (.single (goes_storable ws _)) (ih small _)
  | storeStop parses stops =>
    refine ⟨_, (reaches_of_parses parses small _).head (goes_storable ws _), ?_⟩
    simp only [yields, turn, turnGive, reading_of_stops stops]
  | notStore parses takes keyword other =>
    refine ⟨_, (reaches_of_parses parses small _).head (goes_storable ws _), ?_⟩
    simp only [yields, turn, turnGive, reading_of_takes takes, turnStore, Token.storing?, keyword,
      other, if_true]
  | storeHigh parses takes store high =>
    refine ⟨_, (reaches_of_parses parses small _).head (goes_storable ws _), ?_⟩
    simp only [yields, turn, turnGive, reading_of_takes takes, turnStore,
      Token.storing?_of_store store]
    exact growing_of_le high _
  | negationStop stops | factorStop stops =>
    exact ⟨_, .refl, by simp only [turn, reading_of_stops stops]⟩
  | positive peeks plus _ ih =>
    have := peeks.depth_limit
    exact Reaches.ends (.single (goes_positive ws peeks plus)) (ih (by omega) _)
  | negated takes minus _ ih =>
    have := takes.depth_limit
    exact Reaches.ends (.single (goes_negate ws takes minus)) (ih (by omega) _)
  | negateHigh takes minus parses high =>
    have := takes.depth_limit
    exact ⟨_, (reaches_of_parses parses (by omega) _).head (goes_negate ws takes minus),
      growing_of_le high _⟩
  | literal takes kind value =>
    refine ⟨_, .refl, ?_⟩
    simp only [turn, reading_of_takes takes, turnFactor, kind, value]
  | notMemory takes kind other =>
    refine ⟨_, .refl, ?_⟩
    simp only [turn, reading_of_takes takes, turnFactor, kind, if_neg other]
  | deep takes opens full =>
    refine ⟨_, .refl, ?_⟩
    simp only [turn, reading_of_takes takes, turnFactor, opens, if_pos full]
  | inside takes opens room _ ih =>
    have := takes.depth_limit
    exact Reaches.ends (.single (goes_enter ws small takes opens room))
      (ih (by simp only [Parser.enter]; omega) _)
  | closeStop takes opens room parses leave stops =>
    have := takes.depth_limit
    have inside := reaches_of_parses parses (by simp only [Parser.enter]; omega) (.parens :: ws)
    have left := (inside.head (goes_enter ws small takes opens room)).tail (goes_leave ws _ leave)
    refine ⟨_, left, ?_⟩
    simp only [turn, reading_of_stops stops]
  | unclosed takes opens room parses leave closes other =>
    have := takes.depth_limit
    have inside := reaches_of_parses parses (by simp only [Parser.enter]; omega) (.parens :: ws)
    have left := (inside.head (goes_enter ws small takes opens room)).tail (goes_leave ws _ leave)
    refine ⟨_, left, ?_⟩
    simp only [turn, reading_of_takes closes, if_neg other]
  | operandMissing takes number keyword opens =>
    refine ⟨_, .refl, ?_⟩
    simp only [turn, reading_of_takes takes, turnFactor]

/-- Step by step, a text is read as `Parser.parse` reads it. -/
theorem ends_parse {p : Parser} (small : p.limit < UInt64.size) :
    (start p).Ends p.parse.1 p.parse.2 := by
  rcases parsed : p.parse with ⟨e | tree, r⟩
  · rcases Parser.parse_eq_error_iff.1 parsed with
      rejects | ⟨tree, q, parses, stops | ⟨t, takes, other, rfl⟩⟩
    · exact ends_of_rejects rejects small []
    · refine ⟨_, reaches_of_parses parses small [], ?_⟩
      simp only [yields, turn, turnGive, reading_of_stops stops]
    · refine ⟨_, reaches_of_parses parses small [], ?_⟩
      simp only [yields, turn, turnGive, reading_of_takes takes, if_neg other]
  · obtain ⟨q, t, parses, takes, eof⟩ := Parser.parse_eq_ok_iff.1 parsed
    refine ⟨_, reaches_of_parses parses small [], ?_⟩
    simp only [yields, turn, turnGive, reading_of_takes takes, if_pos eof]

end Descent

end Calculator
