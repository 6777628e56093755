import Calculator.Proofs.Parser.Descent

/-!
# A parser can be used again

A parser may be asked to parse and to change its limit as often as one likes,
whatever came out before. No step of its next descent panics. The depth grows by
the parentheses that a failed descent leaves open and by nothing else, and never
above the largest limit. Once a text was accepted, nothing is left to read: every
later descent fails at the end of the input, at one position.
-/

namespace Calculator

/-! ## The end of the input -/

namespace Lexer

variable {l r s : Lexer} {t : Token} {position : Position}

/-- If the end waits to be read again, nothing follows it. -/
def Settled (l : Lexer) : Prop :=
  ∀ t, l.pending = some t → t.kind = .eof →
    l.rest = [] ∧ t = { kind := .eof, position := l.stop }

theorem settled_of_pending (h : l.pending = none) : l.Settled := by
  intro t pending
  simp [h] at pending

theorem scan_eof (h : l.scan = (.ok t, r)) (eof : t.kind = .eof) :
    r.rest = [] ∧ t = { kind := .eof, position := r.stop } := by
  simp only [scan] at h
  split at h
  · obtain ⟨rfl, rfl⟩ := by simpa using h
    exact ⟨rfl, rfl⟩
  · split at h
    · simp at h
    · next munch =>
      obtain ⟨rfl, rfl⟩ := by simpa using h
      exact absurd eof (spelling_of_munch? _ munch).1.kind_ne_eof

theorem Settled.next_eof (h : l.Settled) (read : l.next = (.ok t, r)) (eof : t.kind = .eof) :
    r.rest = [] ∧ t = { kind := .eof, position := r.stop } := by
  simp only [next] at read
  split at read
  · next pending =>
    obtain ⟨rfl, rfl⟩ := by simpa using read
    exact h _ pending eof
  · split at read
    · next scanned =>
      obtain ⟨rfl, rfl⟩ := by simpa using read
      obtain ⟨rest, same⟩ := scan_eof scanned eof
      exact ⟨rest, same⟩
    · simp at read

theorem pending_of_error {e : Error} (h : l.next = (.error e, r)) : r.pending = none := by
  have keep := l.scan_pending
  simp only [next] at h
  split at h
  · simp at h
  · split at h
    · simp at h
    · next pending _ _ _ =>
      obtain ⟨-, rfl⟩ := by simpa using h
      simp_all

theorem unread_eq (read : l.next = (.ok t, r)) (unread : r.unread = .ok s) :
    s = { r with pending := some t, last := none } := by
  obtain ⟨last, pending⟩ := next_last read
  simp only [Lexer.unread, last, pushBack, pending, Except.ok.injEq] at unread
  exact unread.symm

theorem Settled.unread (h : l.Settled) (read : l.next = (.ok t, r)) (unread : r.unread = .ok s) :
    s.Settled := by
  obtain rfl := unread_eq read unread
  intro u pending eof
  obtain rfl := Option.some.inj pending
  obtain ⟨rest, same⟩ := h.next_eof read eof
  exact ⟨rest, same⟩

/-- Only the end of the input can be read, and it stands at the position. -/
structure Exhausted (l : Lexer) (position : Position) : Prop where
  rest : l.rest = []
  stop : l.stop = position
  pending : ∀ t, l.pending = some t → t = { kind := .eof, position }

theorem Exhausted.next (h : l.Exhausted position) :
    ∃ r, l.next = (.ok { kind := .eof, position }, r) ∧ r.Exhausted position := by
  let eof : Token := { kind := .eof, position }
  rcases pending : l.pending with _ | t
  · have scanned : l.scan = (.ok eof, { l with rest := [] }) := by simp [eof, scan, h.rest, h.stop]
    refine ⟨{ l with rest := [], last := some eof, scanned := eof :: l.scanned }, ?_, ?_⟩
    · simp only [Lexer.next, pending, scanned, eof]
    · exact ⟨rfl, h.stop, by simp [pending]⟩
  · obtain rfl := h.pending t pending
    refine ⟨{ l with last := some eof, pending := none }, ?_, ?_⟩
    · simp only [Lexer.next, pending, eof]
    · exact ⟨h.rest, h.stop, by simp⟩

end Lexer

namespace Parser

variable {p q : Parser} {t : Token} {e : Error} {position : Position}

/-- At the end of the input, an operand is missing, and the end is read again. -/
theorem parse_of_exhausted (h : p.lexer.Exhausted position) :
    ∃ q, p.parse = (.error (.unexpected position Expectation.operand.phrase "EOF"), q) ∧
      q.lexer.Exhausted position := by
  obtain ⟨l, read, there⟩ := h.next
  refine ⟨{ p with lexer := l }, parse_of_rejects ?_, there⟩
  refine Rejects.expr_of_factor (t := { kind := .eof, position }) ⟨l, read, rfl⟩ nofun ?_
  intro p' takes
  exact .operandMissing takes nofun nofun nofun

/-! ## What is kept between requests -/

/-- The bound is a word, and neither the limit nor the depth exceeds it. -/
structure Usable (p : Parser) (bound : Nat) : Prop where
  word : bound < UInt64.size
  limit : p.limit ≤ bound
  depth : p.depth ≤ bound
  settled : p.lexer.Settled

theorem Usable.limit_lt {bound : Nat} (h : p.Usable bound) : p.limit < UInt64.size :=
  Nat.lt_of_le_of_lt h.limit h.word

theorem Takes.usable {bound : Nat} (h : p.Takes t q) (usable : p.Usable bound) :
    q.Usable bound := by
  obtain ⟨l, read, rfl⟩ := h
  exact { usable with settled := Lexer.settled_of_pending (Lexer.next_last read).2 }

theorem Stops.usable {bound : Nat} (h : p.Stops e q) (usable : p.Usable bound) :
    q.Usable bound := by
  obtain ⟨l, read, rfl⟩ := h
  exact { usable with settled := Lexer.settled_of_pending (Lexer.pending_of_error read) }

theorem Peeks.usable {bound : Nat} (h : p.Peeks t q) (usable : p.Usable bound) :
    q.Usable bound := by
  obtain ⟨l, r, read, unread, rfl⟩ := h
  exact { usable with settled := usable.settled.unread read unread }

end Parser

namespace Descent

variable {p q : Parser} {d : Descent} {bound : Nat} {outcome : Except Error Subtree}

theorem Effect.usable {n m : Nat} (h : Effect n p m q) (usable : p.Usable bound) :
    q.Usable bound := by
  cases h with
  | none => exact usable
  | takes takes => exact takes.usable usable
  | peeks peeks => exact peeks.usable usable
  | enters takes room =>
    obtain ⟨word, limit, depth, settled⟩ := takes.usable usable
    exact ⟨word, limit, Nat.le_trans room limit, settled⟩
  | leaves leave =>
    obtain rfl := Parser.leave_eq_ok leave
    exact { usable with depth := Nat.le_of_succ_le usable.depth }

theorem Reaches.usable (h : (start p).Reaches d) (usable : p.Usable bound) :
    d.parser.Usable bound :=
  (h.induction usable.limit_lt usable fun _ _ _ _ effect _ => effect.usable).2

/-- Where a run ends, the parentheses that are still open have been counted. -/
theorem Reaches.halts (h : (start p).Reaches d) (usable : p.Usable bound)
    (halts : d.turn = .halts outcome q) : q.Usable bound ∧ q.depth = p.depth + d.opened := by
  have within := h.within usable.limit_lt
  have last := within.follows usable.limit_lt
  rw [halts] at last
  rw [← within.depth]
  rcases last with rfl | ⟨t, takes⟩ | ⟨e, stops⟩
  · exact ⟨h.usable usable, rfl⟩
  · exact ⟨takes.usable (h.usable usable), takes.depth_limit.1⟩
  · exact ⟨stops.usable (h.usable usable), stops.depth_limit.1⟩

/-- A run ends as `Parser.parse` does, and in no other way. -/
theorem Reaches.parse_eq (h : (start p).Reaches d) (small : p.limit < UInt64.size)
    (halts : d.turn = .halts outcome q) : p.parse = (outcome, q) := by
  obtain ⟨d', h', halts'⟩ := ends_parse small
  obtain rfl := h.unique h' halts halts'
  cases halts.symm.trans halts'
  rfl

end Descent

/-- Behind a text that was accepted, only its end can be read. -/
theorem Parser.Usable.exhausted {p q : Parser} {bound : Nat} {tree : Subtree}
    (h : p.Usable bound) (parsed : p.parse = (.ok tree, q)) :
    q.depth = p.depth ∧ ∃ position, q.lexer.Exhausted position := by
  obtain ⟨s, t, parses, takes, eof⟩ := Parser.parse_eq_ok_iff.1 parsed
  have usable := (Descent.reaches_of_parses parses h.limit_lt []).usable h
  refine ⟨takes.depth_limit.1.trans parses.depth_limit.1, ?_⟩
  obtain ⟨l, read, rfl⟩ := takes
  obtain ⟨rest, -⟩ := usable.settled.next_eof read eof
  refine ⟨l.stop, rest, rfl, ?_⟩
  intro u pending
  cases (Lexer.next_last read).2.symm.trans pending

/-! ## Requests -/

/-- What may be asked of a parser. -/
inductive Request where
  | parse
  | limit (n : UInt64)
  deriving DecidableEq, Repr

namespace Request

/-- The largest limit so far, if `bound` was the largest before. -/
def raise (bound : Nat) : Request → Nat
  | .parse => bound
  | .limit n => max bound n.toNat

/-- The largest limit that a new parser is given. -/
def highest (requests : List Request) : Nat := requests.foldl raise 256

end Request

namespace Parser

def serve (p : Parser) : Request → Parser
  | .parse => p.parse.2
  | .limit n => { p with limit := n.toNat }

def serveAll (p : Parser) (requests : List Request) : Parser := requests.foldl serve p

variable {p : Parser} {bound : Nat} {position : Position}

theorem Usable.serve (h : p.Usable bound) (request : Request) :
    (p.serve request).Usable (request.raise bound) := by
  cases request with
  | parse =>
    obtain ⟨d, reaches, halts⟩ := Descent.ends_parse h.limit_lt
    exact (reaches.halts h halts).1
  | limit n =>
    have := n.toNat_lt_size
    exact ⟨Nat.max_lt.2 ⟨h.word, this⟩, Nat.le_max_right _ _,
      Nat.le_trans h.depth (Nat.le_max_left _ _), h.settled⟩

theorem usable_serveAll (source : String) (requests : List Request) :
    ((ofString source).serveAll requests).Usable (Request.highest requests) := by
  induction requests using List.reverseRecOn with
  | nil => exact ⟨by decide, Nat.le_refl _, Nat.zero_le _, Lexer.settled_of_pending rfl⟩
  | append_singleton requests request ih =>
    rw [serveAll, Request.highest, List.foldl_concat, List.foldl_concat]
    exact ih.serve request

theorem exhausted_serve (h : p.lexer.Exhausted position) (request : Request) :
    (p.serve request).lexer.Exhausted position := by
  cases request with
  | parse =>
    obtain ⟨q, parsed, there⟩ := parse_of_exhausted h
    rwa [Parser.serve, parsed]
  | limit n => exact h

theorem exhausted_serveAll (h : p.lexer.Exhausted position) (requests : List Request) :
    (p.serveAll requests).lexer.Exhausted position := by
  induction requests generalizing p with
  | nil => exact h
  | cons request requests ih => exact ih (exhausted_serve h request)

/-- Whatever a parser was asked before: no step of a descent panics, the depth stays below the
largest limit, the descent ends as `parse` says, and the depth has then grown by the parentheses
that are still open. After a success it is as before, and whatever is asked later, every descent
fails at the end of the input. -/
theorem safe_after_any_requests (source : String) (requests : List Request) :
    let p := (Parser.ofString source).serveAll requests
    (∀ d, (Descent.start p).Reaches d →
      (∀ reason, d.turn ≠ .panics reason) ∧ d.parser.depth ≤ Request.highest requests ∧
      ∀ outcome q, d.turn = .halts outcome q →
        p.parse = (outcome, q) ∧ q.depth = p.depth + d.opened ∧
          q.depth ≤ Request.highest requests) ∧
    (Descent.start p).Ends p.parse.1 p.parse.2 ∧
    ∀ tree q, p.parse = (.ok tree, q) →
      q.depth = p.depth ∧
      ∃ position, ∀ later, (q.serveAll later).parse.1 =
        .error (.unexpected position Expectation.operand.phrase "EOF") := by
  intro p
  have usable : p.Usable (Request.highest requests) := usable_serveAll source requests
  refine ⟨?_, Descent.ends_parse usable.limit_lt, ?_⟩
  · intro d reaches
    refine ⟨?_, (reaches.usable usable).depth, ?_⟩
    · intro reason panics
      have follows := (reaches.within usable.limit_lt).follows usable.limit_lt
      rw [panics] at follows
      exact follows
    · intro outcome q halts
      obtain ⟨after, depth⟩ := reaches.halts usable halts
      exact ⟨reaches.parse_eq usable.limit_lt halts, depth, after.depth⟩
  · intro tree q parsed
    obtain ⟨depth, position, exhausted⟩ := usable.exhausted parsed
    refine ⟨depth, position, fun later => ?_⟩
    obtain ⟨r, failed, -⟩ := parse_of_exhausted (exhausted_serveAll exhausted later)
    rw [failed]

/-- The parenthesis before a sign that is not known stays open. The descent behind the sign
reads a number, and every later one finds the end. -/
theorem open_parenthesis_survives_error :
    let p := (Parser.ofString "($7").serveAll [.parse]
    (Parser.ofString "($7").parse.1 = .error (.unrecognized ⟨1, 2⟩ '$') ∧ p.depth = 1 ∧
    (∀ d, (Descent.start p).Reaches d → ∀ reason, d.turn ≠ .panics reason) ∧
    p.parse.1 = .ok ⟨.number 7, 1⟩ ∧ p.parse.2.depth = 1 ∧
    ∀ later, (p.parse.2.serveAll later).parse.1 =
      .error (.unexpected ⟨1, 4⟩ Expectation.operand.phrase "EOF") := by
  intro p
  obtain ⟨steps, -, success⟩ := safe_after_any_requests "($7" [.parse]
  have stopped : (Parser.ofString "($7").parse.1 = .error (.unrecognized ⟨1, 2⟩ '$') := by
    decide +kernel
  have parsed : p.parse.1 = .ok ⟨.number 7, 1⟩ := by decide +kernel
  have again : p.parse.2.parse.1 =
      .error (.unexpected ⟨1, 4⟩ Expectation.operand.phrase "EOF") := by decide +kernel
  have entered : p.depth = 1 := by decide +kernel
  obtain ⟨depth, position, fails⟩ := success _ _ (Prod.ext parsed rfl)
  obtain rfl : position = ⟨1, 4⟩ := by
    have first := (fails []).symm.trans again
    injection first with first
    injection first
  exact ⟨stopped, entered, fun d reaches => (steps d reaches).1, parsed, depth.trans entered, fails⟩

end Parser

end Calculator
