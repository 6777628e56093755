import Calculator.Token.Lexer
import Mathlib.Data.List.Basic

/-!
# Tokens that are pushed back

A lexer may be asked to read and to push back in any order. Seen from outside, its
state is that of a lexer that only reads (`replayed`), and a flag that says whether
the last token waits to be read again. A call changes one of the two and never
both, so no token is lost, read twice without being asked for, or moved.
-/

namespace Calculator

namespace Lexer

/-! ## Calls and what they come to -/

inductive Call where
  | next
  | pushBack
  deriving DecidableEq, Repr

inductive Answer where
  | read (result : Except Error Token)
  | pushed
  /-- The call breaks a rule of use. The lexer stays as it was. -/
  | refused (rule : Breach)
  deriving DecidableEq, Repr

/-- One call, with the lexer before and after it. -/
structure Exchange where
  before : Lexer
  call : Call
  answer : Answer
  after : Lexer
  deriving DecidableEq, Repr

def exchange (l : Lexer) (call : Call) : Exchange :=
  match call with
  | .next => ⟨l, .next, .read l.next.1, l.next.2⟩
  | .pushBack =>
    match l.pushBack with
    | .ok r => ⟨l, .pushBack, .pushed, r⟩
    | .error rule => ⟨l, .pushBack, .refused rule, l⟩

/-- The record of a sequence of calls. -/
def exchanges (l : Lexer) : List Call → List Exchange
  | [] => []
  | call :: calls => l.exchange call :: (l.exchange call).after.exchanges calls

namespace Exchange

/-- The result of a call that reads on, because no token waits. -/
def scanned? (x : Exchange) : Option (Except Error Token) :=
  match x.answer with
  | .read result => if x.before.pending = none then some result else none
  | _ => none

/-- The token that a call returns. -/
def token? (x : Exchange) : Option Token :=
  match x.answer with
  | .read (.ok t) => some t
  | _ => none

end Exchange

/-- The token that was returned last. -/
def latest? (log : List Exchange) : Option Token := (log.filterMap Exchange.token?).getLast?

/-- The results of `n` calls that only read. -/
def readings (l : Lexer) : Nat → List (Except Error Token)
  | 0 => []
  | n + 1 => l.next.1 :: l.next.2.readings n

/-! ## One call -/

/-- The lexer once the token that waits, if there is one, is read again. -/
def replayed (l : Lexer) : Lexer := { l with last := l.pending.or l.last, pending := none }

/-- Everything that a call can do. -/
inductive Happens : Exchange → Prop where
  | scan {l : Lexer} : l.pending = none → Happens ⟨l, .next, .read l.next.1, l.next.2⟩
  | replay {l : Lexer} {t : Token} : l.pending = some t →
      Happens ⟨l, .next, .read (.ok t), l.replayed⟩
  | push {l : Lexer} : l.pending = none →
      Happens ⟨l, .pushBack, .pushed, { l with pending := l.last, last := none }⟩
  | refuse {l : Lexer} {t : Token} : l.pending = some t →
      Happens ⟨l, .pushBack, .refused .tokenPending, l⟩

theorem happens_exchange (l : Lexer) (call : Call) : Happens (l.exchange call) := by
  rcases pending : l.pending with _ | t <;> cases call
  · exact .scan pending
  · simpa [exchange, pushBack, pending] using Happens.push pending
  · simpa [exchange, next, pending, replayed] using Happens.replay pending
  · simpa [exchange, pushBack, pending] using Happens.refuse pending

variable {l : Lexer} {x : Exchange}

@[simp] theorem replayed_replayed (l : Lexer) : l.replayed.replayed = l.replayed := by
  simp [replayed]

theorem replayed_of_pending (h : l.pending = none) : l.replayed = l := by
  cases l
  simp_all [replayed]

/-- To push back what was read last is undone by reading it again. -/
theorem replayed_push (h : l.pending = none) :
    replayed { l with pending := l.last, last := none } = l := by
  cases l
  simp_all [replayed]

theorem scan_last (l : Lexer) : l.scan.2.last = l.last := by
  simp only [scan]
  grind

theorem next_pending (l : Lexer) : l.next.2.pending = none := by
  have keep := l.scan_pending
  grind [next]

/-- A failed reading keeps the token that was read last. -/
theorem last_next (h : l.pending = none) : l.next.2.last = l.next.1.toOption.or l.last := by
  have keep := l.scan_last
  simp only [next, h]
  split <;> simp_all [Except.toOption]

@[simp] theorem before_exchange (l : Lexer) (call : Call) : (l.exchange call).before = l := by
  cases call <;> grind [exchange]

namespace Happens

/-- A call reads on where the tokens were read up to, or it changes nothing there. -/
theorem reads_on (h : Happens x) :
    (x.scanned? = none ∧ x.after.replayed = x.before.replayed) ∨
    (x.scanned? = some x.before.replayed.next.1 ∧
      x.after.replayed = x.before.replayed.next.2) := by
  cases h with
  | scan pending =>
    refine .inr ⟨?_, ?_⟩
    · simp [Exchange.scanned?, pending, replayed_of_pending]
    · simp [replayed_of_pending, next_pending, pending]
  | replay pending => exact .inl ⟨by simp [Exchange.scanned?, pending], replayed_replayed _⟩
  | push pending =>
    exact .inl ⟨rfl, by simp only [replayed_push pending, replayed_of_pending pending]⟩
  | refuse => exact .inl ⟨rfl, rfl⟩

/-- The last token is the one returned by the call, if it returns one. -/
theorem last (h : Happens x) : x.after.replayed.last = x.token?.or x.before.replayed.last := by
  cases h with
  | @scan l pending =>
    rw [replayed_of_pending (next_pending l), replayed_of_pending pending, last_next pending]
    simp only [Exchange.token?]
    cases l.next.1 <;> rfl
  | replay pending => simp [Exchange.token?, replayed, pending]
  | push pending => simp only [replayed_push pending, replayed_of_pending pending]; rfl
  | refuse => rfl

/-- After reading nothing waits, and a token that waited is returned. -/
theorem of_next (h : Happens x) (call : x.call = .next) :
    x.after.pending = none ∧
    (x.before.pending ≠ none →
      ∃ t, x.answer = .read (.ok t) ∧ x.before.replayed.last = some t) := by
  cases h with
  | scan pending => exact ⟨next_pending _, fun waits => absurd pending waits⟩
  | @replay l t pending => exact ⟨rfl, fun _ => ⟨t, rfl, by simp [replayed, pending]⟩⟩
  | push | refuse => cases call

theorem of_pushBack (h : Happens x) (call : x.call = .pushBack) :
    (x.answer = .refused .tokenPending ↔ x.before.pending ≠ none) ∧
    (x.answer = .refused .tokenPending → x.after = x.before) ∧
    (x.answer ≠ .refused .tokenPending →
      x.answer = .pushed ∧ x.after.pending = x.before.replayed.last) ∧
    (x.answer = .pushed ∧ x.after = x.before ↔ x.before.replayed.last = none) := by
  cases h with
  | scan | replay => cases call
  | @push l pending =>
    rw [replayed_of_pending pending]
    refine ⟨by simp [pending], by simp, by simp, ?_⟩
    -- the state is the same only if there is no token to move
    cases l
    simp_all [eq_comm]
  | refuse pending => simp [pending, replayed]

end Happens

/-! ## Any number of calls -/

@[simp] theorem length_readings (l : Lexer) (n : Nat) : (l.readings n).length = n := by
  induction n generalizing l with
  | zero => rfl
  | succ n ih => simp [readings, ih]

/-- The calls that read on give what reading alone gives. -/
theorem exists_readings (l : Lexer) (calls : List Call) :
    ∃ n, (l.exchanges calls).filterMap Exchange.scanned? = l.replayed.readings n := by
  induction calls generalizing l with
  | nil => exact ⟨0, rfl⟩
  | cons call calls ih =>
    obtain ⟨n, rest⟩ := ih (l.exchange call).after
    rcases (happens_exchange l call).reads_on with ⟨scanned, same⟩ | ⟨scanned, further⟩
    · exact ⟨n, by simp [exchanges, scanned, rest, same]⟩
    · exact ⟨n + 1, by simp [exchanges, scanned, rest, further, readings]⟩

theorem latest?_cons_or (x : Exchange) (log : List Exchange) (seen : Option Token) :
    (latest? (x :: log)).or seen = (latest? log).or (x.token?.or seen) := by
  unfold latest?
  rw [List.filterMap_cons]
  cases x.token? with
  | none => simp
  | some t => cases h : (log.filterMap Exchange.token?).getLast? <;> simp [List.getLast?_cons, h]

/-- Wherever a record is cut, the next call meets a lexer whose last token is the one that was
returned last. -/
theorem happens_of_split {before after : List Exchange} {calls : List Call}
    (h : l.exchanges calls = before ++ x :: after) :
    Happens x ∧ x.before.replayed.last = (latest? before).or l.replayed.last := by
  induction calls generalizing l before with
  | nil => simp [exchanges] at h
  | cons call calls ih =>
    rw [exchanges] at h
    cases before with
    | nil =>
      obtain ⟨rfl, -⟩ := List.cons.inj h
      exact ⟨happens_exchange l call, by simp [latest?]⟩
    | cons y before =>
      obtain ⟨rfl, rest⟩ := List.cons.inj h
      obtain ⟨happens, last⟩ := ih rest
      refine ⟨happens, ?_⟩
      rw [last, latest?_cons_or, (happens_exchange l call).last, before_exchange]

theorem latest?_eq_none {log : List Exchange} :
    latest? log = none ↔ ∀ x ∈ log, x.token? = none := by
  simp [latest?]

/-- Pushing back is invisible to reading on: the calls that do not return a waiting token give what
a lexer gives that only reads. A waiting token is the one that was returned last. A token is
refused exactly while another one waits, and there is nothing to push back exactly as long as no
token was returned. -/
theorem pushBack_is_transparent (source : String) (calls : List Call) :
    let log := (ofString source).exchanges calls
    let scanned := log.filterMap Exchange.scanned?
    scanned = (ofString source).readings scanned.length ∧
    ∀ (before : List Exchange) (x : Exchange) (after : List Exchange),
      log = before ++ x :: after →
      (x.call = .next → x.after.pending = none ∧
        (x.before.pending ≠ none →
          ∃ t, x.answer = .read (.ok t) ∧ (before.filterMap Exchange.token?).getLast? = some t)) ∧
      (x.call = .pushBack →
        (x.answer = .refused .tokenPending ↔ x.before.pending ≠ none) ∧
        (x.answer = .refused .tokenPending → x.after = x.before) ∧
        (x.answer ≠ .refused .tokenPending → x.answer = .pushed ∧
          x.after.pending = (before.filterMap Exchange.token?).getLast?) ∧
        (x.answer = .pushed ∧ x.after = x.before ↔ ∀ y ∈ before, y.token? = none)) := by
  intro log scanned
  constructor
  · obtain ⟨n, same⟩ := exists_readings (ofString source) calls
    have length : scanned.length = n := by simp [scanned, log, same]
    rw [length]
    exact same
  · intro before x after split
    obtain ⟨happens, last⟩ := happens_of_split split
    have latest : x.before.replayed.last = latest? before := by
      simpa [ofString, replayed] using last
    rw [← latest?_eq_none, ← latest?, ← latest]
    exact ⟨happens.of_next, happens.of_pushBack⟩

/-- After the error at the dollar, the seven is pushed back once and then read again. -/
theorem seven_is_replayed_behind_error :
    let seven : Token := { kind := .number, position := ⟨1, 1⟩, lexeme := some "7" }
    let waiting : Lexer :=
      { rest := [], here := ⟨1, 3⟩, stop := ⟨1, 2⟩, pending := some seven, scanned := [seven] }
    let before := (ofString "7$").exchanges [.next, .next, .pushBack]
    let again := waiting.exchange .pushBack
    let replay := waiting.exchange .next
    (ofString "7$").exchanges [.next, .next, .pushBack, .pushBack, .next] =
      before ++ [again, replay] ∧
    again.answer = .refused .tokenPending ∧
    ∃ t, replay.answer = .read (.ok t) ∧
      ((before ++ [again]).filterMap Exchange.token?).getLast? = some t := by
  intro seven waiting before again replay
  have log : (ofString "7$").exchanges [.next, .next, .pushBack, .pushBack, .next] =
      before ++ [again, replay] := by
    decide +kernel
  obtain ⟨-, calls⟩ :=
    pushBack_is_transparent "7$" [.next, .next, .pushBack, .pushBack, .next]
  obtain ⟨refused, -⟩ := (calls before again [replay] log).2 rfl
  obtain ⟨-, returned⟩ := (calls (before ++ [again]) replay [] (by simp [log])).1 rfl
  exact ⟨log, refused.2 (by decide), returned (by decide)⟩

end Lexer

end Calculator
