import Calculator.Error
import Calculator.Token

/-!
# Reading tokens

A lexer hands out one token at a time and takes at most one of them back. It
skips blanks, takes words and numbers as long as they go, and reports the end
of the input just after the last token, as often as it is asked.

A character that starts no token is an error and is passed over, so reading can
go on behind it. `size` bounds the tokens still to come: reading a token other
than the end makes it smaller, and pushing one back makes up for that at most.
-/

namespace Calculator

structure Lexer where
  /-- The characters not scanned yet. -/
  rest : List Char
  /-- The position of the first of them. -/
  here : Position := .start
  /-- The position just after the last token. -/
  stop : Position := .start
  /-- The token read last, while it can be pushed back. -/
  last : Option Token := none
  /-- The token to be read again. -/
  pending : Option Token := none
  /-- Every token scanned so far, newest first. -/
  scanned : List Token := []
  deriving DecidableEq, Repr

namespace Lexer

def ofString (source : String) : Lexer := { rest := source.toList }

/-- Characters that may stand between tokens. -/
def isBlank (c : Char) : Bool := c == ' ' || c == '\t' || c == '\r' || c == '\n'

/-- The kind of a token of one character. -/
def signKind? (c : Char) : Option Token.Kind :=
  match c with
  | '(' => some .openParen
  | ')' => some .closeParen
  | c => (Op.ofChar? c).map .operator

/-- A word is a keyword if it is one of the two letters for the memory cell. -/
def wordKind (word : List Char) : Token.Kind :=
  if word = ['S'] ∨ word = ['R'] then .keyword else .identifier

/-- Only words and numbers keep their text. -/
def lexeme? : Token.Kind → List Char → Option String
  | .identifier, cs | .number, cs | .keyword, cs => some (String.ofList cs)
  | _, _ => none

/-- The longest token that starts with `c` before `cs`: its kind, its characters
after `c`, and what follows it. -/
def munch? (c : Char) (cs : List Char) : Option (Token.Kind × List Char × List Char) :=
  match signKind? c with
  | some kind => some (kind, [], cs)
  | none =>
    if c.isAlpha then
      let word := cs.takeWhile Char.isAlphanum
      some (wordKind (c :: word), word, cs.dropWhile Char.isAlphanum)
    else if c.isDigit then
      some (.number, cs.takeWhile Char.isDigit, cs.dropWhile Char.isDigit)
    else none

/-- Scan one token from the unread characters. -/
def scan (l : Lexer) : Except Error Token × Lexer :=
  let start := l.here.skip (l.rest.takeWhile isBlank)
  match l.rest.dropWhile isBlank with
  | [] => (.ok { kind := .eof, position := l.stop }, { l with rest := [], here := start })
  | c :: cs =>
    match munch? c cs with
    | none => (.error (.unrecognized start c), { l with rest := cs, here := start.next c })
    | some (kind, tail, rest) =>
      let stop := start.skip (c :: tail)
      (.ok { kind, position := start, lexeme := lexeme? kind (c :: tail) },
        { l with rest, here := stop, stop })

/-- Read the next token, the one pushed back first. -/
def next (l : Lexer) : Except Error Token × Lexer :=
  match l.pending with
  | some t => (.ok t, { l with last := some t, pending := none })
  | none =>
    match l.scan with
    | (.ok t, r) => (.ok t, { r with last := some t, scanned := t :: r.scanned })
    | (.error e, r) => (.error e, r)

/-- Take back the token read last, if there is one. Only one token can wait. That a
second one is refused stands for an assertion, which only debug builds check: a build
without it passes over the call, and the lexer stays as it is. -/
def pushBack (l : Lexer) : Except Breach Lexer :=
  match l.pending with
  | some _ => .error .tokenPending
  | none => .ok { l with pending := l.last, last := none }

/-- Take back the token read last, which has to exist. -/
def unread (l : Lexer) : Except Breach Lexer :=
  match l.last with
  | none => .error .nothingRead
  | some _ => l.pushBack

/-- A bound on the tokens still to be read. -/
def size (l : Lexer) : Nat := l.rest.length + (l.pending.map Token.weight).getD 0

/-! ## How reading changes the size -/

theorem length_munch? {c : Char} {cs tail rest : List Char} {kind : Token.Kind}
    (h : munch? c cs = some (kind, tail, rest)) : rest.length ≤ cs.length := by
  have bound (f : Char → Bool) : (cs.dropWhile f).length ≤ cs.length :=
    (List.dropWhile_sublist f).length_le
  simp only [munch?] at h
  grind

theorem scan_pending (l : Lexer) : l.scan.2.pending = l.pending := by
  simp only [scan]
  grind

theorem length_scan {l r : Lexer} {t : Token} (h : l.scan = (.ok t, r)) :
    r.rest.length + t.weight ≤ l.rest.length := by
  have bound : (l.rest.dropWhile isBlank).length ≤ l.rest.length :=
    (List.dropWhile_sublist _).length_le
  simp only [scan] at h
  split at h
  · obtain ⟨rfl, rfl⟩ := by simpa using h
    simp [Token.weight]
  · next c cs hd =>
    rw [hd, List.length_cons] at bound
    split at h
    · simp at h
    · next hm =>
      obtain ⟨rfl, rfl⟩ := by simpa using h
      have := length_munch? hm
      simp only [Token.weight]
      split <;> omega

theorem next_last {l r : Lexer} {t : Token} (h : l.next = (.ok t, r)) :
    r.last = some t ∧ r.pending = none := by
  simp only [next] at h
  split at h
  · obtain ⟨rfl, rfl⟩ := by simpa using h
    exact ⟨rfl, rfl⟩
  · next hp =>
    have keep := l.scan_pending
    grind

theorem size_next {l r : Lexer} {t : Token} (h : l.next = (.ok t, r)) :
    r.size + t.weight ≤ l.size := by
  simp only [next] at h
  split at h
  · next hp =>
    obtain ⟨rfl, rfl⟩ := by simpa using h
    simp [size, hp]
  · next hp =>
    have keep := l.scan_pending
    split at h
    · next u s hs =>
      obtain ⟨rfl, rfl⟩ := by simpa using h
      have := length_scan hs
      simp_all [size]
    · simp at h

theorem size_next_lt {l r : Lexer} {t : Token} (h : l.next = (.ok t, r)) (ht : t.kind ≠ .eof) :
    r.size < l.size := by
  have := size_next h
  rw [Token.weight, if_neg ht] at this
  omega

theorem size_unread {l r s : Lexer} {t : Token} (h : l.next = (.ok t, r)) (hu : r.unread = .ok s) :
    s.size ≤ l.size := by
  obtain ⟨hl, hp⟩ := next_last h
  have := size_next h
  simp only [unread, hl, pushBack, hp, Except.ok.injEq] at hu
  subst hu
  simp_all [size]

/-! ## Reading everything -/

/-- Read to the end: the tokens read, the end among them, and the error that
stopped the reading if there was one. -/
def drain (l : Lexer) : List Token × Option Error :=
  match h : l.next with
  | (.error e, _) => ([], some e)
  | (.ok t, r) =>
    if ht : t.kind = .eof then ([t], none)
    else
      have : r.size < l.size := size_next_lt h ht
      let (ts, e) := r.drain
      (t :: ts, e)
termination_by l.size

end Lexer

/-- The tokens of a source, the last of which is the end of the input. -/
def tokenize (source : String) : Except Error (List Token) :=
  match (Lexer.ofString source).drain with
  | (ts, none) => .ok ts
  | (_, some e) => .error e

end Calculator
