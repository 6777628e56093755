import Calculator.Proofs.Ewe.Loading
import Mathlib.Data.List.Basic

/-!
# The instructions of a program

`Expr.code` gives the instructions of an expression from those of its operands,
without lines, comments or texts. The text of a program loads as exactly these
instructions between those that set the registers up and those that print the
value, and every one of them has the number of the line it is written on.
-/

namespace Calculator

namespace Ewe

/-- `sp := sp + r` -/
def goUp (r : Register) : Statement Register := .compute (.cell .sp) (reg .sp) .add (reg r)

/-- `sp := sp - r` -/
def goDown (r : Register) : Statement Register := .compute (.cell .sp) (reg .sp) .sub (reg r)

/-- `r := M[sp+k]` -/
def fromSlot (r : Register) (k : Int64) : Statement Register :=
  .move (.cell r) (.place (.indirect .sp k))

/-- `M[sp+k] := r` -/
def toSlot (k : Int64) (r : Register) : Statement Register := .move (.indirect .sp k) (reg r)

def initialCode : List (Statement Register) :=
  [.move (.cell .sp) (.literal 7), .move (.cell .negateNum) (.literal 0),
   .move (.cell .uno) (.literal 1), .move (.cell .tres) (.literal 3), goUp .uno]

def finalCode : List (Statement Register) :=
  [goDown .uno, fromSlot .tmp 1, .writeInt (reg .tmp), .halt]

end Ewe

open Ewe in
/-- The instructions of an expression. -/
def Expr.code : Expr → List (Statement Register)
  | number v => [.move (.cell .tmp) (.literal v), toSlot 0 .tmp]
  | memory => [toSlot 0 .mem]
  | negate e =>
    goUp .uno :: e.code ++
      [goDown .uno, fromSlot .tmp 1, .compute (.cell .tmp) (reg .negateNum) .sub (reg .tmp),
       toSlot 0 .tmp]
  | store e =>
    goUp .uno :: e.code ++
      [goDown .uno, fromSlot .tmp 1, toSlot 0 .tmp, .move (.cell .mem) (reg .tmp)]
  | binary op l r =>
    goUp .tres :: l.code ++
      [goDown .tres, fromSlot .tmp 3, toSlot 1 .tmp, goUp .tres] ++ r.code ++
      [goDown .tres, fromSlot .tmp 3, toSlot 2 .tmp, fromSlot .tmp 1, fromSlot .tmp2 2,
       .compute (.cell .tmp) (reg .tmp) op (reg .tmp2), toSlot 0 .tmp]

namespace Ewe

open Text

/-- The statements on the lines of an expression are its instructions. -/
theorem statements_emit (e : Expr) (after : List Line) :
    (emit e after).filterMap Line.statement? = e.code ++ after.filterMap Line.statement? := by
  have comment (text : String) (ls : List Line) :
      (Line.comment text :: ls).filterMap Line.statement? = ls.filterMap Line.statement? := rfl
  have code (s : Statement Register) (ls : List Line) :
      (Line.code s :: ls).filterMap Line.statement? = s :: ls.filterMap Line.statement? := rfl
  induction e generalizing after with
  | number v => rfl
  | memory => rfl
  | negate e ih | store e ih =>
    simp only [emit, update, fetch, set, put, slot, comment, code, ih, Expr.code, goUp, goDown,
      fromSlot, toSlot, List.cons_append, List.append_assoc, List.nil_append]
  | binary op l r ihl ihr =>
    simp only [emit, update, fetch, set, put, slot, comment, code, ihl, ihr, Expr.code, goUp,
      goDown, fromSlot, toSlot, List.cons_append, List.append_assoc, List.nil_append]

theorem statements_program (e : Expr) :
    (program e).filterMap Line.statement? = initialCode ++ e.code ++ finalCode := by
  rw [program, List.filterMap_append, statements_emit, List.append_assoc]
  rfl

/-! ## The numbers of lines -/

theorem map_snd_numbered (n : Nat) (ls : List Line) :
    (numbered n ls).map Prod.snd =
      (ls.filterMap Line.statement?).map (Statement.map Register.address) := by
  induction ls generalizing n with
  | nil => rfl
  | cons l ls ih =>
    rw [numbered, List.filterMap_cons]
    cases l.statement? with
    | none => exact ih (n + 1)
    | some s => rw [List.map_cons, List.map_cons, ih]

/-- A statement has the number of the line that holds it. -/
theorem mem_numbered {n k : Nat} {s : Statement Nat} {ls : List Line} :
    (k, s) ∈ numbered n ls ↔ ∃ l w, n ≤ k ∧ ls[k - n]? = some l ∧ l.statement? = some w ∧
      w.map Register.address = s := by
  have listed : numbered n ls = (ls.zipIdx n).filterMap fun (l, k) =>
      l.statement?.map fun w => (k, w.map Register.address) := by
    induction ls generalizing n with
    | nil => rfl
    | cons l ls ih =>
      rw [numbered, List.zipIdx_cons, List.filterMap_cons, ih]
      rcases statement : l.statement? with _ | w <;> simp [statement]
  rw [listed, List.mem_filterMap]
  constructor
  · rintro ⟨⟨l, i⟩, mem, found⟩
    obtain ⟨w, statement, pair⟩ := Option.map_eq_some_iff.1 found
    obtain ⟨rfl, rfl⟩ := Prod.mk.inj pair
    obtain ⟨le, line⟩ := List.mem_zipIdx_iff_le_and_getElem?_sub.1 mem
    exact ⟨l, w, le, line, statement, rfl⟩
  · rintro ⟨l, w, le, line, statement, rfl⟩
    exact ⟨(l, k), List.mem_zipIdx_iff_le_and_getElem?_sub.2 ⟨le, line⟩, by simp [statement]⟩

theorem pairwise_numbered (n : Nat) (ls : List Line) :
    ((numbered n ls).map Prod.fst).Pairwise (· < ·) := by
  induction ls generalizing n with
  | nil => exact .nil
  | cons l ls ih =>
    rw [numbered]
    cases l.statement? with
    | none => exact ih (n + 1)
    | some s =>
      refine .cons (fun k hk => ?_) (ih (n + 1))
      obtain ⟨⟨k, s⟩, later, rfl⟩ := List.mem_map.1 hk
      obtain ⟨_, _, le, _⟩ := mem_numbered.1 later
      exact le

/-! ## The texts of lines -/

/-- The line is written for the statement, behind five blanks or behind the label of
the first instruction. -/
def Writes (line : List Char) (w : Statement Register) : Prop :=
  line = "     ".toList ++ w.text ∨ line = "main: ".toList ++ w.text

/-- Lines with the same text hold the same statement. -/
theorem Line.Clean.statement?_eq {l k : Line} (hl : l.Clean) (hk : k.Clean) (h : l.text = k.text) :
    l.statement?.map (Statement.map Register.address) =
      k.statement?.map (Statement.map Register.address) := by
  have loaded {l : Line} (clean : l.Clean) :
      collectStatements registerAliases (codeLines (render [l]).toList) = .ok (numbered 1 [l]) := by
    rw [codeLines_render (by simpa using clean), collectStatements_codeTexts (by simpa using clean)]
  have same : render [l] = render [k] := by simp [render, h]
  have numbers : numbered 1 [l] = numbered 1 [k] :=
    Except.ok.inj ((loaded hl).symm.trans (same ▸ loaded hk))
  rcases hls : l.statement? with _ | w <;> rcases hks : k.statement? with _ | v <;>
    simp_all [numbered]

/-- Of all lines in a program, only the first instruction has a label. -/
theorem writes_of_mem_program {e : Expr} {l : Line} {w : Statement Register} (h : l ∈ program e)
    (holds : l.statement? = some w) : Writes l.text w := by
  have labels : ∀ l ∈ program e, ∀ label s, l = .labelled label s → label = "main" := by
    rw [program, List.forall_mem_append]
    constructor
    · simp [prologue, set, update]
    · refine forall_mem_emit (by simp) (by simp) e ?_
      simp [epilogue, fetch, set, update]
  cases l with
  | comment text => cases holds
  | code s =>
    obtain rfl := Option.some.inj holds
    exact .inl rfl
  | labelled label s =>
    obtain rfl := Option.some.inj holds
    obtain rfl := labels _ h label s rfl
    exact .inr rfl
  | equ r => cases holds

theorem exists_line_of_writes {line : List Char} {w : Statement Register} (h : Writes line w) :
    ∃ l : Line, l.Clean ∧ l.text = line ∧ l.statement? = some w := by
  rcases h with rfl | rfl
  · exact ⟨.code w, trivial, rfl, rfl⟩
  · exact ⟨.labelled "main" w, by simp [Line.Clean]; decide, rfl, rfl⟩

/-- The names that the end of a program defines, and their cells. -/
def epilogueNames : List (String × Nat) :=
  [("tmp", 0), ("tmp2", 1), ("negateNum", 2), ("uno", 3), ("tres", 4), ("mem", 5), ("sp", 6),
   ("stack", 7)]

theorem find?_registerAliases_iff {name : String} {a : Nat} :
    registerAliases.find? name.toList = some a ↔ (name, a) ∈ epilogueNames := by
  have table : epilogueNames = Register.all.map fun r => (r.name, r.address) := rfl
  rw [table, List.mem_map]
  constructor
  · intro found
    obtain ⟨front, back, entries, -⟩ := List.lookup_eq_some_iff.1 found
    have mem : (name.toList, a) ∈ registerAliases.entries := by simp [entries]
    obtain ⟨r, listed, pair⟩ := List.mem_map.1 mem
    obtain ⟨same, rfl⟩ := Prod.mk.inj pair
    exact ⟨r, List.mem_reverse.1 listed, by rw [String.toList_inj.1 same]⟩
  · rintro ⟨r, -, pair⟩
    obtain ⟨rfl, rfl⟩ := Prod.mk.inj pair
    exact find?_registerAliases r

/-- A program is loaded as the instructions of its expression between those of every
program, each with the number of its line, and with the names of the registers. -/
theorem program_loads_as_code (e : Expr) :
    ∃ aliases code,
      collectAliases {} (codeLines (render (program e)).toList) = .ok aliases ∧
      collectStatements aliases (codeLines (render (program e)).toList) = .ok code ∧
      load (render (program e)) = .ok { aliases, statements := code } ∧
      aliases.size = 8 ∧
      (∀ name a, aliases.find? name.toList = some a ↔ (name, a) ∈ epilogueNames) ∧
      code.map Prod.snd =
        (initialCode ++ e.code ++ finalCode).map (Statement.map Register.address) ∧
      (code.map Prod.fst).Pairwise (· < ·) ∧
      ∀ n s, (n, s) ∈ code ↔ ∃ line w, 1 ≤ n ∧
        (lines (render (program e)).toList)[n - 1]? = some line ∧ Writes line w ∧
        w.map Register.address = s := by
  refine ⟨registerAliases, numbered 1 (program e), collectAliases_program e,
    collectStatements_program e, load_program e, rfl, fun name a => find?_registerAliases_iff, ?_,
    pairwise_numbered 1 _, fun n s => ?_⟩
  · rw [map_snd_numbered, statements_program]
  · rw [mem_numbered, lines_render (clean_program e)]
    constructor
    · rintro ⟨l, w, le, found, holds, rfl⟩
      have writes := writes_of_mem_program (List.mem_of_getElem? found) holds
      exact ⟨l.text, w, le, by simp [found], writes, rfl⟩
    · rintro ⟨line, w, le, shown, writes, rfl⟩
      obtain ⟨l, found, rfl⟩ : ∃ l, (program e)[n - 1]? = some l ∧ l.text = line := by
        simpa using shown
      obtain ⟨k, clean, text, holds⟩ := exists_line_of_writes writes
      have same := (clean_program e l (List.mem_of_getElem? found)).statement?_eq clean text.symm
      rw [holds, Option.map_some, Option.map_eq_some_iff] at same
      obtain ⟨v, holds, same⟩ := same
      exact ⟨l, v, le, found, holds, same⟩

end Ewe

end Calculator
