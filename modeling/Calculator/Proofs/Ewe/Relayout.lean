import Calculator.Proofs.Ewe.FixedMemory
import Calculator.Proofs.Ewe.Loading
import Calculator.Proofs.Ewe.Precedence

/-!
# Programs in another layout

What a program does is decided by the cells of its names and by its statements in
order. Two programs that agree on both give the same output or fail at the same
statement, each with its own number for the line. So comments, blank lines, white
space, line ends, labels and the places of definitions only change line numbers.
-/

namespace Calculator.Ewe

open Text

/-! ## Other line numbers -/

/-- The numbers stand at the same place of two numbered lists, at the same thing. -/
def Matches {α : Type} (xs ys : List (Nat × α)) (n m : Nat) : Prop :=
  ∃ (i : Nat) (a : α), xs[i]? = some (n, a) ∧ ys[i]? = some (m, a)

theorem Matches.cons {α : Type} {xs ys : List (Nat × α)} {n m : Nat} (h : Matches xs ys n m)
    (x y : Nat × α) : Matches (x :: xs) (y :: ys) n m := by
  obtain ⟨i, a, left, right⟩ := h
  exact ⟨i + 1, a, left, right⟩

/-- The results are the same, or they are failures that differ in the line only. -/
def Alike {α β : Type} (xs ys : List (Nat × α)) (r r' : Except Failure β) : Prop :=
  (∃ out, r = .ok out ∧ r' = .ok out) ∨
    ∃ problem n m, r = .error ⟨n, problem⟩ ∧ r' = .error ⟨m, problem⟩ ∧ Matches xs ys n m

theorem Alike.cons {α β : Type} {xs ys : List (Nat × α)} {r r' : Except Failure β}
    (h : Alike xs ys r r') (x y : Nat × α) : Alike (x :: xs) (y :: ys) r r' := by
  rcases h with same | ⟨problem, n, m, left, right, place⟩
  · exact .inl same
  · exact .inr ⟨problem, n, m, left, right, place.cons x y⟩

/-- The same statements with other numbers run alike. -/
theorem FixedMachine.run_renumbered (m : FixedMachine) {xs ys : List (Nat × Statement Nat)}
    (same : xs.map Prod.snd = ys.map Prod.snd) : Alike xs ys (m.run xs) (m.run ys) := by
  induction xs generalizing m ys with
  | nil =>
    obtain rfl := List.map_eq_nil_iff.1 same.symm
    exact .inl ⟨m.output, rfl, rfl⟩
  | cons x xs ih =>
    obtain ⟨⟨k, _⟩, ys, rfl, rfl, rest⟩ := List.map_eq_cons_iff.1 same.symm
    rw [run, run]
    rcases m.step x.2 with problem | _ | m'
    · exact .inr ⟨problem, x.1, k, rfl, rfl, 0, x.2, rfl, rfl⟩
    · exact .inl ⟨m.output, rfl, rfl⟩
    · exact (ih m' rest.symm).cons x _

theorem readLines_renumbered (t : Aliases) {ls ks : List CodeLine}
    (same : ls.map Prod.snd = ks.map Prod.snd) :
    (∃ xs ys, readLines t ls = .ok xs ∧ readLines t ks = .ok ys ∧
      xs.map Prod.snd = ys.map Prod.snd ∧ xs.map Prod.fst = ls.map Prod.fst ∧
      ys.map Prod.fst = ks.map Prod.fst) ∨
    ∃ problem n m, readLines t ls = .error ⟨n, problem⟩ ∧ readLines t ks = .error ⟨m, problem⟩ ∧
      Matches ls ks n m := by
  induction ls generalizing ks with
  | nil =>
    obtain rfl := List.map_eq_nil_iff.1 same.symm
    exact .inl ⟨[], [], rfl, rfl, rfl, rfl, rfl⟩
  | cons l ls ih =>
    obtain ⟨⟨k, _⟩, ks, rfl, rfl, rest⟩ := List.map_eq_cons_iff.1 same.symm
    rw [readLines, readLines]
    rcases statement t l.2 with problem | s
    · exact .inr ⟨problem, l.1, k, rfl, rfl, 0, l.2, rfl, rfl⟩
    · rcases ih rest.symm with ⟨xs, ys, left, right, snd, fst, fst'⟩ |
        ⟨problem, n, m, left, right, place⟩
      · exact .inl ⟨(l.1, s) :: xs, (k, s) :: ys, by rw [left]; rfl, by rw [right]; rfl,
          by simp [snd], by simp [fst], by simp [fst']⟩
      · exact .inr ⟨problem, n, m, by rw [left]; rfl, by rw [right]; rfl, place.cons l _⟩

/-- A place in two lists is a place in two other lists with the same numbers. -/
theorem Matches.of_numbers {α β : Type} {xs ys : List (Nat × α)} {ls ks : List (Nat × β)}
    {n m : Nat}
    (h : Matches xs ys n m) (left : xs.map Prod.fst = ls.map Prod.fst)
    (right : ys.map Prod.fst = ks.map Prod.fst) (same : ls.map Prod.snd = ks.map Prod.snd) :
    Matches ls ks n m := by
  obtain ⟨i, a, hx, hy⟩ := h
  have number : (ls.map Prod.fst)[i]? = some n := by simp [← left, hx]
  have number' : (ks.map Prod.fst)[i]? = some m := by simp [← right, hy]
  have thing := congrArg (·[i]?) same
  simp only [List.getElem?_map] at number number' thing
  obtain ⟨⟨_, b⟩, hl, rfl⟩ := Option.map_eq_some_iff.1 number
  obtain ⟨⟨_, c⟩, hk, rfl⟩ := Option.map_eq_some_iff.1 number'
  rw [hl, hk] at thing
  cases thing
  exact ⟨i, _, hl, hk⟩

/-! ## Programs with the same statements -/

theorem statement_congr {t t' : Aliases} (h : t.find? = t'.find?) : statement t = statement t' := by
  funext text
  simp only [statement, target, operand, place, indirect?, h]

theorem readLines_congr {t t' : Aliases} (h : t.find? = t'.find?) : readLines t = readLines t' := by
  funext ls
  induction ls with
  | nil => rfl
  | cons l ls ih => rw [readLines, readLines, ih, statement_congr h]

/-- Both programs give the same output, or both fail for the same reason, each at the
line of the same statement. -/
def SameUpToLines (p q : String) : Prop := Alike (statementsIn p) (statementsIn q) (run p) (run q)

theorem WellDefined.sameUpToLines {p q : String} (hp : WellDefined p) (hq : WellDefined q)
    (names : namesIn p = namesIn q)
    (statements : (statementsIn p).map Prod.snd = (statementsIn q).map Prod.snd) :
    SameUpToLines p q := by
  obtain ⟨t, found, runs⟩ := hp.run_eq
  obtain ⟨t', found', runs'⟩ := hq.run_eq
  rw [readLines_congr (found'.trans (names.symm.trans found.symm))] at runs'
  rw [SameUpToLines, runs, runs']
  rcases readLines_renumbered t statements with ⟨xs, ys, left, right, same, fst, fst'⟩ |
    ⟨problem, n, m, left, right, place⟩
  · rw [left, right]
    simp only [Except.bind, Program.run_eq_fixed]
    rcases ({} : FixedMachine).run_renumbered same with output | ⟨problem, n, m, hx, hy, place⟩
    · exact .inl output
    · exact .inr ⟨problem, n, m, hx, hy, place.of_numbers fst fst' statements⟩
  · rw [left, right]
    exact .inr ⟨problem, n, m, rfl, rfl, place⟩

/-! ## What the lines say -/

/-- A trimmed line that is neither blank nor a comment. -/
def code? : List Char → Option (List Char)
  | [] => none
  | '#' :: _ => none
  | cs => some cs

/-- What a line says, if it says something. -/
def said? (line : List Char) : Option (List Char) := code? (trim line)

/-- What the lines of a program say. -/
def sayings (text : String) : List (List Char) := (lines text.toList).filterMap said?

theorem sayings_eq (text : String) :
    sayings text = ((lines text.toList).map trim).filterMap code? := by
  rw [List.filterMap_map]
  rfl

/-- All but the definitions, without labels. -/
def statedIn (cs : List (List Char)) : List (List Char) :=
  (cs.filter fun c => (definition? c).isNone).map unlabelled

theorem codeLines_eq (cs : List Char) :
    codeLines cs = ((lines cs).zipIdx 1).filterMap fun x => (said? x.1).map (x.2, ·) := by
  rw [codeLines]
  congr
  funext x
  obtain ⟨line, n⟩ := x
  simp only [said?]
  generalize trim line = ds
  split <;> simp [code?]

theorem map_snd_codeLines (text : String) :
    (codeLines text.toList).map Prod.snd = sayings text := by
  rw [codeLines_eq, sayings]
  generalize 1 = n
  induction lines text.toList generalizing n with
  | nil => rfl
  | cons line ls ih =>
    rw [List.zipIdx_cons, List.filterMap_cons, List.filterMap_cons, ← ih (n + 1)]
    cases said? line <;> rfl

theorem wellDefined_iff {text : String} :
    WellDefined text ↔ ∀ c ∈ sayings text, ¬ MalformedDefinition c := by
  rw [WellDefined, ← map_snd_codeLines, List.forall_mem_map]

theorem namesIn_eq (text : String) : namesIn text = cellOf (sayings text) := by
  rw [namesIn, map_snd_codeLines]

theorem map_snd_statementsIn (text : String) :
    (statementsIn text).map Prod.snd = statedIn (sayings text) := by
  rw [statementsIn, statementLines, statedIn, ← map_snd_codeLines, List.filter_map]
  simp [Function.comp_def]

/-- Both define the same names and state the same. -/
structure SameSense (cs ds : List (List Char)) : Prop where
  definitions : (∀ c ∈ cs, ¬ MalformedDefinition c) ↔ ∀ d ∈ ds, ¬ MalformedDefinition d
  names : cellOf cs = cellOf ds
  statements : statedIn cs = statedIn ds

namespace SameSense

variable {cs ds es : List (List Char)}

theorem refl (cs : List (List Char)) : SameSense cs cs := ⟨Iff.rfl, rfl, rfl⟩

theorem symm (h : SameSense cs ds) : SameSense ds cs :=
  ⟨h.definitions.symm, h.names.symm, h.statements.symm⟩

theorem trans (h : SameSense cs ds) (h' : SameSense ds es) : SameSense cs es :=
  ⟨h.definitions.trans h'.definitions, h.names.trans h'.names, h.statements.trans h'.statements⟩

/-- What stands around a part makes no difference. -/
theorem between (h : SameSense cs ds) (before after : List (List Char)) :
    SameSense (before ++ cs ++ after) (before ++ ds ++ after) where
  definitions := by simp only [List.forall_mem_append, h.definitions]
  names := by
    funext name
    have same := congrFun h.names name
    simp only [cellOf, List.filterMap_append, List.reverse_append, List.lookup_append] at same ⊢
    rw [same]
  statements := by
    have same := h.statements
    simp only [statedIn, List.filter_append, List.map_append] at same ⊢
    rw [same]

theorem sameUpToLines {p q : String} (h : SameSense (sayings p) (sayings q)) (hp : WellDefined p) :
    SameUpToLines p q := by
  apply hp.sameUpToLines
  · exact wellDefined_iff.2 (h.definitions.1 (wellDefined_iff.1 hp))
  · rw [namesIn_eq, namesIn_eq, h.names]
  · rw [map_snd_statementsIn, map_snd_statementsIn, h.statements]

end SameSense

/-! ## Edits -/

/-- The line holds a statement that has no label. -/
structure Bare (line : List Char) : Prop where
  code : ∃ c cs, trim line = c :: cs ∧ c ≠ '#'
  statement : ¬ "equ ".toList <+: trim line
  unlabelled : unlabelled (trim line) = trim line

/-- Lines that can be written in place of other lines. -/
inductive Edit : List (List Char) → List (List Char) → Prop
  | blank {line} (white : ∀ c ∈ line, isWhiteSpace c) : Edit [] [line]
  | comment {front} (white : ∀ c ∈ front, isWhiteSpace c) (text) : Edit [] [front ++ '#' :: text]
  | space {front back} (before : ∀ c ∈ front, isWhiteSpace c) (behind : ∀ c ∈ back, isWhiteSpace c)
      (line) : Edit [line] [front ++ line ++ back]
  | label {label line} (name : label ≠ []) (labelChars : ∀ c ∈ label, isLabelChar c)
      (bare : Bare line) (other : line.head? ≠ some '=') : Edit [line] [label ++ ':' :: line]
  | definition {line line' name a} (defines : Defines (trim line) name a)
      (other : ∀ b, ¬ Defines (trim line') name b) : Edit [line, line'] [line', line]

/-- One step of writing a program in another layout. -/
inductive Relayout : String → String → Prop
  | lines {p q before after old new} (edit : Edit old new)
      (left : lines p.toList = before ++ old ++ after)
      (right : lines q.toList = before ++ new ++ after) : Relayout p q
  | lineEnd {p q cs ds} (left : p.toList = cs ++ '\n' :: ds)
      (right : q.toList = cs ++ '\r' :: '\n' :: ds) : Relayout p q

theorem code?_cons {c : Char} (h : c ≠ '#') (cs : List Char) :
    code? (c :: cs) = some (c :: cs) := by
  rw [code?] <;> simp [h]

theorem code?_eq_some {cs ds : List Char} (h : code? cs = some ds) : ds = cs := by
  unfold code? at h
  split at h <;> simp_all

theorem Bare.code? {line : List Char} (h : Bare line) : code? (trim line) = some (trim line) := by
  obtain ⟨c, cs, text, hc⟩ := h.code
  rw [text, code?_cons hc]

theorem Defines.code? {line name : List Char} {a : Nat} (h : Defines line name a) :
    code? line = some line := by
  obtain ⟨rest, -, rfl, -⟩ := h
  exact code?_cons (by decide) _

theorem definition?_eq_none {line : List Char} :
    definition? line = none ↔ ¬ "equ ".toList <+: line := by
  rw [definition?, Option.eq_none_iff_forall_ne_some]
  constructor
  · rintro h ⟨rest, text⟩
    exact h rest (dropLead?_eq_some.2 text.symm)
  · intro h rest found
    exact h ⟨rest, (dropLead?_eq_some.1 found).symm⟩

/-- A line with a label says what it said before, behind the label. -/
theorem Bare.exists_trim_label {label line : List Char} (bare : Bare line) (name : label ≠ [])
    (labelChars : ∀ c ∈ label, isLabelChar c) (other : line.head? ≠ some '=') :
    ∃ rest, trim (label ++ ':' :: line) = label ++ ':' :: rest ∧
      rest.head? ≠ some '=' ∧ trim rest = trim line := by
  obtain ⟨front, back, split, white, white', first, last⟩ := exists_trim line
  obtain ⟨c, cs, text, -⟩ := bare.code
  refine ⟨front ++ trim line, ?_, ?_, ?_⟩
  · have whole : label ++ ':' :: line = [] ++ (label ++ ':' :: (front ++ trim line)) ++ back := by
      conv_lhs => rw [split]
      simp
    rw [whole]
    refine trim_append (by simp) white' ?_ ?_
    · obtain ⟨d, ds, rfl⟩ := List.exists_cons_of_ne_nil name
      have range := isLabelChar_range (labelChars d (by simp))
      simpa using isWhiteSpace_eq_false (by omega) (by omega)
    · have ends : (label ++ ':' :: (front ++ trim line)).getLast? = (trim line).getLast? := by
        rw [text, ← List.cons_append, ← List.append_assoc,
          List.getLast?_append_of_ne_nil _ (by simp)]
      rw [ends]
      exact last
  · cases front with
    | nil =>
      rw [split, text] at other
      rw [text]
      exact other
    | cons w front =>
      intro start
      obtain rfl : w = '=' := by simpa using start
      exact absurd (white '=' (by simp)) (by decide)
  · simpa using @trim_append front (trim line) [] white (by simp) first last

theorem sameSense_statement {c d : List Char} (hc : definition? c = none)
    (hd : definition? d = none) (same : unlabelled c = unlabelled d) : SameSense [c] [d] where
  definitions := by simp [malformedDefinition_iff, hc, hd]
  names := by
    funext name
    simp [cellOf, defined?, hc, hd]
  statements := by simp [statedIn, hc, hd, same]

/-- Definitions of other names may come in any order, and anything else may come
before or behind a definition. -/
theorem sameSense_swap {c d name : List Char} {a : Nat} (defines : Defines c name a)
    (other : ∀ b, ¬ Defines d name b) : SameSense [c, d] [d, c] where
  definitions := by simp [and_comm]
  names := by
    funext x
    have hc := defined?_eq_some.2 defines
    rcases hd : defined? d with _ | ⟨y, b⟩
    · simp [cellOf, hc, hd]
    · have differs : y ≠ name := by
        rintro rfl
        exact other b (defined?_eq_some.1 hd)
      simp only [cellOf, List.filterMap_cons, hc, hd, List.filterMap_nil, List.reverse_cons,
        List.reverse_nil, List.nil_append, List.cons_append, List.lookup_cons]
      grind
  statements := by
    obtain ⟨rest, -, text, -⟩ := defines
    have hc : definition? c = some rest := dropLead?_eq_some.2 text
    simp [statedIn, hc, List.filter_cons]

theorem Edit.sameSense {old new : List (List Char)} (h : Edit old new) :
    SameSense (old.filterMap said?) (new.filterMap said?) := by
  cases h with
  | @blank line white =>
    have empty : trim line = [] := by
      simpa using @trim_append line [] [] white (by simp) (by simp) (by simp)
    have silent : said? line = none := by rw [said?, empty, Ewe.code?]
    simpa [silent] using SameSense.refl []
  | @comment front white text =>
    obtain ⟨rest, start⟩ := trim_cons (c := '#') (by decide) text
    have silent : said? (front ++ '#' :: text) = none := by
      have inner := @trim_padded front [] white (by simp) ('#' :: text)
      rw [List.append_nil] at inner
      rw [said?, inner, start, Ewe.code?]
    simpa [silent] using SameSense.refl []
  | @space front back before behind line =>
    have same : said? (front ++ line ++ back) = said? line := by
      rw [said?, said?, trim_padded before behind]
    simp only [List.filterMap_cons, same]
    exact SameSense.refl _
  | @label label line name labelChars bare other =>
    obtain ⟨rest, text, start, same⟩ := bare.exists_trim_label name labelChars other
    have labelled : said? (label ++ ':' :: line) = some (label ++ ':' :: rest) := by
      obtain ⟨c, cs, rfl⟩ := List.exists_cons_of_ne_nil name
      have range := isLabelChar_range (labelChars c (by simp))
      rw [said?, text]
      refine code?_cons ?_ _
      rintro rfl
      exact absurd range.1 (by decide)
    have plain : said? line = some (trim line) := bare.code?
    simp only [List.filterMap_cons, List.filterMap_nil, labelled, plain]
    refine sameSense_statement (definition?_eq_none.2 bare.statement)
      (definition?_label labelChars rest) ?_
    rw [bare.unlabelled, unlabelled_label labelChars rest name start, same]
  | @definition line line' name a defines other =>
    have here : said? line = some (trim line) := defines.code?
    rcases there : said? line' with _ | d
    · simpa [here, there] using SameSense.refl [trim line]
    · obtain rfl := code?_eq_some there
      simpa [here, there] using sameSense_swap defines other

theorem Relayout.sameSense {p q : String} (h : Relayout p q) :
    SameSense (sayings p) (sayings q) := by
  cases h with
  | lines edit left right =>
    rw [sayings, sayings, left, right]
    simpa only [List.filterMap_append] using edit.sameSense.between _ _
  | lineEnd left right =>
    have same : sayings q = sayings p := by
      simp only [sayings_eq, left, right]
      rw [Text.lines, Text.lines, map_trim_linesFrom_return]
    rw [same]
    exact SameSense.refl _

theorem sameSense_of_eqvGen {p q : String} (h : Relation.EqvGen Relayout p q) :
    SameSense (sayings p) (sayings q) := by
  induction h with
  | rel _ _ step => exact step.sameSense
  | refl _ => exact .refl _
  | symm _ _ _ ih => exact ih.symm
  | trans _ _ _ _ _ ih ih' => exact ih.trans ih'

/-- The names and the statements of a program decide what it does, up to the numbers
of its lines. Hence all steps from one layout to another one, taken forwards or
backwards, change nothing else. -/
theorem layout_changes_line_numbers_only :
    (∀ p q : String, WellDefined p → WellDefined q → namesIn p = namesIn q →
      (statementsIn p).map Prod.snd = (statementsIn q).map Prod.snd → SameUpToLines p q) ∧
    ∀ p q : String, Relation.EqvGen Relayout p q → WellDefined p → SameUpToLines p q := by
  constructor
  · intro p q hp hq names statements
    exact hp.sameUpToLines hq names statements
  · intro p q layout hp
    exact (sameSense_of_eqvGen layout).sameUpToLines hp

/-- A definition moves behind its use, which gets a label and another line end. The
division by zero is then reported on the first line and no longer on the second. -/
theorem division_by_zero_moves_up :
    WellDefined "equ x M[0]\nx := 1 / 0" ∧
    Relation.EqvGen Relayout "equ x M[0]\nx := 1 / 0" "main:x := 1 / 0\r\nequ x M[0]" ∧
    SameUpToLines "equ x M[0]\nx := 1 / 0" "main:x := 1 / 0\r\nequ x M[0]" ∧
    run "equ x M[0]\nx := 1 / 0" = .error ⟨2, .arithmetic .divisionByZero⟩ ∧
    run "main:x := 1 / 0\r\nequ x M[0]" = .error ⟨1, .arithmetic .divisionByZero⟩ := by
  have defined : WellDefined "equ x M[0]\nx := 1 / 0" := by
    rw [WellDefined]
    decide +kernel
  have defines : Defines (trim "equ x M[0]".toList) ['x'] 0 :=
    defined?_eq_some.1 (by decide +kernel)
  have other (b : Nat) : ¬ Defines (trim "x := 1 / 0".toList) ['x'] b := by
    have unnamed : defined? (trim "x := 1 / 0".toList) = none := by decide +kernel
    simp only [← defined?_eq_some, unnamed, reduceCtorEq, not_false_eq_true]
  have bare : Bare "x := 1 / 0".toList :=
    ⟨⟨'x', _, rfl, by decide⟩, by decide +kernel, by decide +kernel⟩
  have moved : Relayout "equ x M[0]\nx := 1 / 0" "x := 1 / 0\nequ x M[0]" :=
    @Relayout.lines _ _ [] [] _ _ (.definition defines other) rfl rfl
  have labelled : Relayout "x := 1 / 0\nequ x M[0]" "main:x := 1 / 0\nequ x M[0]" :=
    @Relayout.lines _ _ [] ["equ x M[0]".toList] _ _
      (@Edit.label "main".toList _ (by decide) (List.all_eq_true.1 (by decide)) bare (by decide))
      rfl rfl
  have ended : Relayout "main:x := 1 / 0\nequ x M[0]" "main:x := 1 / 0\r\nequ x M[0]" :=
    @Relayout.lineEnd _ _ "main:x := 1 / 0".toList "equ x M[0]".toList rfl rfl
  have layout :=
    ((Relation.EqvGen.rel _ _ moved).trans _ _ _ (.rel _ _ labelled)).trans _ _ _ (.rel _ _ ended)
  exact ⟨defined, layout, layout_changes_line_numbers_only.2 _ _ layout defined, by decide +kernel,
    by decide +kernel⟩

end Calculator.Ewe
