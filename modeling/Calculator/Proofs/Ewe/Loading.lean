import Calculator.Proofs.Ewe.Reading

/-!
# Loading what was written

Every line of assembly is loaded as what it stands for: a statement as itself, a
definition as the cell of its register. So a text loads as the statements on its
lines, each with the number of its line.
-/

namespace Calculator.Ewe

open Text

/-- A comment has to stay on its line, and a label has to be a name. -/
def Line.Clean : Line → Prop
  | .comment text => '\n' ∉ text.toList ∧ '\r' ∉ text.toList
  | .labelled label _ => label.toList ≠ [] ∧ ∀ c ∈ label.toList, isLabelChar c
  | .code _ | .equ _ => True

/-- What is left of a line after trimming, unless it is a comment. -/
def Line.codeText? : Line → Option (List Char)
  | .comment _ => none
  | .code s => some s.text
  | .labelled label s => some (Line.labelled label s).text
  | .equ r => some (Line.equ r).text

theorem Line.text_code (s : Statement Register) :
    (Line.code s).text = "     ".toList ++ s.text := rfl

theorem Line.text_labelled (label : String) (s : Statement Register) :
    (Line.labelled label s).text = label.toList ++ ": ".toList ++ s.text := rfl

/-- The character does not take part in ending a line. -/
def isInline (c : Char) : Bool := c != '\n' && c != '\r'

theorem ne_of_all_isInline {cs : List Char} (all : cs.all isInline) {c : Char} (h : c ∈ cs) :
    c ≠ '\n' ∧ c ≠ '\r' := by
  simpa [isInline] using List.all_eq_true.1 all c h

/-- Statements fit on one line. -/
theorem Statement.ne_of_mem_text {s : Statement Register} {c : Char} (h : c ∈ s.text) :
    c ≠ '\n' ∧ c ≠ '\r' := by
  have solid {cs : List Char} (hs : Solid cs) (h : c ∈ cs) : c ≠ '\n' ∧ c ≠ '\r' := by
    have visible := hs.2 c h
    constructor <;> rintro rfl <;> exact absurd visible (by decide)
  cases s with
  | move dst src =>
    rw [Statement.text_move, List.mem_append, List.mem_append] at h
    rcases h with (h | h) | h
    · exact solid (solid_place dst) h
    · exact ne_of_all_isInline (by decide) h
    · exact solid (solid_operand src) h
  | compute dst lhs op rhs =>
    simp only [Statement.text_compute, List.mem_append] at h
    rcases h with (h | h) | (h | h) | h
    · exact solid (solid_place dst) h
    · exact ne_of_all_isInline (by decide) h
    · exact solid (solid_operand lhs) h
    · exact ne_of_all_isInline (by cases op <;> decide) h
    · exact solid (solid_operand rhs) h
  | writeInt src =>
    rw [Statement.text_writeInt, List.mem_append, List.mem_append] at h
    rcases h with (h | h) | h
    · exact ne_of_all_isInline (by decide) h
    · exact solid (solid_operand src) h
    · exact ne_of_all_isInline (by decide) h
  | halt => exact ne_of_all_isInline (by decide) h

theorem isLabelChar_range {c : Char} (h : isLabelChar c) :
    48 ≤ c.toNat ∧ c.toNat ≤ 122 ∧ c ≠ ':' := by
  rw [isLabelChar, Bool.or_eq_true, beq_iff_eq] at h
  rcases h with h | rfl
  · have range := toNat_of_isAlphanum h
    refine ⟨by omega, by omega, ?_⟩
    rintro rfl
    exact absurd h (by decide)
  · decide

theorem Line.Clean.ne_of_mem_text {l : Line} (clean : l.Clean) {c : Char} (h : c ∈ l.text) :
    c ≠ '\n' ∧ c ≠ '\r' := by
  cases l with
  | comment text =>
    rcases List.mem_cons.1 h with rfl | h
    · decide
    · exact ⟨fun e => clean.1 (e ▸ h), fun e => clean.2 (e ▸ h)⟩
  | code s =>
    rw [Line.text_code, List.mem_append] at h
    rcases h with h | h
    · exact ne_of_all_isInline (by decide) h
    · exact s.ne_of_mem_text h
  | labelled label s =>
    rw [Line.text_labelled, List.mem_append, List.mem_append] at h
    rcases h with (h | h) | h
    · have range := isLabelChar_range (clean.2 c h)
      constructor <;> rintro rfl <;> exact absurd range.1 (by decide)
    · exact ne_of_all_isInline (by decide) h
    · exact s.ne_of_mem_text h
  | equ r => exact ne_of_all_isInline (by cases r <;> decide) h

/-! ## Texts -/

/-- The code lines of a text of assembly, the first line of which has the number `n`. -/
def codeTexts (n : Nat) : List Line → List CodeLine
  | [] => []
  | l :: ls =>
    match l.codeText? with
    | none => codeTexts (n + 1) ls
    | some cs => (n, cs) :: codeTexts (n + 1) ls

theorem lines_render {ls : List Line} (clean : ∀ l ∈ ls, l.Clean) :
    lines (render ls).toList = ls.map Line.text := by
  rw [render, String.toList_ofList]
  induction ls with
  | nil => rfl
  | cons l ls ih =>
    have ends {c : Char} (h : c ∈ l.text) := (clean l (by simp)).ne_of_mem_text h
    rw [List.flatMap_cons, List.append_assoc, List.singleton_append,
      lines_append (fun h => (ends h).1 rfl) (fun h => (ends h).2 rfl),
      ih fun k hk => clean k (by simp [hk]), List.map_cons]

/-- A trimmed line is either a comment or the text of its code. -/
theorem Line.Clean.trim_text {l : Line} (clean : l.Clean) :
    match l.codeText? with
    | none => ∃ cs, trim l.text = '#' :: cs
    | some cs => trim l.text = cs ∧ ∃ c ds, cs = c :: ds ∧ c ≠ '#' := by
  cases l with
  | comment text => exact trim_cons (by decide) _
  | code s =>
    obtain ⟨⟨c, cs, text, alpha, -⟩, -⟩ := s.text_ends
    refine ⟨s.trim_text (List.all_eq_true.1 (by decide)), c, cs, text, ?_⟩
    rintro rfl
    exact absurd alpha (by decide)
  | labelled label s =>
    obtain ⟨c, cs, text⟩ := List.exists_cons_of_ne_nil clean.1
    have range := isLabelChar_range (clean.2 c (by simp [text]))
    have first : isWhiteSpace c = false := isWhiteSpace_eq_false (by omega) (by omega)
    obtain ⟨⟨d, ds, statement, -⟩, last⟩ := s.text_ends
    refine ⟨trim_eq_self ?_ ?_, c, _, by rw [Line.text_labelled, text]; rfl, ?_⟩
    · simpa [Line.text_labelled, text] using first
    · rw [Line.text_labelled, List.getLast?_append_of_ne_nil _ (by simp [statement])]
      exact last
    · rintro rfl
      exact absurd range.1 (by decide)
  | equ r => cases r <;> exact ⟨by decide, _, _, rfl, by decide⟩

theorem codeLines_render {ls : List Line} (clean : ∀ l ∈ ls, l.Clean) :
    codeLines (render ls).toList = codeTexts 1 ls := by
  rw [codeLines, lines_render clean]
  generalize 1 = n
  induction ls generalizing n with
  | nil => rfl
  | cons l ls ih =>
    have trimmed := (clean l (by simp)).trim_text
    rw [List.map_cons, List.zipIdx_cons, List.filterMap_cons, codeTexts,
      ih fun k hk => clean k (by simp [hk])]
    cases h : l.codeText? with
    | none =>
      rw [h] at trimmed
      obtain ⟨cs, hcs⟩ := trimmed
      simp [hcs]
    | some cs =>
      rw [h] at trimmed
      obtain ⟨hcs, c, ds, rfl, hc⟩ := trimmed
      simp only [hcs]
      split <;> simp_all

/-! ## Labels and definitions -/

section Labelled

variable {label : List Char} (labelChars : ∀ c ∈ label, isLabelChar c) (rest : List Char)
include labelChars

theorem ne_colon_of_labelChars : ∀ c ∈ label, decide (c ≠ ':') = true := fun c h =>
  decide_eq_true (isLabelChar_range (labelChars c h)).2.2

theorem takeWhile_label : (label ++ ':' :: rest).takeWhile (fun c => decide (c ≠ ':')) = label := by
  rw [List.takeWhile_append_of_pos (ne_colon_of_labelChars labelChars),
    List.takeWhile_cons_of_neg (by simp), List.append_nil]

/-- A label is taken off, unless its colon starts an assignment. -/
theorem unlabelled_label (name : label ≠ []) (other : rest.head? ≠ some '=') :
    unlabelled (label ++ ':' :: rest) = trim rest := by
  have drop : (label ++ ':' :: rest).dropWhile (fun c => decide (c ≠ ':')) = ':' :: rest := by
    rw [List.dropWhile_append_of_pos (ne_colon_of_labelChars labelChars),
      List.dropWhile_cons_of_neg (by simp)]
  have all : label.all isLabelChar = true := List.all_eq_true.2 labelChars
  rw [unlabelled, takeWhile_label labelChars, drop]
  simp [name, all, other]

/-- A labelled line is no definition: no label has a blank in it. -/
theorem definition?_label : definition? (label ++ ':' :: rest) = none := by
  cases h : definition? (label ++ ':' :: rest) with
  | none => rfl
  | some behind =>
    have blank : ' ' ∈ label := by
      have start := takeWhile_label labelChars rest
      rw [dropLead?_eq_some.1 h,
        List.takeWhile_append_of_pos (List.all_eq_true.1 (by decide))] at start
      rw [← start]
      simp
    exact absurd (labelChars ' ' blank) (by decide)

end Labelled

theorem Line.text_labelled_eq (label : String) (s : Statement Register) :
    (Line.labelled label s).text = label.toList ++ ':' :: ' ' :: s.text := by
  simp [Line.text_labelled]

theorem Line.Clean.unlabelled_text {label : String} {s : Statement Register}
    (clean : (Line.labelled label s).Clean) : unlabelled (Line.labelled label s).text = s.text := by
  rw [Line.text_labelled_eq, unlabelled_label clean.2 _ clean.1 (by simp)]
  exact s.trim_text (List.all_eq_true.1 (by decide : [' '].all isWhiteSpace))

theorem Line.Clean.definition?_text {label : String} {s : Statement Register}
    (clean : (Line.labelled label s).Clean) : definition? (Line.labelled label s).text = none := by
  rw [Line.text_labelled_eq, definition?_label clean.2]

/-- The aliases after a line. -/
def Line.define (t : Aliases) : Line → Aliases
  | .equ r => t.insert r.name.toList r.address
  | .comment _ | .code _ | .labelled _ _ => t

theorem definition?_equ (r : Register) :
    ∃ rest, definition? (Line.equ r).text = some rest ∧
      binding? rest = some (r.name.toList, r.address) := by
  cases r <;> exact ⟨_, rfl, by decide⟩

theorem collectAliases_codeTexts {ls : List Line} (clean : ∀ l ∈ ls, l.Clean) (t : Aliases)
    (n : Nat) : collectAliases t (codeTexts n ls) = .ok (ls.foldl Line.define t) := by
  induction ls generalizing t n with
  | nil => rfl
  | cons l ls ih =>
    have rest := ih fun k hk => clean k (by simp [hk])
    have here := clean l (by simp)
    rw [codeTexts, List.foldl_cons]
    cases l with
    | comment text => exact rest t (n + 1)
    | code s => simp [Line.codeText?, collectAliases, s.definition?_text, rest, Line.define]
    | labelled label s =>
      simp [Line.codeText?, collectAliases, here.definition?_text, rest, Line.define]
    | equ r =>
      obtain ⟨text, definition, binding⟩ := definition?_equ r
      simp [Line.codeText?, collectAliases, definition, binding, rest, Line.define]

theorem collectStatements_codeTexts {ls : List Line} (clean : ∀ l ∈ ls, l.Clean) (n : Nat) :
    collectStatements registerAliases (codeTexts n ls) = .ok (numbered n ls) := by
  induction ls generalizing n with
  | nil => rfl
  | cons l ls ih =>
    have rest := ih fun k hk => clean k (by simp [hk])
    have here := clean l (by simp)
    rw [codeTexts, numbered]
    cases l with
    | comment text => exact rest (n + 1)
    | code s =>
      simp only [Line.codeText?, Line.statement?, collectStatements, s.definition?_text,
        s.unlabelled_text, statement_text, rest]
      rfl
    | labelled label s =>
      simp only [Line.codeText?, Line.statement?, collectStatements, here.definition?_text,
        here.unlabelled_text, statement_text, rest]
      rfl
    | equ r =>
      obtain ⟨text, definition, -⟩ := definition?_equ r
      simp only [Line.codeText?, Line.statement?, collectStatements, definition, rest]

/-! ## Compiled programs -/

theorem Line.clean_comment {text : String} (all : text.toList.all isInline) :
    (Line.comment text).Clean :=
  ⟨fun h => (ne_of_all_isInline all h).1 rfl, fun h => (ne_of_all_isInline all h).2 rfl⟩

/-- What holds of statements without a label and of comments on one line holds of
every line of an expression. -/
theorem forall_mem_emit {P : Line → Prop}
    (comment : ∀ text : String, text.toList.all isInline → P (.comment text))
    (code : ∀ s, P (.code s)) (e : Expr) {after : List Line} (h : ∀ l ∈ after, P l) :
    ∀ l ∈ emit e after, P l := by
  have start (op : Op) : P (.comment ("Start " ++ blockName op)) := by
    cases op <;> exact comment _ (by decide)
  have stop (op : Op) : P (.comment ("End " ++ blockName op)) := by
    cases op <;> exact comment _ (by decide)
  induction e generalizing after with
  | number v =>
    simp only [emit, List.forall_mem_cons]
    exact ⟨comment _ (by decide), code _, code _, comment _ (by decide), h⟩
  | memory =>
    simp only [emit, List.forall_mem_cons]
    exact ⟨comment _ (by decide), code _, comment _ (by decide), h⟩
  | negate e ih =>
    rw [emit, List.forall_mem_cons, List.forall_mem_cons]
    refine ⟨comment _ (by decide), code _, ih ?_⟩
    simp only [List.forall_mem_cons]
    exact ⟨code _, code _, code _, code _, comment _ (by decide), h⟩
  | store e ih =>
    rw [emit, List.forall_mem_cons, List.forall_mem_cons]
    refine ⟨comment _ (by decide), code _, ih ?_⟩
    simp only [List.forall_mem_cons]
    exact ⟨code _, code _, code _, code _, comment _ (by decide), h⟩
  | binary op l r ihl ihr =>
    rw [emit, List.forall_mem_cons, List.forall_mem_cons, List.forall_mem_cons]
    refine ⟨start op, code _, comment _ (by decide), ihl ?_⟩
    simp only [List.forall_mem_cons]
    refine ⟨code _, code _, code _, code _, comment _ (by decide), ihr ?_⟩
    simp only [List.forall_mem_cons]
    exact ⟨code _, code _, code _, code _, code _, code _, code _, stop op, h⟩

theorem clean_emit (e : Expr) {after : List Line} (h : ∀ l ∈ after, l.Clean) :
    ∀ l ∈ emit e after, l.Clean :=
  forall_mem_emit (fun _ => Line.clean_comment) (fun _ => trivial) e h

/-- The code of an expression defines no names. -/
theorem define_emit (e : Expr) (after : List Line) (t : Aliases) :
    (emit e after).foldl Line.define t = after.foldl Line.define t := by
  induction e generalizing after with
  | number v => rfl
  | memory => rfl
  | negate e ih => exact ih _
  | store e ih => exact ih _
  | binary op l r ihl ihr => exact (ihl _).trans (ihr _)

theorem clean_program (e : Expr) : ∀ l ∈ program e, l.Clean := by
  rw [program, List.forall_mem_append]
  constructor
  · simp [prologue, Line.Clean, set, update]
    decide
  · apply clean_emit
    simp [epilogue, Line.Clean, fetch, set, update]

/-- The text of a code block loads as its statements. -/
theorem collectStatements_block (e : Expr) :
    collectStatements registerAliases (codeLines (render (block e)).toList) =
      .ok (numbered 1 (block e)) := by
  have clean : ∀ l ∈ block e, l.Clean := clean_emit e (by simp)
  rw [codeLines_render clean, collectStatements_codeTexts clean]

/-- The names in a compiled program are those of the registers. -/
theorem collectAliases_program (e : Expr) :
    collectAliases {} (codeLines (render (program e)).toList) = .ok registerAliases := by
  have aliases : (program e).foldl Line.define {} = registerAliases := by
    rw [program, List.foldl_append, define_emit]
    decide
  rw [codeLines_render (clean_program e), collectAliases_codeTexts (clean_program e), aliases]

theorem collectStatements_program (e : Expr) :
    collectStatements registerAliases (codeLines (render (program e)).toList) =
      .ok (numbered 1 (program e)) := by
  rw [codeLines_render (clean_program e), collectStatements_codeTexts (clean_program e)]

/-- A compiled program loads as the statements it was written from. -/
theorem load_program (e : Expr) :
    load (render (program e)) =
      .ok { aliases := registerAliases, statements := numbered 1 (program e) } := by
  simp only [load, collectAliases_program, bind, Except.bind, collectStatements_program]
  rfl

end Calculator.Ewe
