import Calculator.Proofs.Ewe.Capacity
import Calculator.Proofs.Ewe.Wording

/-!
# Which failure comes first

A program is read in two passes before anything of it runs. The first pass reads
the definitions and fails at the first one that is malformed. The second pass reads
all other lines with the names of all definitions, wherever these stand, and fails
at the first line that is no statement, with the one problem that this line has. Only
a program that passes both can fail while it runs, and what stands behind a `halt`
then makes no difference.
-/

namespace Calculator.Ewe

open Text Numeral

/-! ## Definitions -/

/-- The line defines the name as a cell. -/
def Defines (line name : List Char) (a : Nat) : Prop :=
  ∃ rest inner, line = "equ ".toList ++ rest ∧ words rest = [name, bracketed inner] ∧
    unsigned? (trim inner) = some a

/-- The line starts as a definition and defines nothing. -/
def MalformedDefinition (line : List Char) : Prop :=
  "equ ".toList <+: line ∧ ∀ name a, ¬ Defines line name a

/-- The name that a line defines and its cell. -/
def defined? (line : List Char) : Option (List Char × Nat) := (definition? line).bind binding?

/-- The cell that the last definition of a name gives to it. -/
def cellOf (lines : List (List Char)) (name : List Char) : Option Nat :=
  (lines.filterMap defined?).reverse.lookup name

theorem binding?_eq_some {rest name : List Char} {a : Nat} :
    binding? rest = some (name, a) ↔
      ∃ inner, words rest = [name, bracketed inner] ∧ unsigned? (trim inner) = some a := by
  rw [binding?]
  split
  · next x cell split =>
    simp only [split, address?, Option.map_eq_some_iff, Option.bind_eq_some_iff,
      reference?_eq_some]
    constructor
    · rintro ⟨b, ⟨_, ⟨inner, rfl, rfl⟩, number⟩, same⟩
      cases same
      exact ⟨inner, rfl, number⟩
    · rintro ⟨inner, same, number⟩
      cases same
      exact ⟨a, ⟨_, ⟨inner, rfl, rfl⟩, number⟩, rfl⟩
  · next other =>
    simp only [reduceCtorEq, false_iff, not_exists, not_and]
    intro inner split
    exact absurd split (other _ _)

theorem defined?_eq_some {line name : List Char} {a : Nat} :
    defined? line = some (name, a) ↔ Defines line name a := by
  simp only [defined?, definition?, Option.bind_eq_some_iff, dropLead?_eq_some, binding?_eq_some,
    Defines]
  constructor
  · rintro ⟨rest, split, inner, said, number⟩
    exact ⟨rest, inner, split, said, number⟩
  · rintro ⟨rest, inner, split, said, number⟩
    exact ⟨rest, split, inner, said, number⟩

theorem malformedDefinition_iff {line : List Char} :
    MalformedDefinition line ↔ ∃ rest, definition? line = some rest ∧ binding? rest = none := by
  constructor
  · rintro ⟨⟨rest, split⟩, undefined⟩
    have starts : definition? line = some rest := dropLead?_eq_some.2 split.symm
    refine ⟨rest, starts, ?_⟩
    rw [Option.eq_none_iff_forall_ne_some]
    rintro ⟨name, a⟩ binds
    exact undefined name a (defined?_eq_some.1 (by simp [defined?, starts, binds]))
  · rintro ⟨rest, starts, malformed⟩
    refine ⟨⟨rest, (dropLead?_eq_some.1 starts).symm⟩, fun name a defines => ?_⟩
    simpa [defined?, starts, malformed] using defined?_eq_some.2 defines

instance : DecidablePred MalformedDefinition := fun line =>
  decidable_of_iff ((definition? line).any fun rest => (binding? rest).isNone) <| by
    rw [malformedDefinition_iff]
    cases definition? line <;> simp

/-! ## The first pass -/

theorem Aliases.find?_insert (t : Aliases) (name other : List Char) (a : Nat) :
    (t.insert name a).find? other = if other = name then some a else t.find? other := by
  rw [find?, find?, insert, List.lookup_cons]
  split
  · next same => simp_all
  · next differs =>
    rw [if_neg (by simpa using differs)]
    induction t.entries with
    | nil => rfl
    | cons entry rest ih => grind

theorem cellOf_cons (line : List Char) (lines : List (List Char)) (name : List Char) :
    cellOf (line :: lines) name = (cellOf lines name).or ((defined? line).toList.lookup name) := by
  rw [cellOf, cellOf, List.filterMap_cons]
  cases defined? line with
  | none => simp
  | some x => simp [List.lookup_append]

/-- Without a malformed definition, the first pass finds the last cell of every name. -/
theorem exists_collectAliases {ls : List CodeLine} (h : ∀ l ∈ ls, ¬ MalformedDefinition l.2)
    (t : Aliases) :
    ∃ t', collectAliases t ls = .ok t' ∧
      ∀ name, t'.find? name = (cellOf (ls.map Prod.snd) name).or (t.find? name) := by
  induction ls generalizing t with
  | nil => exact ⟨t, rfl, fun name => rfl⟩
  | cons l ls ih =>
    rw [List.forall_mem_cons, malformedDefinition_iff] at h
    rw [collectAliases]
    simp only [List.map_cons, cellOf_cons, defined?]
    rcases starts : definition? l.2 with _ | rest
    · simpa using ih h.2 t
    · rcases binds : binding? rest with _ | ⟨name, a⟩
      · exact absurd ⟨rest, starts, binds⟩ h.1
      · obtain ⟨t', collected, found⟩ := ih h.2 (t.insert name a)
        refine ⟨t', by simp only [binds, collected], fun other => ?_⟩
        rw [found, Aliases.find?_insert, Option.or_assoc]
        congr 1
        by_cases same : other = name
        · simp [binds, same]
        · simp [binds, List.lookup_cons, same, beq_eq_false_iff_ne.2 same]

theorem collectAliases_of_malformed {before after : List CodeLine} {n : Nat} {line : List Char}
    (h : ∀ l ∈ before, ¬ MalformedDefinition l.2) (malformed : MalformedDefinition line)
    (t : Aliases) :
    collectAliases t (before ++ (n, line) :: after) =
      .error ⟨n, .directive (String.ofList line)⟩ := by
  induction before generalizing t with
  | nil =>
    obtain ⟨rest, starts, unbound⟩ := malformedDefinition_iff.1 malformed
    simp only [List.nil_append, collectAliases, starts, unbound]
  | cons l ls ih =>
    rw [List.forall_mem_cons, malformedDefinition_iff] at h
    rw [List.cons_append, collectAliases]
    rcases starts : definition? l.2 with _ | rest
    · exact ih h.2 t
    · rcases binds : binding? rest with _ | ⟨name, a⟩
      · exact absurd ⟨rest, starts, binds⟩ h.1
      · simpa only [binds] using ih h.2 (t.insert name a)

theorem lookup_defined? {line name : List Char} {a : Nat} :
    (defined? line).toList.lookup name = some a ↔ Defines line name a := by
  rw [← defined?_eq_some]
  rcases defined? line with _ | ⟨other, b⟩
  · simp
  · by_cases same : name = other
    · simp [same]
    · simp [List.lookup_cons, beq_eq_false_iff_ne.2 same, Ne.symm same]

theorem cellOf_eq_none {lines : List (List Char)} {name : List Char} :
    cellOf lines name = none ↔ ∀ line ∈ lines, ∀ a, ¬ Defines line name a := by
  induction lines with
  | nil => simp [cellOf]
  | cons line lines ih =>
    rw [cellOf_cons, Option.or_eq_none_iff, ih, List.forall_mem_cons, and_comm,
      Option.eq_none_iff_forall_ne_some]
    exact and_congr_left' (forall_congr' fun a => not_congr lookup_defined?)

/-- A name stands for the cell of its last definition. -/
theorem cellOf_eq_some {lines : List (List Char)} {name : List Char} {a : Nat} :
    cellOf lines name = some a ↔
      ∃ before after line, lines = before ++ line :: after ∧ Defines line name a ∧
        ∀ k ∈ after, ∀ b, ¬ Defines k name b := by
  induction lines with
  | nil => simp [cellOf]
  | cons line lines ih =>
    rw [cellOf_cons, Option.or_eq_some_iff, ih, cellOf_eq_none, lookup_defined?]
    constructor
    · rintro (⟨before, after, k, rfl, defines, last⟩ | ⟨last, defines⟩)
      · exact ⟨line :: before, after, k, rfl, defines, last⟩
      · exact ⟨[], lines, line, rfl, defines, last⟩
    · rintro ⟨before, after, k, split, defines, last⟩
      cases before with
      | nil =>
        cases split
        exact .inr ⟨last, defines⟩
      | cons _ before =>
        cases split
        exact .inl ⟨before, after, k, rfl, defines, last⟩

/-! ## The second pass -/

/-- The lines that are no definitions, without their labels. -/
def statementLines (ls : List CodeLine) : List CodeLine :=
  (ls.filter fun l => (definition? l.2).isNone).map fun l => (l.1, unlabelled l.2)

/-- The statements on lines that are no definitions. -/
def readLines (t : Aliases) : List CodeLine → Except Failure (List (Nat × Statement Nat))
  | [] => .ok []
  | (n, line) :: ls =>
    match statement t line with
    | .error problem => .error ⟨n, problem⟩
    | .ok s => (readLines t ls).map ((n, s) :: ·)

variable {t : Aliases}

theorem collectStatements_eq (t : Aliases) (ls : List CodeLine) :
    collectStatements t ls = readLines t (statementLines ls) := by
  induction ls with
  | nil => rfl
  | cons l ls ih =>
    rw [collectStatements, ih]
    rcases starts : definition? l.2 with _ | rest
    · have kept : statementLines (l :: ls) = (l.1, unlabelled l.2) :: statementLines ls := by
        simp [statementLines, starts]
      rewrite [kept, readLines]
      rfl
    · simp [statementLines, starts]

theorem readLines_eq_ok {ls : List CodeLine} {xs : List (Nat × Statement Nat)}
    (h : List.Forall₂ (fun l x => l.1 = x.1 ∧ statement t l.2 = .ok x.2) ls xs) :
    readLines t ls = .ok xs := by
  induction h with
  | nil => rfl
  | cons read _ ih =>
    rw [readLines, read.2, ih, read.1]
    rfl

theorem readLines_of_error {before after : List CodeLine} {n : Nat} {line : List Char}
    {problem : Problem} (h : ∀ l ∈ before, ∃ s, statement t l.2 = .ok s)
    (failed : statement t line = .error problem) :
    readLines t (before ++ (n, line) :: after) = .error ⟨n, problem⟩ := by
  induction before with
  | nil => rw [List.nil_append, readLines, failed]
  | cons l before ih =>
    obtain ⟨⟨s, read⟩, rest⟩ := List.forall_mem_cons.1 h
    rw [List.cons_append, readLines, read, ih rest]
    rfl

/-! ## Programs -/

/-- The cells of the names that a program defines. -/
def namesIn (text : String) : List Char → Option Nat :=
  cellOf ((codeLines text.toList).map Prod.snd)

/-- The lines of a program that have to be statements. -/
def statementsIn (text : String) : List CodeLine := statementLines (codeLines text.toList)

/-- No definition of a program is malformed. -/
def WellDefined (text : String) : Prop := ∀ l ∈ codeLines text.toList, ¬ MalformedDefinition l.2

/-- All lines of a program can be read, and these are its statements. -/
structure Loads (text : String) (xs : List (Nat × Statement Nat)) : Prop where
  definitions : WellDefined text
  statements : List.Forall₂ (fun l x => l.1 = x.1 ∧ StatementText (namesIn text) l.2 x.2)
    (statementsIn text) xs

variable {text : String} {xs : List (Nat × Statement Nat)}

/-- Without a malformed definition, only the statements decide what happens. -/
theorem WellDefined.run_eq (h : WellDefined text) :
    ∃ t : Aliases, t.find? = namesIn text ∧
      run text = (readLines t (statementsIn text)).bind fun xs => Program.run ⟨t, xs⟩ := by
  obtain ⟨t, collected, found⟩ := exists_collectAliases h {}
  refine ⟨t, funext fun name => ?_, ?_⟩
  · rw [found name, namesIn, show ({} : Aliases).find? name = none from rfl, Option.or_none]
  · simp only [run, load, collected, bind, Except.bind, collectStatements_eq, statementsIn]
    cases readLines t (statementLines (codeLines text.toList)) <;> rfl

theorem run_of_malformedDefinition {before after : List CodeLine} {n : Nat} {line : List Char}
    (split : codeLines text.toList = before ++ (n, line) :: after)
    (h : ∀ l ∈ before, ¬ MalformedDefinition l.2) (malformed : MalformedDefinition line) :
    run text = .error ⟨n, .directive (String.ofList line)⟩ := by
  rw [run, load, split, collectAliases_of_malformed h malformed]
  rfl

theorem run_of_malformedStatement (defined : WellDefined text) {before after : List CodeLine}
    {n : Nat} {line : List Char} (split : statementsIn text = before ++ (n, line) :: after)
    (h : ∀ l ∈ before, ∃ s, StatementText (namesIn text) l.2 s)
    (malformed : ∀ s, ¬ StatementText (namesIn text) line s) :
    ∃ problem, (∀ other, Blames (namesIn text) line other ↔ other = problem) ∧
      run text = .error ⟨n, problem⟩ := by
  obtain ⟨t, found, runs⟩ := defined.run_eq
  rw [← found] at h malformed ⊢
  rcases read : statement t line with problem | s
  · refine ⟨problem, fun other => ?_, ?_⟩
    · rw [← statement_eq_error, read, Except.error.injEq, eq_comm]
    have earlier : ∀ l ∈ before, ∃ s, statement t l.2 = .ok s := fun l hl =>
      (h l hl).imp fun s => statement_eq_ok.2
    rw [runs, split, readLines_of_error earlier read]
    rfl
  · exact absurd (statement_eq_ok.1 read) (malformed s)

theorem Loads.run_eq (h : Loads text xs) (t : Aliases) : run text = Program.run ⟨t, xs⟩ := by
  obtain ⟨t', found, runs⟩ := h.definitions.run_eq
  have read := h.statements
  simp only [← found, ← statement_eq_ok] at read
  rw [runs, readLines_eq_ok read]
  rfl

theorem exists_statements {names : List Char → Option Nat} {ls : List CodeLine}
    (h : ∀ l ∈ ls, ∃ s, StatementText names l.2 s) :
    ∃ xs : List (Nat × Statement Nat),
      List.Forall₂ (fun l x => l.1 = x.1 ∧ StatementText names l.2 x.2) ls xs := by
  induction ls with
  | nil => exact ⟨[], .nil⟩
  | cons l ls ih =>
    obtain ⟨⟨s, read⟩, rest⟩ := List.forall_mem_cons.1 h
    obtain ⟨xs, pairs⟩ := ih rest
    exact ⟨(l.1, s) :: xs, .cons ⟨rfl, read⟩ pairs⟩

/-- A program loads, or one of its lines is the first that is malformed. -/
theorem loads_or_malformed (text : String) :
    (∃ xs, Loads text xs) ∨
      (∃ before l after, codeLines text.toList = before ++ l :: after ∧
        (∀ k ∈ before, ¬ MalformedDefinition k.2) ∧ MalformedDefinition l.2) ∨
      WellDefined text ∧ ∃ before l after, statementsIn text = before ++ l :: after ∧
        (∀ k ∈ before, ∃ s, StatementText (namesIn text) k.2 s) ∧
        ∀ s, ¬ StatementText (namesIn text) l.2 s := by
  rcases forall_or_exists_first (fun l => ¬ MalformedDefinition l.2) (codeLines text.toList) with
    defined | ⟨before, l, after, split, first, malformed⟩
  · rcases forall_or_exists_first (fun l => ∃ s, StatementText (namesIn text) l.2 s)
      (statementsIn text) with all | ⟨before, l, after, split, first, malformed⟩
    · obtain ⟨xs, pairs⟩ := exists_statements all
      exact .inl ⟨xs, defined, pairs⟩
    · exact .inr (.inr ⟨defined, before, l, after, split, first, not_exists.1 malformed⟩)
  · exact .inr (.inl ⟨before, l, after, split, first, not_not.1 malformed⟩)

theorem Program.isDynamic_of_run {p : Program} {f : Failure} (h : p.run = .error f) :
    f.problem.isDynamic := by
  rw [Program.run] at h
  split at h
  · next failed =>
    cases h
    exact Machine.isDynamic_of_execute failed
  · contradiction

/-- What stands behind a `halt` is not executed. -/
theorem Program.run_halt (t : Aliases) (before after : List (Nat × Statement Nat)) (n : Nat) :
    Program.run ⟨t, before ++ (n, .halt) :: after⟩ = Program.run ⟨t, before⟩ := by
  simp only [Program.run, Machine.execute_append]
  rcases ({} : Machine).execute before with ⟨status, m⟩
  cases status <;> rfl

theorem Blames.not_isDynamic {names : List Char → Option Nat} {line : List Char} {problem : Problem}
    (h : Blames names line problem) : problem.isDynamic = false := by
  cases h <;> rfl

/-- Only a program that loads comes to run. -/
theorem exists_loads_iff (text : String) :
    (∃ xs, Loads text xs) ↔ ∀ f, run text = .error f → f.problem.isDynamic := by
  constructor
  · rintro ⟨xs, loads⟩ f failed
    rw [loads.run_eq {}] at failed
    exact Program.isDynamic_of_run failed
  · intro dynamic
    rcases loads_or_malformed text with loads | ⟨before, l, after, split, first, malformed⟩ |
      ⟨defined, before, l, after, split, first, malformed⟩
    · exact loads
    · exact absurd (dynamic _ (run_of_malformedDefinition split first malformed)) Bool.false_ne_true
    · obtain ⟨problem, blames, failed⟩ := run_of_malformedStatement defined split first malformed
      simpa [((blames problem).2 rfl).not_isDynamic] using dynamic _ failed

/-- Malformed definitions are reported before malformed statements, and these before
anything runs, the first of each kind with the problem that it has. Once every line is
read, what stands behind a `halt` has no influence. -/
theorem loading_precedes_running (text : String) :
    (∀ (before after : List CodeLine) (n : Nat) (line : List Char),
      codeLines text.toList = before ++ (n, line) :: after →
      (∀ l ∈ before, ¬ MalformedDefinition l.2) → MalformedDefinition line →
      run text = .error ⟨n, .directive (String.ofList line)⟩) ∧
    (∀ (name : List Char) (a : Nat), namesIn text name = some a ↔
      ∃ (before after : List (List Char)) (line : List Char),
        (codeLines text.toList).map Prod.snd = before ++ line :: after ∧ Defines line name a ∧
          ∀ k ∈ after, ∀ b, ¬ Defines k name b) ∧
    (WellDefined text → ∀ (before after : List CodeLine) (n : Nat) (line : List Char),
      statementsIn text = before ++ (n, line) :: after →
      (∀ l ∈ before, ∃ s, StatementText (namesIn text) l.2 s) →
      (∀ s, ¬ StatementText (namesIn text) line s) →
      ∃ problem, (∀ other, Blames (namesIn text) line other ↔ other = problem) ∧
        run text = .error ⟨n, problem⟩) ∧
    ((∃ xs, Loads text xs) ↔
      (∃ out, run text = .ok out) ∨ (∃ n a, run text = .error ⟨n, .address a⟩) ∨
        ∃ n fault, run text = .error ⟨n, .arithmetic fault⟩) ∧
    ∀ xs, Loads text xs →
      (∀ t, run text = Program.run ⟨t, xs⟩) ∧
      ∀ (before after : List (Nat × Statement Nat)) (n : Nat), xs = before ++ (n, .halt) :: after →
        ∀ (other : String) (after' : List (Nat × Statement Nat)) (m : Nat),
          Loads other (before ++ (m, .halt) :: after') → run other = run text := by
  refine ⟨?_, fun name a => cellOf_eq_some, ?_, ?_, fun xs loads => ⟨loads.run_eq, ?_⟩⟩
  · intro before after n line split first malformed
    exact run_of_malformedDefinition split first malformed
  · intro defined before after n line split first malformed
    exact run_of_malformedStatement defined split first malformed
  · rw [exists_loads_iff]
    rcases run text with ⟨n, problem⟩ | out
    · cases problem <;> simp [Problem.isDynamic]
    · simp
  · rintro before after n rfl other after' m loads'
    rw [loads.run_eq {}, loads'.run_eq {}, Program.run_halt, Program.run_halt]

/-- A malformed definition is reported although a malformed statement stands before
it, and that one is reported, for its literal destination, although a `halt` stands
before it. -/
theorem lines_behind_halt_are_read :
    run "halt\n3 := 4\n equ x" = .error ⟨3, .directive "equ x"⟩ ∧
    WellDefined "halt\n3 := 4" ∧
    (∀ s, ¬ StatementText (namesIn "halt\n3 := 4") "3 := 4".toList s) ∧
    Blames (namesIn "halt\n3 := 4") "3 := 4".toList (.operand "3") ∧
    run "halt\n3 := 4" = .error ⟨2, .operand "3"⟩ := by
  obtain ⟨definitions, -⟩ := loading_precedes_running "halt\n3 := 4\n equ x"
  obtain ⟨-, -, statements, -⟩ := loading_precedes_running "halt\n3 := 4"
  have code : codeLines "halt\n3 := 4".toList = [(1, "halt".toList), (2, "3 := 4".toList)] := by
    decide +kernel
  have defined : WellDefined "halt\n3 := 4" := by
    rw [WellDefined, code]
    decide +kernel
  have names : namesIn "halt\n3 := 4" = ({} : Aliases).find? := by
    rw [namesIn, code]
    rfl
  have read : statement {} "3 := 4".toList = .error (.operand "3") := by decide +kernel
  have malformed : ∀ s, ¬ StatementText (namesIn "halt\n3 := 4") "3 := 4".toList s := by
    intro s written
    rw [names, ← statement_eq_ok, read] at written
    cases written
  have blames : Blames (namesIn "halt\n3 := 4") "3 := 4".toList (.operand "3") := by
    rw [names, ← statement_eq_error]
    exact read
  refine ⟨?_, defined, malformed, blames, ?_⟩
  · exact definitions [(1, "halt".toList), (2, "3 := 4".toList)] [] 3 "equ x".toList
      (by decide +kernel) (by decide +kernel) (by decide +kernel)
  · obtain ⟨problem, only, failed⟩ :=
      statements defined [(1, "halt".toList)] [] 2 "3 := 4".toList (by
        rw [statementsIn, code]
        decide +kernel) (by simpa using ⟨.halt, StatementText.halt⟩) malformed
    rw [failed, (only _).1 blames]

end Calculator.Ewe
