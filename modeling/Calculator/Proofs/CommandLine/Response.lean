import Calculator.Proofs.CommandLine.Conversation
import Calculator.Proofs.Parser.Origin

/-!
# What a run shows for a line

At the lowest verbosity, a run shows three things for a line: the prompt, what is
listed of the line, and a response. The response is made of results and of a complaint, and it
decides the file and the exit code of a run that answers one line only.
-/

namespace Calculator.CommandLine

open Event

/-! ## Events that are not shown -/

/-- Nothing of it is shown at the lowest verbosity. -/
def Hidden (events : List Event) : Prop := events.filter (isShown 0) = []

theorem Hidden.filter_append {xs : List Event} (h : Hidden xs) (ys : List Event) :
    (xs ++ ys).filter (isShown 0) = ys.filter (isShown 0) := by
  rw [List.filter_append, h, List.nil_append]

theorem Hidden.append {xs ys : List Event} (hx : Hidden xs) (hy : Hidden ys) :
    Hidden (xs ++ ys) :=
  (hx.filter_append ys).trans hy

theorem hidden_map {α : Type} {f : α → Event} (h : ∀ a, isShown 0 (f a) = false) (xs : List α) :
    Hidden (xs.map f) := by
  rw [Hidden, List.filter_eq_nil_iff]
  intro e he
  obtain ⟨a, -, rfl⟩ := List.mem_map.1 he
  simp [h a]

/-- Reading a line logs its tokens and the height of its tree, and that is all. -/
theorem parseLine_eq (line : String) :
    ∃ hidden, Hidden hidden ∧ parseLine line = (hidden, parse line) := by
  have scanned (ts : List Token) : Hidden (logScanned ts) := hidden_map (fun _ => rfl) ts
  rcases parsed : (Parser.ofString line).parse with ⟨x | tree, p⟩
  · refine ⟨_, scanned p.lexer.scanned.reverse, ?_⟩
    simp only [parseLine, parse, parsed]
    rfl
  · have height : Hidden [.log .debug s!"parsed expression height={tree.height}"] := rfl
    refine ⟨_, (scanned p.lexer.scanned.reverse).append height, ?_⟩
    simp only [parseLine, parse, parsed]
    rfl

/-- Evaluating an expression logs what is stored and the value. -/
theorem evaluateExpr_eq (e : Expr) :
    ∃ hidden, Hidden hidden ∧ evaluateExpr e = (hidden, e.calculate.mapError .arithmetic) := by
  have stored (vs : List Int64) : Hidden (vs.map fun v =>
      .log .trace ("storing to memory value=" ++ wordText v)) := hidden_map (fun _ => rfl) vs
  rcases evaluated : e.evaluate {} with ⟨f | v, m⟩
  · refine ⟨_, stored m.history.reverse, ?_⟩
    simp only [evaluateExpr, Expr.calculate, evaluated]
    rfl
  · have value : Hidden [.log .debug ("evaluated expression value=" ++ wordText v)] := rfl
    refine ⟨_, (stored m.history.reverse).append value, ?_⟩
    simp only [evaluateExpr, Expr.calculate, evaluated]
    rfl

namespace Options

/-! ## What is listed -/

/-- Why the tokens of a line cannot be listed, if they were asked for. -/
def scanFailure? (o : Options) (line : String) : Option Error :=
  if o.tokens then
    match tokenize line with
    | .ok _ => none
    | .error x => some x
  else none

/-- The tokens of a line, if they are asked for and there are some. -/
def listedTokens (o : Options) (line : String) : List String :=
  if o.tokens then ((tokenize line).toOption.getD []).map tokenLine else []

/-- The tree of a line, if it is asked for and the line is an expression. -/
def listedTree (o : Options) (line : String) : List String :=
  if o.ast then ((parse line).toOption.map Expr.toString).toList else []

/-- What is listed for a line. -/
def listed (o : Options) (line : String) : List String := o.listedTokens line ++ o.listedTree line

/-- The result of reading a line, unless its tokens cannot be listed. -/
def checked {α : Type} (o : Options) (line : String) (r : Except Error α) : Except Error α :=
  match o.scanFailure? line with
  | none => r
  | some x => .error x

variable {o : Options} {line : String}

theorem scanFailure?_eq_some {x : Error} :
    o.scanFailure? line = some x ↔ o.tokens = true ∧ tokenize line = .error x := by
  rw [scanFailure?]
  rcases tokenize line with y | ts <;> simp

theorem scanFailure?_eq_none :
    o.scanFailure? line = none ↔ o.tokens = false ∨ (tokenize line).isOk := by
  rw [scanFailure?]
  rcases tokenize line with y | ts <;> simp [Except.isOk, Except.toBool]

/-- A line without tokens is no expression. -/
theorem parse_of_scanFailure {x : Error} (h : o.scanFailure? line = some x) :
    ∃ y, parse line = .error y := by
  obtain ⟨-, failed⟩ := scanFailure?_eq_some.1 h
  obtain ⟨y, error, -⟩ := Parser.parse_of_drain_error (tokenize_eq_error.1 failed)
    (Parser.ofString line).limit
  have error : (Parser.ofString line).parse.1 = .error y := error
  exact ⟨y, by rw [parse, error]; rfl⟩

theorem filter_outLine (texts : List String) :
    (texts.map outLine).filter (isShown 0) = texts.map outLine := by
  rw [List.filter_eq_self, List.forall_mem_map]
  exact fun _ _ => rfl

theorem listTokens_eq (o : Options) (line : String) :
    ∃ events, events.filter (isShown 0) = (o.listedTokens line).map outLine ∧
      (if o.tokens then listTokens line else ([], none)) = (events, o.scanFailure? line) := by
  have scanned (ts : List Token) : Hidden (logScanned ts) := hidden_map (fun _ => rfl) ts
  rw [listedTokens, scanFailure?]
  split
  · rcases drained : (Lexer.ofString line).drain with ⟨ts, _ | x⟩
    · refine ⟨logScanned ts ++ (ts.map tokenLine).map outLine, ?_, ?_⟩
      · rw [(scanned ts).filter_append, filter_outLine, tokenize, drained]
        rfl
      · simp [listTokens, tokenize, drained]
    · refine ⟨logScanned ts, ?_, ?_⟩
      · rw [scanned ts, tokenize, drained]
        rfl
      · simp [listTokens, tokenize, drained]
  · exact ⟨[], rfl, rfl⟩

/-- Reading a line shows what is listed for it and gives its expression. -/
theorem readExpr_eq (o : Options) (line : String) :
    ∃ events, events.filter (isShown 0) = (o.listed line).map outLine ∧
      o.readExpr line = (events, o.checked line (parse line)) := by
  obtain ⟨listing, shown, scanned⟩ := listTokens_eq o line
  obtain ⟨parsing, unseen, parsed⟩ := parseLine_eq line
  rw [listed, List.map_append, readExpr, scanned, parsed, checked]
  rcases failed : o.scanFailure? line with _ | x
  · rcases value : parse line with y | e
    · refine ⟨listing ++ parsing, ?_, rfl⟩
      rw [List.filter_append, shown, unseen, listedTree, value]
      simp [Except.toOption]
    · have tree : (if o.ast then [outLine e.toString] else []).filter (isShown 0) =
          (o.listedTree line).map outLine := by
        rw [listedTree, value]
        split <;> rfl
      refine ⟨listing ++ parsing ++ if o.ast then [outLine e.toString] else [], ?_, rfl⟩
      rw [List.filter_append, List.filter_append, shown, unseen, tree, List.append_nil]
  · -- nothing is parsed here, and there would be no tree to list
    obtain ⟨y, rejected⟩ := parse_of_scanFailure failed
    refine ⟨listing, ?_, rfl⟩
    simp [shown, listedTree, rejected, Except.toOption]

theorem checked_bind {α β : Type} (o : Options) (line : String) (r : Except Error α)
    (f : α → Except Error β) : o.checked line (r >>= f) = o.checked line r >>= f := by
  rw [checked, checked]
  cases o.scanFailure? line <;> rfl

theorem calculateLine_eq (o : Options) (line : String) :
    ∃ events, events.filter (isShown 0) = (o.listed line).map outLine ∧
      o.calculateLine line = (events, o.checked line (calculate line)) := by
  obtain ⟨reading, shown, read⟩ := readExpr_eq o line
  rw [calculateLine, read, calculate, checked_bind]
  rcases o.checked line (parse line) with y | e
  · exact ⟨reading, shown, rfl⟩
  · obtain ⟨evaluating, unseen, evaluated⟩ := evaluateExpr_eq e
    refine ⟨reading ++ evaluating, ?_, ?_⟩
    · rw [List.filter_append, shown, unseen, List.append_nil]
    · simp only [evaluated]
      rfl

theorem answerCompile_eq (o : Options) (line : String) :
    ∃ events, events.filter (isShown 0) = (o.listed line).map outLine ∧
      o.answerCompile line =
        (events, (o.checked line (compileProgram line)).mapError (·.report line)) := by
  obtain ⟨events, shown, read⟩ := readExpr_eq o line
  refine ⟨events, shown, ?_⟩
  rw [answerCompile, read, compileProgram, checked_bind]
  rcases o.checked line (parse line) with y | e <;> rfl

end Options

/-! ## Responses -/

section Line

variable {e : String} {x : Error}

theorem calculate_of_rejected (h : parse e = .error x) : calculate e = .error x := by
  rw [calculate, h]
  rfl

theorem compileProgram_of_rejected (h : parse e = .error x) : compileProgram e = .error x := by
  rw [compileProgram, h]
  rfl

end Line

/-- What is answered to a line once everything is listed. -/
structure Response where
  results : List String := []
  complaint : Option String := none
  /-- The path and the text of the file that was written. -/
  file : Option (String × String) := none
  deriving DecidableEq, Repr

namespace Response

def events (r : Response) : List Event := r.results.map outLine ++ r.complaint.toList.map errLine

/-- The exit code of a run that ends with the response. -/
def exit (r : Response) : Nat := if r.complaint.isSome then 1 else 0

/-- The line was rejected. -/
def rejected (line : String) (x : Error) : Response := { complaint := some (x.report line) }

/-- The value of a line, behind some words. -/
def value (words line : String) : Except Error Int64 → Response
  | .ok v => { results := [words ++ wordText v] }
  | .error x => rejected line x

end Response

namespace Options

/-- The response if the program of a line was written, or not. -/
def writing (o : Options) (text : String) : Except String Unit → Response
  | .error reason => { complaint := some ("failed to write " ++ o.path ++ ": " ++ reason) }
  | .ok () =>
    let written : Response := { results := ["wrote " ++ o.path], file := some (o.path, text) }
    if o.run then
      match Ewe.run text with
      | .ok vs => { written with results := written.results ++ vs.map fun v => "= " ++ wordText v }
      | .error f => { written with complaint := some ("failed to run program: " ++ f.message) }
    else written

/-- The file is there once it was written, whatever running it comes to. -/
theorem file_writing (o : Options) (text : String) (attempt : Except String Unit) :
    (o.writing text attempt).file = if attempt.isOk then some (o.path, text) else none := by
  rcases attempt with reason | ⟨⟩
  · rfl
  · rw [writing]
    split
    · cases Ewe.run text <;> rfl
    · rfl

/-- The response to a line, given its value and its program. -/
def responseTo (o : Options) (write : String → Except String Unit) (line : String)
    (value : Except Error Int64) (program : Except Error String) : Response :=
  if o.interactive then
    if line.isEmpty then {} else .value "= " line value
  else if o.compile then
    match program with
    | .ok text => o.writing text (write o.path)
    | .error x => .rejected line x
  else .value "The result is " line value

section Modes

variable {o : Options} (write : String → Except String Unit) (line : String)
  (value : Except Error Int64) (program : Except Error String)

theorem responseTo_of_interactive (talk : o.interactive = true) :
    o.responseTo write line value program = if line.isEmpty then {} else .value "= " line value :=
  if_pos talk

theorem responseTo_of_compile (alone : o.interactive = false) (compile : o.compile = true) :
    o.responseTo write line value program =
      match program with
      | .ok text => o.writing text (write o.path)
      | .error x => .rejected line x := by
  simp [responseTo, alone, compile]

theorem responseTo_of_single (alone : o.interactive = false) (direct : o.compile = false) :
    o.responseTo write line value program = .value "The result is " line value := by
  simp [responseTo, alone, direct]

end Modes

/-- The response to a line if nothing is listed. -/
def response (o : Options) (write : String → Except String Unit) (line : String) : Response :=
  o.responseTo write line (calculate line) (compileProgram line)

/-- The response to a line if its tokens may have to be listed before. -/
def diagnosis (o : Options) (write : String → Except String Unit) (line : String) : Response :=
  match o.scanFailure? line with
  | none => o.response write line
  | some x => { o.response write line with complaint := some (x.report line) }

variable {o : Options} {line : String}

theorem diagnosis_of_scanned (h : o.tokens = false ∨ (tokenize line).isOk)
    (write : String → Except String Unit) : o.diagnosis write line = o.response write line := by
  rw [diagnosis, scanFailure?_eq_none.2 h]

theorem ne_empty_of_scanFailure {x : Error} (h : o.scanFailure? line = some x) :
    line.isEmpty = false := by
  obtain ⟨-, failed⟩ := scanFailure?_eq_some.1 h
  have filled : line ≠ "" := by
    rintro rfl
    have scanned : (tokenize "").isOk = true := by decide +kernel
    simp [failed, Except.isOk, Except.toBool] at scanned
  simpa using filled

/-- A line without tokens has no results. It is rejected, whatever is listed. -/
theorem response_of_scanFailure {x : Error} (h : o.scanFailure? line = some x)
    (write : String → Except String Unit) : ∃ y, o.response write line = .rejected line y := by
  obtain ⟨y, rejected⟩ := parse_of_scanFailure h
  refine ⟨y, ?_⟩
  rw [response, calculate_of_rejected rejected, compileProgram_of_rejected rejected, responseTo,
    ne_empty_of_scanFailure h]
  simp [Response.value]

theorem responseTo_checked (o : Options) (write : String → Except String Unit) (line : String) :
    o.responseTo write line (o.checked line (calculate line))
      (o.checked line (compileProgram line)) = o.diagnosis write line := by
  rw [diagnosis, checked, checked]
  rcases failed : o.scanFailure? line with _ | x
  · rfl
  · obtain ⟨y, rejected⟩ := response_of_scanFailure failed write
    rw [rejected, responseTo, ne_empty_of_scanFailure failed]
    simp [Response.value, Response.rejected]

theorem diagnosis_of_scanFailure {x : Error} (h : o.scanFailure? line = some x)
    (write : String → Except String Unit) : o.diagnosis write line = .rejected line x := by
  obtain ⟨y, rejected⟩ := response_of_scanFailure h write
  rw [diagnosis, h, rejected]
  rfl

theorem exit_diagnosis (o : Options) (write : String → Except String Unit) (line : String) :
    (o.diagnosis write line).exit = (o.response write line).exit := by
  rw [diagnosis]
  rcases failed : o.scanFailure? line with _ | x
  · rfl
  · obtain ⟨y, rejected⟩ := response_of_scanFailure failed write
    rw [rejected]
    rfl

theorem file_diagnosis (o : Options) (write : String → Except String Unit) (line : String) :
    (o.diagnosis write line).file = (o.response write line).file := by
  rw [diagnosis]
  cases o.scanFailure? line <;> rfl

/-! ## Answers as they are shown -/

theorem answerTurn_shown (o : Options) (line : String) :
    (o.answerTurn line).filter (isShown 0) =
      if line.isEmpty then []
      else (o.listed line).map outLine ++
        (Response.value "= " line (o.checked line (calculate line))).events := by
  obtain ⟨events, shown, calculated⟩ := calculateLine_eq o line
  rw [answerTurn, calculated]
  split
  · rfl
  · rcases o.checked line (calculate line) with x | v <;>
      simp only [List.filter_append, shown] <;> rfl

theorem answerSingle_shown (o : Options) (line : String) :
    ((o.answerSingle line).1.filter (isShown 0), (o.answerSingle line).2) =
      let r := Response.value "The result is " line (o.checked line (calculate line))
      ((o.listed line).map outLine ++ r.events, r.exit) := by
  obtain ⟨events, shown, calculated⟩ := calculateLine_eq o line
  rw [answerSingle, calculated]
  rcases o.checked line (calculate line) with x | v <;>
    simp only [List.filter_append, shown] <;> rfl

/-- A program that was just written shows its output, or why it failed. -/
theorem runProgram_shown (text : String) :
    ((runProgram text).1.filter (isShown 0), (runProgram text).2) =
      match Ewe.run text with
      | .ok vs => (vs.map fun v => outLine ("= " ++ wordText v), 0)
      | .error f => ([errLine ("failed to run program: " ++ f.message)], 1) := by
  rcases loaded : Ewe.load text with f | p
  · simp only [runProgram, Ewe.run, loaded]
    rfl
  · rcases output : p.run with f | vs
    · simp only [runProgram, Ewe.run, loaded, Except.bind, output]
      rfl
    · have shown : (vs.map fun v => outLine ("= " ++ wordText v)).filter (isShown 0) =
          vs.map fun v => outLine ("= " ++ wordText v) := by
        rw [List.filter_eq_self]
        intro e he
        obtain ⟨v, -, rfl⟩ := List.mem_map.1 he
        rfl
      simp only [runProgram, Ewe.run, loaded, Except.bind, output, List.filter_cons, shown]
      rfl

theorem answerWritten_shown (o : Options) (text : String) (attempt : Except String Unit) :
    ((o.answerWritten text attempt).1.filter (isShown 0), (o.answerWritten text attempt).2) =
      ((o.writing text attempt).events, (o.writing text attempt).exit) := by
  rcases attempt with reason | ⟨⟩
  · rfl
  · have shown := runProgram_shown text
    rw [Prod.mk.injEq] at shown
    rw [answerWritten, writing]
    split
    · have written : [.log .info ("wrote EWE program path=" ++ o.path),
          outLine ("wrote " ++ o.path)].filter (isShown 0) = [outLine ("wrote " ++ o.path)] := rfl
      simp only [List.filter_append, written, shown.1, shown.2]
      rcases Ewe.run text with f | vs
      · rfl
      · simp [Response.events, Response.exit]
    · rfl

end Options

/-! ## The lines of a run -/

/-- The line that is read where one expression is asked for. It is empty if there is
no line. -/
def firstLine (input : String) : String := (linesOf input).headD ""

namespace Options

/-- Only results are asked for: no listings and no log. -/
structure Plain (o : Options) : Prop where
  tokens : o.tokens = false
  ast : o.ast = false
  verbosity : o.verbosity = 0

/-- The lines that are answered: every line in a conversation, and else the first. -/
def asked (o : Options) (input : String) : List String :=
  (if o.interactive then linesOf input else [firstLine input]).map trimmed

/-- What is shown when the input ends. -/
def ending (o : Options) : List Event := if o.interactive then farewell else []

/-- What is listed between the prompt and the results of a line. Nothing is listed for
the blank lines of a conversation. -/
def inspection (o : Options) (line : String) : List String :=
  if o.interactive && line.isEmpty then [] else o.listed line

/-- All that is shown for a line. -/
def shown (o : Options) (write : String → Except String Unit) (line : String) : List Event :=
  o.prompt :: (o.inspection line).map outLine ++ (o.diagnosis write line).events

theorem exists_prompt (o : Options) : ∃ words, o.prompt = .out words := by
  rw [prompt]
  split_ifs <;> exact ⟨_, rfl⟩

theorem filter_prompt (o : Options) (events : List Event) :
    (o.prompt :: events).filter (isShown 0) = o.prompt :: events.filter (isShown 0) := by
  obtain ⟨words, asks⟩ := o.exists_prompt
  rw [asks]
  rfl

variable {o : Options} {line : String}

theorem turn_eq_shown (quiet : o.verbosity = 0) (talk : o.interactive = true)
    (write : String → Except String Unit) (line : String) :
    o.turn line = o.shown write (trimmed line) := by
  rw [turn, quiet, filter_prompt, answerTurn_shown, shown, ← responseTo_checked, inspection,
    responseTo_of_interactive _ _ _ _ talk, talk]
  cases (trimmed line).isEmpty <;> simp [Response.events]

/-- The run that answers one line. -/
def answering (o : Options) (write : String → Except String Unit) (line : String) : Outcome :=
  { events := o.shown write line
    exit := (o.diagnosis write line).exit
    file := (o.diagnosis write line).file }

/-- The events and the finish of a run that answers one line, as they are shown. -/
def conclusion (o : Options) (write : String → Except String Unit) (line : String) : Outcome :=
  let outcome := o.finished write (o.prompt :: (o.answerOne line).1) (o.answerOne line).2
  { outcome with events := outcome.events.filter (isShown 0) }

theorem conclusion_of_single (alone : o.interactive = false) (direct : o.compile = false)
    (write : String → Except String Unit) (line : String) :
    o.conclusion write line = o.answering write (trimmed line) := by
  have answer := o.answerSingle_shown (trimmed line)
  rw [Prod.mk.injEq] at answer
  simp only [conclusion, answerOne, direct, Bool.false_eq_true, if_false, finished, filter_prompt,
    answer, answering, shown, ← responseTo_checked, inspection,
    responseTo_of_single _ _ _ _ alone direct, alone]
  cases o.checked (trimmed line) (calculate (trimmed line)) <;> rfl

theorem conclusion_of_compile (alone : o.interactive = false) (compile : o.compile = true)
    (write : String → Except String Unit) (line : String) :
    o.conclusion write line = o.answering write (trimmed line) := by
  obtain ⟨events, shown, answered⟩ := answerCompile_eq o (trimmed line)
  simp only [conclusion, answerOne, compile, if_true, answered, answering, Options.shown,
    ← responseTo_checked, inspection, responseTo_of_compile _ _ _ _ alone compile, alone]
  rcases o.checked (trimmed line) (compileProgram (trimmed line)) with x | text
  · simp only [Except.mapError, finished, filter_prompt, List.filter_append, shown]
    rfl
  · have written := o.answerWritten_shown text (write o.path)
    rw [Prod.mk.injEq] at written
    simp only [Except.mapError, finished, List.cons_append, filter_prompt, List.filter_append,
      shown, written, file_writing]
    rfl

/-- Outside of a conversation, the first line is answered and the rest is not read. -/
theorem runAll_of_alone (alone : o.interactive = false) (write : String → Except String Unit)
    (lines : List String) :
    o.runAll write (lines.map some) =
      o.finished write (o.prompt :: (o.answerOne (lines.headD "")).1)
        (o.answerOne (lines.headD "")).2 := by
  cases lines <;> simp [runAll, atEnd, atLine, alone]

theorem inspection_of_scanFailure {x : Error} (h : o.scanFailure? line = some x) :
    o.inspection line = [] := by
  obtain ⟨y, rejected⟩ := parse_of_scanFailure h
  obtain ⟨-, failed⟩ := scanFailure?_eq_some.1 h
  simp [inspection, listed, listedTokens, listedTree, failed, rejected, Except.toOption]

theorem Plain.shown_eq (plain : o.Plain) (write : String → Except String Unit) (line : String) :
    o.shown write line = o.prompt :: (o.response write line).events := by
  rw [shown, diagnosis_of_scanned (.inl plain.tokens)]
  simp [inspection, listed, listedTokens, listedTree, plain.tokens, plain.ast]

theorem Plain.answering_eq (plain : o.Plain) (write : String → Except String Unit)
    (line : String) :
    o.answering write line =
      { events := o.prompt :: (o.response write line).events
        exit := (o.response write line).exit
        file := (o.response write line).file } := by
  rw [answering, plain.shown_eq, diagnosis_of_scanned (.inl plain.tokens)]

/-! ## Whole runs as they are shown -/

section Run

variable (quiet : o.verbosity = 0) (write : String → Except String Unit) (text : String)

include quiet

theorem runText_of_alone (alone : o.interactive = false) :
    o.runText write text = o.answering write (trimmed (firstLine text)) := by
  have concluded : o.runText write text = o.conclusion write (firstLine text) := by
    rewrite [runText, runShown, runAll_of_alone alone, quiet]
    rfl
  rw [concluded]
  rcases compile : o.compile with _ | _
  · exact conclusion_of_single alone compile write _
  · exact conclusion_of_compile alone compile write _

/-- A run shows every line that is asked for with its listing and its response. -/
theorem events_runText :
    (o.runText write text).events = (o.asked text).flatMap (o.shown write) ++ o.ending := by
  rcases talk : o.interactive with _ | _
  · rw [runText_of_alone quiet write text talk]
    simp [answering, asked, ending, talk]
  · rw [runText_of_interactive talk, asked, ending, if_pos talk, if_pos talk, List.flatMap_map,
      funext (turn_eq_shown quiet talk write)]

theorem exit_runText :
    (o.runText write text).exit =
      if o.interactive then 0 else (o.response write (trimmed (firstLine text))).exit := by
  rcases talk : o.interactive with _ | _
  · rw [runText_of_alone quiet write text talk]
    exact exit_diagnosis ..
  · rw [runText_of_interactive talk, if_pos rfl]

theorem file_runText :
    (o.runText write text).file =
      if o.interactive then none else (o.response write (trimmed (firstLine text))).file := by
  rcases talk : o.interactive with _ | _
  · rw [runText_of_alone quiet write text talk]
    exact file_diagnosis ..
  · rw [runText_of_interactive talk, if_pos rfl]

end Run

end Options

end Calculator.CommandLine
