import Calculator.Proofs.Agreement
import Calculator.Proofs.CommandLine.Response

/-!
# The modes of a run agree

A line can be calculated once, in a conversation, or by a compiled program that is
run at once. Without listings and at the lowest verbosity, all three show the same
value, the same report or the same fault. A program is written whenever the line
is an expression, before anything of it runs, and never otherwise.
-/

namespace Calculator.CommandLine

open Event

/-! ## What a line comes to -/

section Line

variable {e : String} {f : Fault} {v : Int64}

theorem compiled_of_value (h : calculate e = .ok v) :
    ∃ text, compileProgram e = .ok text ∧ Ewe.run text = .ok [v] := by
  rcases calculate_cases e with ⟨x, -, other, -⟩ | ⟨_, f, _, other, -⟩ | ⟨text, w, same, compiled⟩
  · simp [h] at other
  · simp [h] at other
  · obtain rfl : v = w := by simpa [h] using same
    exact ⟨text, compiled⟩

theorem compiled_of_fault (h : calculate e = .error (.arithmetic f)) :
    ∃ text line, compileProgram e = .ok text ∧ Ewe.run text = .error ⟨line, .arithmetic f⟩ := by
  rcases calculate_cases e with ⟨x, rejection, same, -⟩ | ⟨text, g, line, same, compiled⟩ |
    ⟨_, v, other, -⟩
  · obtain rfl : .arithmetic f = x := by simpa [h] using same
    exact rejection.elim
  · obtain rfl : f = g := by simpa [h] using same
    exact ⟨text, line, compiled⟩
  · simp [h] at other

/-- An empty line is rejected before there is anything to compile. -/
theorem ne_empty_of_compiled {text : String} (h : compileProgram e = .ok text) : e ≠ "" := by
  rintro rfl
  have rejected : (compileProgram "").isOk = false := by decide +kernel
  simp [h, Except.isOk, Except.toBool] at rejected

end Line

/-! ## Whole runs -/

/-- A conversation never compiles. -/
theorem Options.not_interactive_of_compile {arguments : List String} {o : Options}
    (accepted : Options.read arguments = .ok o) (compile : o.compile) : o.interactive = false := by
  rw [Options.read] at accepted
  rcases taken : readFrom {} false arguments with stop | o'
  · rw [taken] at accepted
    cases accepted
  · rw [taken] at accepted
    have checked : o'.check = .ok o := accepted
    rw [check] at checked
    grind

theorem failure_report (k : Nat) (f : Fault) :
    "failed to run program: " ++ (⟨k, .arithmetic f⟩ : Ewe.Failure).message =
      s!"failed to run program: line {k}: " ++ f.message := by
  have spelled : (⟨k, .arithmetic f⟩ : Ewe.Failure).message = s!"line {k}: " ++ f.message := rfl
  have opening : "failed to run program: line " = "failed to run program: " ++ "line " := by decide
  rw [spelled, opening]
  simp only [toString, String.append_assoc]

namespace Options

/-- A conversation in which one line, between others, is answered by one event. -/
def conversation (o : Options) (before : List String) (answer : Event)
    (after : List String) : Outcome :=
  { events := before.flatMap o.turn ++ [.out "> ", answer] ++ after.flatMap o.turn ++
      [.out "> ", .out "\n"] }

section Run

variable {o : Options} (plain : o.Plain) (write : String → Except String Unit) {input line : String}

include plain

/-! ## One mode at a time -/

theorem runText_of_single (alone : o.interactive = false) (direct : o.compile = false)
    (first : firstLine input = line) :
    o.runText write input =
      match calculate (trimmed line) with
      | .ok v => { events := [.out "Enter expression: ", outLine ("The result is " ++ wordText v)] }
      | .error x =>
        { events := [.out "Enter expression: ", errLine (x.report (trimmed line))]
          exit := 1 } := by
  have asked : o.prompt = .out "Enter expression: " := by simp [prompt, alone, direct]
  rw [runText_of_alone plain.verbosity write input alone, plain.answering_eq, asked, response,
    responseTo_of_single _ _ _ _ alone direct, first]
  cases calculate (trimmed line) <;> rfl

theorem runText_of_compile (alone : o.interactive = false) (compile : o.compile = true)
    (first : firstLine input = line) :
    o.runText write input =
      match compileProgram (trimmed line) with
      | .error x =>
        { events := [.out "Expression to compile: ", errLine (x.report (trimmed line))]
          exit := 1 }
      | .ok text =>
        { events := .out "Expression to compile: " :: (o.writing text (write o.path)).events
          exit := (o.writing text (write o.path)).exit
          file := (o.writing text (write o.path)).file } := by
  have asked : o.prompt = .out "Expression to compile: " := by simp [prompt, alone, compile]
  rw [runText_of_alone plain.verbosity write input alone, plain.answering_eq, asked, response,
    responseTo_of_compile _ _ _ _ alone compile, first]
  cases compileProgram (trimmed line) <;> rfl

theorem runText_of_conversation (talk : o.interactive = true) {before after : List String}
    (found : linesOf input = before ++ line :: after) (filled : trimmed line ≠ "") :
    o.runText write input =
      match calculate (trimmed line) with
      | .ok v => o.conversation before (outLine ("= " ++ wordText v)) after
      | .error x => o.conversation before (errLine (x.report (trimmed line))) after := by
  have turn : o.turn line = .out "> " :: (o.response write (trimmed line)).events := by
    rw [turn_eq_shown plain.verbosity talk write, plain.shown_eq, prompt_of_interactive talk]
  rw [runText_of_interactive talk, found, List.flatMap_append, List.flatMap_cons, turn, response,
    responseTo_of_interactive _ _ _ _ talk, if_neg (by simpa using filled)]
  cases calculate (trimmed line) <;>
    simp [conversation, farewell, Response.value, Response.rejected, Response.events]

/-! ## All modes -/

variable (apart : o.compile = true → o.interactive = false)

include apart

/-- The modes agree on the report of a line that is no expression. -/
theorem runText_of_rejected {x : Error} (rejected : parse (trimmed line) = .error x) :
    (o.interactive = false → o.compile = false → firstLine input = line →
      o.runText write input =
        { events := [.out "Enter expression: ", errLine (x.report (trimmed line))]
          exit := 1, file := none }) ∧
    (o.compile = true → firstLine input = line →
      o.runText write input =
        { events := [.out "Expression to compile: ", errLine (x.report (trimmed line))]
          exit := 1, file := none }) ∧
    (o.interactive = true → trimmed line ≠ "" →
      ∀ before after, linesOf input = before ++ line :: after →
        o.runText write input =
          o.conversation before (errLine (x.report (trimmed line))) after) := by
  refine ⟨?_, ?_, ?_⟩
  · intro alone direct first
    rw [runText_of_single plain write alone direct first, calculate_of_rejected rejected]
  · intro compile first
    rw [runText_of_compile plain write (apart compile) compile first,
      compileProgram_of_rejected rejected]
  · intro talk filled before after found
    rw [runText_of_conversation plain write talk found filled, calculate_of_rejected rejected]

/-- Nothing but the program of the line is written, and nowhere else. -/
theorem eq_of_file_runText (compile : o.compile = true) (first : firstLine input = line)
    {path text : String} (file : (o.runText write input).file = some (path, text)) :
    path = o.path ∧ compileProgram (trimmed line) = .ok text := by
  rw [runText_of_compile plain write (apart compile) compile first] at file
  rcases compiled : compileProgram (trimmed line) with x | written <;> rw [compiled] at file
  · cases file
  · simp only [file_writing, Option.ite_none_right_eq_some, Option.some.injEq,
      Prod.mk.injEq] at file
    obtain ⟨-, rfl, rfl⟩ := file
    exact ⟨rfl, rfl⟩

variable (writable : write o.path = .ok ())

include writable

/-- The modes agree on a value. -/
theorem runText_of_value {v : Int64} (value : calculate (trimmed line) = .ok v) :
    (o.interactive = false → o.compile = false → firstLine input = line →
      o.runText write input =
        { events := [.out "Enter expression: ", outLine ("The result is " ++ wordText v)]
          exit := 0, file := none }) ∧
    (o.interactive = true → ∀ before after, linesOf input = before ++ line :: after →
      o.runText write input = o.conversation before (outLine ("= " ++ wordText v)) after) ∧
    (o.compile = true → o.run = true → firstLine input = line →
      ∃ text, compileProgram (trimmed line) = .ok text ∧ o.runText write input =
        { events := [.out "Expression to compile: ", outLine ("wrote " ++ o.path),
            outLine ("= " ++ wordText v)]
          exit := 0, file := some (o.path, text) }) := by
  obtain ⟨text, compiled, output⟩ := compiled_of_value value
  refine ⟨?_, ?_, ?_⟩
  · intro alone direct first
    rw [runText_of_single plain write alone direct first, value]
  · intro talk before after found
    rw [runText_of_conversation plain write talk found (ne_empty_of_compiled compiled), value]
  · intro compile runs first
    refine ⟨text, compiled, ?_⟩
    rw [runText_of_compile plain write (apart compile) compile first, compiled]
    simp [writing, writable, runs, output, Response.events, Response.exit]

/-- The modes agree on a fault. The program is written in any case, and only running it
comes to the fault. -/
theorem runText_of_fault {f : Fault} (fault : calculate (trimmed line) = .error (.arithmetic f)) :
    (o.interactive = false → o.compile = false → firstLine input = line →
      o.runText write input =
        { events := [.out "Enter expression: ", errLine ("arithmetic error: " ++ f.message)]
          exit := 1, file := none }) ∧
    (o.interactive = true → ∀ before after, linesOf input = before ++ line :: after →
      o.runText write input =
        o.conversation before (errLine ("arithmetic error: " ++ f.message)) after) ∧
    (o.compile = true → firstLine input = line →
      ∃ text, compileProgram (trimmed line) = .ok text ∧
        (o.run = false → o.runText write input =
          { events := [.out "Expression to compile: ", outLine ("wrote " ++ o.path)]
            exit := 0, file := some (o.path, text) }) ∧
        (o.run = true → ∃ k : Nat, o.runText write input =
          { events := [.out "Expression to compile: ", outLine ("wrote " ++ o.path),
              errLine (s!"failed to run program: line {k}: " ++ f.message)]
            exit := 1, file := some (o.path, text) })) := by
  obtain ⟨text, k, compiled, output⟩ := compiled_of_fault fault
  refine ⟨?_, ?_, ?_⟩
  · intro alone direct first
    rewrite [runText_of_single plain write alone direct first, fault]
    rfl
  · intro talk before after found
    rewrite [runText_of_conversation plain write talk found (ne_empty_of_compiled compiled), fault]
    rfl
  · intro compile first
    have written := runText_of_compile plain write (apart compile) compile first
    rw [compiled] at written
    refine ⟨text, compiled, fun quiet => ?_, fun runs => ⟨k, ?_⟩⟩
    · simp [written, writing, writable, quiet, Response.events, Response.exit]
    · simp [written, writing, writable, runs, output, failure_report, Response.events,
        Response.exit]

end Run

end Options

/-- Whatever a line comes to, the three modes agree on it: on its value, on the
report of its rejection or on its fault. -/
theorem modes_agree_on_every_line (arguments : List String) (o : Options)
    (accepted : Options.read arguments = .ok o) (plain : o.Plain)
    (write : String → Except String Unit) (writable : write o.path = .ok ())
    (input line e : String) (he : trimmed line = e) :
    (∀ v, calculate e = .ok v →
      (o.interactive = false → o.compile = false → firstLine input = line →
        run arguments write (utf8 input) =
          { events := [.out "Enter expression: ", outLine ("The result is " ++ wordText v)]
            exit := 0, file := none }) ∧
      (o.interactive = true → ∀ before after, linesOf input = before ++ line :: after →
        run arguments write (utf8 input) =
          o.conversation before (outLine ("= " ++ wordText v)) after) ∧
      (o.compile = true → o.run = true → firstLine input = line →
        ∃ text, compileProgram e = .ok text ∧ run arguments write (utf8 input) =
          { events := [.out "Expression to compile: ", outLine ("wrote " ++ o.path),
              outLine ("= " ++ wordText v)]
            exit := 0, file := some (o.path, text) })) ∧
    (∀ x, parse e = .error x →
      (o.interactive = false → o.compile = false → firstLine input = line →
        run arguments write (utf8 input) =
          { events := [.out "Enter expression: ", errLine (x.report e)]
            exit := 1, file := none }) ∧
      (o.compile = true → firstLine input = line →
        run arguments write (utf8 input) =
          { events := [.out "Expression to compile: ", errLine (x.report e)]
            exit := 1, file := none }) ∧
      (o.interactive = true → e ≠ "" → ∀ before after, linesOf input = before ++ line :: after →
        run arguments write (utf8 input) = o.conversation before (errLine (x.report e)) after)) ∧
    (∀ f, calculate e = .error (.arithmetic f) →
      (o.interactive = false → o.compile = false → firstLine input = line →
        run arguments write (utf8 input) =
          { events := [.out "Enter expression: ", errLine ("arithmetic error: " ++ f.message)]
            exit := 1, file := none }) ∧
      (o.interactive = true → ∀ before after, linesOf input = before ++ line :: after →
        run arguments write (utf8 input) =
          o.conversation before (errLine ("arithmetic error: " ++ f.message)) after) ∧
      (o.compile = true → firstLine input = line →
        ∃ text, compileProgram e = .ok text ∧
          (o.run = false → run arguments write (utf8 input) =
            { events := [.out "Expression to compile: ", outLine ("wrote " ++ o.path)]
              exit := 0, file := some (o.path, text) }) ∧
          (o.run = true → ∃ k : Nat, run arguments write (utf8 input) =
            { events := [.out "Expression to compile: ", outLine ("wrote " ++ o.path),
                errLine (s!"failed to run program: line {k}: " ++ f.message)]
              exit := 1, file := some (o.path, text) }))) ∧
    (o.compile = true → firstLine input = line → ∀ path text,
      (run arguments write (utf8 input)).file = some (path, text) →
        path = o.path ∧ compileProgram e = .ok text) := by
  subst he
  have apart : o.compile = true → o.interactive = false :=
    Options.not_interactive_of_compile accepted
  rw [run_utf8 accepted]
  exact ⟨fun v => Options.runText_of_value plain write apart writable,
    fun x => Options.runText_of_rejected plain write apart,
    fun f => Options.runText_of_fault plain write apart writable,
    fun compile first path text => Options.eq_of_file_runText plain write apart compile first⟩

/-- One division by zero in each mode. -/
theorem division_by_zero_in_every_mode :
    run [] (fun _ => .ok ()) (utf8 " 1/0\n") =
      { events := [.out "Enter expression: ", errLine "arithmetic error: division by zero"]
        exit := 1, file := none } ∧
    run ["-i"] (fun _ => .ok ()) (utf8 "5 S\n 1/0\nR") =
      { interactive := true : Options }.conversation ["5 S\n"]
        (errLine "arithmetic error: division by zero") ["R"] ∧
    ∃ (text : String) (k : Nat), compileProgram "1/0" = .ok text ∧
      run ["-c", "--run"] (fun _ => .ok ()) (utf8 " 1/0\n") =
        { events := [.out "Expression to compile: ", outLine "wrote a.ewe",
            errLine (s!"failed to run program: line {k}: " ++ "division by zero")]
          exit := 1, file := some ("a.ewe", text) } := by
  have line : trimmed " 1/0\n" = "1/0" := by decide +kernel
  have fault : calculate "1/0" = .error (.arithmetic .divisionByZero) := by decide +kernel
  refine ⟨?_, ?_, ?_⟩
  · have modes := modes_agree_on_every_line [] {} rfl ⟨rfl, rfl, rfl⟩ (fun _ => .ok ()) rfl
      " 1/0\n" _ _ line
    exact (modes.2.2.1 _ fault).1 rfl rfl (by decide +kernel)
  · have modes := modes_agree_on_every_line ["-i"] { interactive := true } rfl
      ⟨rfl, rfl, rfl⟩ (fun _ => .ok ()) rfl "5 S\n 1/0\nR" _ _ line
    exact (modes.2.2.1 _ fault).2.1 rfl ["5 S\n"] ["R"] (by decide +kernel)
  · have modes := modes_agree_on_every_line ["-c", "--run"] { compile := true, run := true }
      rfl ⟨rfl, rfl, rfl⟩ (fun _ => .ok ()) rfl " 1/0\n" _ _ line
    obtain ⟨text, compiled, -, shown⟩ := (modes.2.2.1 _ fault).2.2 rfl (by decide +kernel)
    obtain ⟨k, shown⟩ := shown rfl
    exact ⟨text, k, compiled, shown⟩

end Calculator.CommandLine
