import Calculator.Proofs.CommandLine.Input

/-!
# Conversations answer line by line

In a conversation every line is answered on its own: with a new memory, a new
parser and nothing of the lines before it. So the conversation about two texts, one
after the other, is made of the conversations about each of them, and what is shown
for a line does not depend on where it stands.
-/

namespace Calculator.CommandLine

/-! ## What is seen of a run -/

namespace Event

def outText : Event → String
  | .out text => text
  | .err _ | .log _ _ => ""

def errText : Event → String
  | .err text => text
  | .out _ | .log _ _ => ""

def logEntry? : Event → Option (Level × String)
  | .log level text => some (level, text)
  | .out _ | .err _ => none

end Event

namespace Outcome

/-- All that a run writes to its output. -/
def stdout (r : Outcome) : String := String.join (r.events.map Event.outText)

/-- All that a run writes to its error output, the log aside. -/
def stderr (r : Outcome) : String := String.join (r.events.map Event.errText)

/-- The log of a run, without times. -/
def log (r : Outcome) : List (Level × String) := r.events.filterMap Event.logEntry?

end Outcome

/-! ## Turns -/

/-- What is shown for one line of a conversation: the prompt and the answer. -/
def Options.turn (o : Options) (line : String) : List Event :=
  (o.prompt :: o.answerTurn (trimmed line)).filter (Event.isShown o.verbosity)

/-- What is shown when the input of a conversation ends. -/
def farewell : List Event := [.out "> ", .out "\n"]

namespace Options

variable {o : Options}

theorem prompt_of_interactive (talk : o.interactive) : o.prompt = .out "> " := if_pos talk

theorem runAll_of_interactive (talk : o.interactive) (write : String → Except String Unit)
    (lines : List String) :
    o.runAll write (lines.map some) =
      { events := lines.flatMap (fun line => o.prompt :: o.answerTurn (trimmed line)) ++
          [o.prompt, .out "\n"] } := by
  induction lines with
  | nil => simp [runAll, atEnd, talk, finished]
  | cons line rest ih => simp [runAll, atLine, talk, ih]

/-- A conversation is a turn for each line of its input, and then the farewell. -/
theorem runText_of_interactive (talk : o.interactive) (write : String → Except String Unit)
    (text : String) :
    o.runText write text = { events := (linesOf text).flatMap o.turn ++ farewell } := by
  have shown : [o.prompt, .out "\n"].filter (Event.isShown o.verbosity) = farewell := by
    rw [prompt_of_interactive talk]
    rfl
  rewrite [runText, runShown, runAll_of_interactive talk, List.filter_append, shown,
    List.filter_flatMap]
  rfl

/-- What is shown of a text that has ended is not changed by what follows it, and the
rest is answered as if it stood alone. -/
theorem runText_append (talk : o.interactive) (write : String → Except String Unit)
    {first : String} (ended : Complete first.toList) (second : String) :
    (∃ front, (o.runText write first).stdout = front ++ "> \n" ∧
      (o.runText write (first ++ second)).stdout = front ++ (o.runText write second).stdout) ∧
    (o.runText write (first ++ second)).stderr =
      (o.runText write first).stderr ++ (o.runText write second).stderr ∧
    (o.runText write (first ++ second)).log =
      (o.runText write first).log ++ (o.runText write second).log := by
  simp only [runText_of_interactive talk, linesOf_append ended, List.flatMap_append]
  let front := ((linesOf first).flatMap o.turn).map Event.outText
  refine ⟨⟨String.join front, ?_, ?_⟩, ?_, ?_⟩
  · simp [front, Outcome.stdout, farewell, Event.outText]
  · simp [front, Outcome.stdout, farewell, Event.outText]
  · simp [Outcome.stderr, farewell, Event.errText]
  · simp [Outcome.log, farewell, Event.logEntry?]

end Options

/-- A conversation about two texts is the one about the first text up to its
farewell, followed by the one about the second text. Nothing that happens in it
influences the answer to a line but the line itself. -/
theorem conversation_answers_lines_independently (arguments : List String) (o : Options)
    (accepted : Options.read arguments = .ok o) (talk : o.interactive)
    (write : String → Except String Unit) :
    (∀ first second : String, first = "" ∨ first.toList.getLast? = some '\n' →
      (run arguments write (utf8 (first ++ second))).exit = 0 ∧
      (∃ front, (run arguments write (utf8 first)).stdout = front ++ "> \n" ∧
        (run arguments write (utf8 (first ++ second))).stdout =
          front ++ (run arguments write (utf8 second)).stdout) ∧
      (run arguments write (utf8 (first ++ second))).stderr =
        (run arguments write (utf8 first)).stderr ++ (run arguments write (utf8 second)).stderr ∧
      (run arguments write (utf8 (first ++ second))).log =
        (run arguments write (utf8 first)).log ++ (run arguments write (utf8 second)).log) ∧
    ∃ answer : String → List Event, ∀ text : String,
      (run arguments write (utf8 text)).events =
        (linesOf text).flatMap answer ++ [.out "> ", .out "\n"] := by
  simp only [run_utf8 accepted]
  constructor
  · intro first second complete
    have ended : Complete first.toList := complete.imp_left fun h => by simp [h]
    refine ⟨?_, Options.runText_append talk write ended second⟩
    rw [Options.runText_of_interactive talk]
  · exact ⟨o.turn, fun text => by rw [Options.runText_of_interactive talk, farewell]⟩

/-- What a line stores is forgotten on the next one, also where a line between them
is rejected. -/
theorem stored_value_is_forgotten :
    Options.read ["-i", "--ast", "-v"] = .ok { interactive := true, ast := true, verbosity := 1 } ∧
    ∃ front,
      (run ["-i", "--ast", "-v"] (fun _ => .ok ()) (utf8 "5 S\n1+\n")).stdout = front ++ "> \n" ∧
      (run ["-i", "--ast", "-v"] (fun _ => .ok ()) (utf8 ("5 S\n1+\n" ++ "R"))).stdout =
        front ++ (run ["-i", "--ast", "-v"] (fun _ => .ok ()) (utf8 "R")).stdout := by
  have accepted : Options.read ["-i", "--ast", "-v"] =
      .ok { interactive := true, ast := true, verbosity := 1 } := rfl
  have talks := conversation_answers_lines_independently _ _ accepted rfl fun _ => .ok ()
  exact ⟨accepted, (talks.1 "5 S\n1+\n" "R" (.inr (by decide))).2.1⟩

end Calculator.CommandLine
