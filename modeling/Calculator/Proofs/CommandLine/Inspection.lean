import Calculator.Proofs.CommandLine.Response

/-!
# Listings do not change what a run does

A run can list the tokens of a line and its tree. What is listed comes between the
prompt and the results of the line. The results, the file and the exit code are those
of the run without listings, because a line that has no tokens is no expression either.
Such a line is only reported in another way: the listing complains about the first
character that starts no token, and a parser may find an earlier token wrong.
-/

namespace Calculator.CommandLine

open Event

theorem bind_eq_ok {ε α β : Type} {r : Except ε α} {f : α → Except ε β} {b : β}
    (h : r >>= f = .ok b) : ∃ a, r = .ok a ∧ f a = .ok b := by
  cases r with
  | error x => cases h
  | ok a => exact ⟨a, rfl, h⟩

namespace Options

/-! ## Asking for listings -/

/-- The same options with the given listings. -/
def listing (o : Options) (tokens ast : Bool) : Options := { o with tokens, ast }

/-- No listings are asked for. -/
def Unlisted (o : Options) : Prop := o.tokens = false ∧ o.ast = false

section Arguments

variable {o o' : Options} {waits : Bool} (tokens ast : Bool)

theorem add_listing {f : Flag} (h : o.add f = .ok o') (unlisted : o'.Unlisted) :
    o.Unlisted ∧ (o.listing tokens ast).add f = .ok (o'.listing tokens ast) := by
  cases f <;> grind [add, once, Unlisted, listing]

theorem addOutput_listing {value : String} (h : o.addOutput value = .ok o')
    (unlisted : o'.Unlisted) :
    o.Unlisted ∧ (o.listing tokens ast).addOutput value = .ok (o'.listing tokens ast) := by
  grind [addOutput, once, Unlisted, listing]

theorem map_addOutput_listing {value : String}
    (h : (o.addOutput value).map (·, false) = .ok (o', waits)) (unlisted : o'.Unlisted) :
    o.Unlisted ∧ ((o.listing tokens ast).addOutput value).map (·, false) =
      .ok (o'.listing tokens ast, waits) := by
  rcases added : o.addOutput value with x | o₁ <;> rw [added] at h <;> cases h
  obtain ⟨start, added'⟩ := addOutput_listing tokens ast added unlisted
  exact ⟨start, by rw [added']; rfl⟩

theorem readShort_listing {cs : List Char} (h : o.readShort cs = .ok (o', waits))
    (unlisted : o'.Unlisted) :
    o.Unlisted ∧ (o.listing tokens ast).readShort cs = .ok (o'.listing tokens ast, waits) := by
  induction cs generalizing o with
  | nil =>
    cases h
    exact ⟨unlisted, rfl⟩
  | cons c cs ih =>
    unfold readShort at h ⊢
    rcases found : Switch.ofShort? c with _ | f | _ <;> rw [found] at h
    · cases h
    · obtain ⟨o₁, added, rest⟩ := bind_eq_ok h
      obtain ⟨unlisted₁, rest'⟩ := ih rest
      obtain ⟨start, added'⟩ := add_listing tokens ast added unlisted₁
      exact ⟨start, by simp only [added']; exact rest'⟩
    · dsimp only at h ⊢
      split at h
      · cases h
        exact ⟨unlisted, rfl⟩
      · exact map_addOutput_listing tokens ast h unlisted
      · exact map_addOutput_listing tokens ast h unlisted

theorem readLong_listing {text : List Char} (h : o.readLong text = .ok (o', waits))
    (unlisted : o'.Unlisted) :
    o.Unlisted ∧ (o.listing tokens ast).readLong text = .ok (o'.listing tokens ast, waits) := by
  unfold readLong at h ⊢
  dsimp only at h ⊢
  split at h
  · cases h
  · next f named _ =>
    rcases added : o.add f with x | o₁ <;> rw [added] at h <;> cases h
    obtain ⟨start, added'⟩ := add_listing tokens ast added unlisted
    exact ⟨start, by simp only [*]; rfl⟩
  · cases h
  · cases h
    exact ⟨unlisted, by simp only [*]⟩
  · obtain ⟨start, added⟩ := map_addOutput_listing tokens ast h unlisted
    exact ⟨start, by simp only [*]⟩

theorem readFrom_listing {arguments : List String} (h : o.readFrom waits arguments = .ok o')
    (unlisted : o'.Unlisted) :
    o.Unlisted ∧
      (o.listing tokens ast).readFrom waits arguments = .ok (o'.listing tokens ast) := by
  induction arguments generalizing o waits with
  | nil =>
    cases waits <;> cases h
    exact ⟨unlisted, rfl⟩
  | cons a rest ih =>
    unfold readFrom at h ⊢
    cases waits with
    | true =>
      rcases flag : looksLikeFlag a with _ | _ <;> simp only [flag] at h ⊢
      · obtain ⟨o₁, added, behind⟩ := bind_eq_ok h
        obtain ⟨unlisted₁, behind'⟩ := ih behind
        obtain ⟨start, added'⟩ := addOutput_listing tokens ast added unlisted₁
        exact ⟨start, by simp only [added']; exact behind'⟩
      · cases h
    | false =>
      simp only [Bool.false_eq_true, if_false] at h ⊢
      split at h
      · split at h <;> cases h
        exact ⟨unlisted, rfl⟩
      · obtain ⟨⟨o₁, waits⟩, read, behind⟩ := bind_eq_ok h
        obtain ⟨unlisted₁, behind'⟩ := ih behind
        obtain ⟨start, read'⟩ := readLong_listing tokens ast read unlisted₁
        exact ⟨start, by rw [read']; exact behind'⟩
      · obtain ⟨⟨o₁, waits⟩, read, behind⟩ := bind_eq_ok h
        obtain ⟨unlisted₁, behind'⟩ := ih behind
        obtain ⟨start, read'⟩ := readShort_listing tokens ast read unlisted₁
        exact ⟨start, by rw [read']; exact behind'⟩
      · cases h

end Arguments

/-- The arguments that ask for listings. -/
def listingArguments (tokens ast : Bool) : List String :=
  (if tokens then ["--tokens"] else []) ++ if ast then ["--ast"] else []

theorem readFrom_listingArguments (tokens ast : Bool) (arguments : List String) :
    readFrom {} false (listingArguments tokens ast ++ arguments) =
      readFrom (({} : Options).listing tokens ast) false arguments := by
  cases tokens <;> cases ast <;> rfl

/-- Listings can be asked for in front of any arguments that ask for none. -/
theorem read_listingArguments {arguments : List String} {o : Options}
    (accepted : Options.read arguments = .ok o) (unlisted : o.Unlisted) (tokens ast : Bool) :
    Options.read (listingArguments tokens ast ++ arguments) = .ok (o.listing tokens ast) := by
  obtain ⟨o₁, taken, fits⟩ := bind_eq_ok accepted
  obtain ⟨rfl, fits'⟩ : o₁ = o ∧ (o₁.listing tokens ast).check = .ok (o₁.listing tokens ast) := by
    grind [check, listing]
  have taken' := (readFrom_listing tokens ast taken unlisted).2
  rw [Options.read, readFrom_listingArguments, taken']
  exact fits'

end Options

/-! ## Error output -/

/-- What the events write to the error output. -/
def errorText (events : List Event) : String := String.join (events.map errText)

theorem Outcome.stderr_eq (r : Outcome) : r.stderr = errorText r.events := rfl

@[simp] theorem errorText_append (xs ys : List Event) :
    errorText (xs ++ ys) = errorText xs ++ errorText ys := by
  simp [errorText]

@[simp] theorem errorText_outLine (texts : List String) : errorText (texts.map outLine) = "" := by
  induction texts with
  | nil => rfl
  | cons text texts ih => simpa [errorText, outLine, errText] using ih

theorem errorText_flatMap {lines : List String} {f g : String → List Event}
    (same : ∀ line ∈ lines, errorText (f line) = errorText (g line)) :
    errorText (lines.flatMap f) = errorText (lines.flatMap g) := by
  induction lines with
  | nil => rfl
  | cons line lines ih =>
    rw [List.flatMap_cons, List.flatMap_cons, errorText_append, errorText_append,
      same line (by simp), ih fun line h => same line (by simp [h])]

theorem Options.errorText_shown (o : Options) (write : String → Except String Unit)
    (line : String) :
    errorText (o.shown write line) =
      errorText ((o.diagnosis write line).complaint.toList.map errLine) := by
  obtain ⟨words, asks⟩ := o.exists_prompt
  have silent (events : List Event) : errorText (.out words :: events) = errorText events := by
    simp [errorText, errText]
  simp [shown, asks, silent, Response.events]

/-! ## Runs with listings -/

namespace Options

variable {o : Options} (plain : o.Plain) (tokens ast : Bool) (write : String → Except String Unit)
  (text : String)

include plain

theorem exit_runText_listing :
    ((o.listing tokens ast).runText write text).exit = (o.runText write text).exit := by
  have quiet : (o.listing tokens ast).verbosity = 0 := plain.verbosity
  rw [exit_runText plain.verbosity, exit_runText quiet]
  rfl

theorem file_runText_listing :
    ((o.listing tokens ast).runText write text).file = (o.runText write text).file := by
  have quiet : (o.listing tokens ast).verbosity = 0 := plain.verbosity
  rw [file_runText plain.verbosity, file_runText quiet]
  rfl

theorem Plain.events_runText :
    (o.runText write text).events =
      (o.asked text).flatMap (fun line => o.prompt :: (o.response write line).events) ++
        o.ending := by
  rw [Options.events_runText plain.verbosity, funext (plain.shown_eq write)]

/-- Lines that have tokens are complained about in the same way, whether these are
listed or not. -/
theorem stderr_runText_listing
    (clean : tokens = false ∨ ∀ line ∈ o.asked text, (tokenize line).isOk) :
    ((o.listing tokens ast).runText write text).stderr = (o.runText write text).stderr := by
  have quiet : (o.listing tokens ast).verbosity = 0 := plain.verbosity
  have each (line : String) (h : line ∈ o.asked text) :
      errorText ((o.listing tokens ast).shown write line) = errorText (o.shown write line) := by
    have same : (o.listing tokens ast).diagnosis write line = o.response write line :=
      diagnosis_of_scanned (o := o.listing tokens ast) (clean.imp_right (· line h)) write
    rw [errorText_shown, errorText_shown, same, diagnosis_of_scanned (.inl plain.tokens)]
  rw [Outcome.stderr_eq, Outcome.stderr_eq, Options.events_runText plain.verbosity,
    Options.events_runText quiet, errorText_append, errorText_append]
  exact congrArg (· ++ errorText o.ending) (errorText_flatMap each)

end Options

/-- Listings leave the exit code, the file and the results of every line as they are.
They come between the prompt and the response. A line without tokens is rejected in any
case, with the report of the listing if its tokens are to be listed. -/
theorem listings_change_no_outcome (arguments : List String) (o : Options)
    (accepted : Options.read arguments = .ok o) (plain : o.Plain) (tokens ast : Bool) :
    Options.read (Options.listingArguments tokens ast ++ arguments) = .ok (o.listing tokens ast) ∧
    ∀ arguments' : List String, Options.read arguments' = .ok (o.listing tokens ast) →
    ∀ (write : String → Except String Unit) (input : String),
      (run arguments' write (utf8 input)).exit = (run arguments write (utf8 input)).exit ∧
      (run arguments' write (utf8 input)).file = (run arguments write (utf8 input)).file ∧
      (run arguments write (utf8 input)).events =
        (o.asked input).flatMap (fun line => o.prompt :: (o.response write line).events) ++
          o.ending ∧
      (run arguments' write (utf8 input)).events =
        (o.asked input).flatMap (fun line =>
          o.prompt :: ((o.listing tokens ast).inspection line).map outLine ++
            ((o.listing tokens ast).diagnosis write line).events) ++
          o.ending ∧
      (∀ (line : String) (x : Error), tokens = true → tokenize line = .error x →
        (o.listing tokens ast).inspection line = [] ∧
        (o.listing tokens ast).diagnosis write line = .rejected line x ∧
        ∃ y, o.response write line = .rejected line y) ∧
      (∀ line : String, tokens = false ∨ (tokenize line).isOk →
        (o.listing tokens ast).diagnosis write line = o.response write line) ∧
      (tokens = false ∨ (∀ line ∈ o.asked input, (tokenize line).isOk) →
        (run arguments' write (utf8 input)).stderr =
          (run arguments write (utf8 input)).stderr) := by
  refine ⟨Options.read_listingArguments accepted ⟨plain.tokens, plain.ast⟩ tokens ast,
    fun arguments' accepted' write input => ?_⟩
  have quiet : (o.listing tokens ast).verbosity = 0 := plain.verbosity
  rw [run_utf8 accepted, run_utf8 accepted']
  refine ⟨Options.exit_runText_listing plain tokens ast write input,
    Options.file_runText_listing plain tokens ast write input,
    plain.events_runText write input, Options.events_runText quiet write input, ?_,
    fun line scanned => Options.diagnosis_of_scanned scanned write,
    Options.stderr_runText_listing plain tokens ast write input⟩
  intro line x listed failed
  have stopped : (o.listing tokens ast).scanFailure? line = some x :=
    Options.scanFailure?_eq_some.2 ⟨listed, failed⟩
  exact ⟨Options.inspection_of_scanFailure stopped,
    Options.diagnosis_of_scanFailure stopped write, Options.response_of_scanFailure stopped write⟩

/-- In `1+*$`, a conversation that lists tokens complains about the dollar and not about
the star. The next line is answered as before, behind its listings. -/
theorem dollar_is_reported_when_tokens_are_listed :
    Options.read ["-i"] = .ok { interactive := true } ∧
    Options.read ["--tokens", "--ast", "-i"] =
      .ok { interactive := true, tokens := true, ast := true } ∧
    (run ["--tokens", "--ast", "-i"] (fun _ => .ok ()) (utf8 "1+*$\n2\n")).exit =
      (run ["-i"] (fun _ => .ok ()) (utf8 "1+*$\n2\n")).exit ∧
    (run ["--tokens", "--ast", "-i"] (fun _ => .ok ()) (utf8 "1+*$\n2\n")).events =
      [.out "> ", errLine ((Error.unrecognized ⟨1, 4⟩ '$').report "1+*$"),
        .out "> ", outLine "1:1 Number 2", outLine "1:2 Eof ", outLine "2", outLine "= 2",
        .out "> ", .out "\n"] := by
  have accepted : Options.read ["-i"] = .ok { interactive := true } := rfl
  obtain ⟨accepted', runs⟩ := listings_change_no_outcome ["-i"] _ accepted ⟨rfl, rfl, rfl⟩ true true
  obtain ⟨exit, -, -, events, rejected, kept, -⟩ :=
    runs ["--tokens", "--ast", "-i"] accepted' (fun _ => .ok ()) "1+*$\n2\n"
  have asked : ({ interactive := true } : Options).asked "1+*$\n2\n" = ["1+*$", "2"] := by
    decide +kernel
  have stopped : tokenize "1+*$" = .error (.unrecognized ⟨1, 4⟩ '$') := by decide +kernel
  obtain ⟨unlisted, complaint, -⟩ := rejected "1+*$" _ rfl stopped
  have listed : (({ interactive := true } : Options).listing true true).inspection "2" =
      ["1:1 Number 2", "1:2 Eof ", "2"] := by decide +kernel
  have two : calculate "2" = .ok 2 := by decide +kernel
  have answer : ({ interactive := true } : Options).response (fun _ => .ok ()) "2" =
      { results := ["= 2"] } := by
    rw [Options.response, two]
    rfl
  have answered := (kept "2" (.inr (by decide +kernel))).trans answer
  refine ⟨accepted, accepted', exit, ?_⟩
  rw [asked] at events
  simpa [unlisted, complaint, listed, answered, Response.events, Response.rejected, Options.prompt,
    Options.ending, farewell] using events

end Calculator.CommandLine
