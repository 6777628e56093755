/-!
# Command-line arguments

Arguments are taken from left to right, and the first thing that settles the
outcome wins: a request for help or for the version, or a mistake. Short flags
may share one dash, and a value may follow its option directly, after an equals
sign or as the next argument. A next argument that looks like a flag is no
value.
-/

namespace Calculator.CommandLine

/-- An argument without a value. -/
inductive Flag where
  | interactive | compile | run | tokens | ast | verbose | help | version
  deriving DecidableEq, Repr

/-- What a name on the command line stands for. -/
inductive Switch where
  | flag (f : Flag)
  /-- The path that compiled programs are written to. -/
  | output
  deriving DecidableEq, Repr

def Switch.ofLong? : String → Option Switch
  | "interactive" => some (.flag .interactive)
  | "compile" => some (.flag .compile)
  | "output" => some .output
  | "run" => some (.flag .run)
  | "tokens" => some (.flag .tokens)
  | "ast" => some (.flag .ast)
  | "verbose" => some (.flag .verbose)
  | "help" => some (.flag .help)
  | "version" => some (.flag .version)
  | _ => none

def Switch.ofShort? : Char → Option Switch
  | 'i' => some (.flag .interactive)
  | 'c' => some (.flag .compile)
  | 'o' => some .output
  | 'v' => some (.flag .verbose)
  | 'h' => some (.flag .help)
  | 'V' => some (.flag .version)
  | _ => none

inductive Mistake where
  | unknown (argument : String)
  | repeated (argument : String)
  | missingValue
  | unwantedValue (argument : String)
  /-- A conversation and a compilation at once. -/
  | conflict
  /-- A compiled program is to run, and nothing is compiled. -/
  | nothingToRun
  deriving DecidableEq, Repr

def Mistake.message : Mistake → String
  | .unknown argument => "unexpected argument '" ++ argument ++ "'"
  | .repeated argument => "the argument '" ++ argument ++ "' cannot be used multiple times"
  | .missingValue => "a value is required for '--output <OUTPUT>'"
  | .unwantedValue argument => "no value is allowed for '" ++ argument ++ "'"
  | .conflict => "the argument '--interactive' cannot be used with '--compile'"
  | .nothingToRun => "the argument '--run' requires '--compile'"

structure Options where
  interactive : Bool := false
  compile : Bool := false
  output : Option String := none
  run : Bool := false
  tokens : Bool := false
  ast : Bool := false
  verbosity : Nat := 0
  deriving DecidableEq, Repr

/-- Why reading arguments ended early. -/
inductive Stop where
  | help
  | version
  | mistake (m : Mistake)
  deriving DecidableEq, Repr

namespace Options

def path (o : Options) : String := o.output.getD "a.ewe"

/-- Only the verbosity may be given more than once. -/
def once (given : Bool) (name : String) (o : Options) : Except Stop Options :=
  if given then .error (.mistake (.repeated name)) else .ok o

def add (o : Options) : Flag → Except Stop Options
  | .interactive => once o.interactive "--interactive" { o with interactive := true }
  | .compile => once o.compile "--compile" { o with compile := true }
  | .run => once o.run "--run" { o with run := true }
  | .tokens => once o.tokens "--tokens" { o with tokens := true }
  | .ast => once o.ast "--ast" { o with ast := true }
  | .verbose => .ok { o with verbosity := o.verbosity + 1 }
  | .help => .error .help
  | .version => .error .version

def addOutput (o : Options) (value : String) : Except Stop Options :=
  if value.isEmpty then .error (.mistake .missingValue)
  else once o.output.isSome "--output <OUTPUT>" { o with output := some value }

/-- Read short flags that share one dash. The second result says that the value
of the last one is still to come. -/
def readShort (o : Options) : List Char → Except Stop (Options × Bool)
  | [] => .ok (o, false)
  | c :: cs =>
    match Switch.ofShort? c with
    | none => .error (.mistake (.unknown (String.ofList ['-', c])))
    | some (.flag f) => do readShort (← o.add f) cs
    | some .output =>
      match cs with
      | [] => .ok (o, true)
      | '=' :: value => (o.addOutput (String.ofList value)).map (·, false)
      | value => (o.addOutput (String.ofList value)).map (·, false)

/-- Read a long flag, given without its dashes. -/
def readLong (o : Options) (text : List Char) : Except Stop (Options × Bool) :=
  let name := String.ofList (text.takeWhile (· ≠ '='))
  match Switch.ofLong? name, text.dropWhile (· ≠ '=') with
  | none, _ => .error (.mistake (.unknown ("--" ++ name)))
  | some (.flag f), [] => (o.add f).map (·, false)
  | some (.flag _), _ :: _ => .error (.mistake (.unwantedValue ("--" ++ name)))
  | some .output, [] => .ok (o, true)
  | some .output, _ :: value => (o.addOutput (String.ofList value)).map (·, false)

/-- A dash that stands alone is an ordinary text. -/
def looksLikeFlag (argument : String) : Bool :=
  match argument.toList with
  | '-' :: _ :: _ => true
  | _ => false

/-- Read arguments. If `awaiting`, the first one is the value of the output. -/
def readFrom (o : Options) (awaiting : Bool) : List String → Except Stop Options
  | [] => if awaiting then .error (.mistake .missingValue) else .ok o
  | a :: rest =>
    if awaiting then
      if looksLikeFlag a then .error (.mistake .missingValue)
      else do readFrom (← o.addOutput a) false rest
    else
      match a.toList with
      | ['-', '-'] =>
        -- everything behind two dashes is a text, and no text is expected
        match rest with
        | [] => .ok o
        | b :: _ => .error (.mistake (.unknown b))
      | '-' :: '-' :: text => do
        let (o', waits) ← o.readLong text
        readFrom o' waits rest
      | '-' :: c :: cs => do
        let (o', waits) ← o.readShort (c :: cs)
        readFrom o' waits rest
      | _ => .error (.mistake (.unknown a))

/-- Whether the options go together. -/
def check (o : Options) : Except Stop Options :=
  if o.interactive && o.compile then .error (.mistake .conflict)
  else if o.run && !o.compile && !o.interactive then .error (.mistake .nothingToRun)
  else .ok o

def read (arguments : List String) : Except Stop Options := do
  check (← readFrom {} false arguments)

end Options

/-- The name and the number that a request for the version prints. -/
def versionText : String := "ewecalc 0.1.0\n"

def usageText : String := "Usage: ewecalc [OPTIONS]\n"

def helpText : String :=
  "Evaluate arithmetic expressions, or compile them into EWE pseudo-assembly\n\n" ++
  usageText ++
  "\nOptions:\n" ++
  "  -i, --interactive      Read expressions line by line until end of input\n" ++
  "  -c, --compile          Compile one expression into an EWE program\n" ++
  "  -o, --output <OUTPUT>  Where compile mode writes the program [default: a.ewe]\n" ++
  "      --run              Also execute the compiled program and print what it writes\n" ++
  "      --tokens           Print the token stream before parsing\n" ++
  "      --ast              Print the parsed tree as an S-expression\n" ++
  "  -v, --verbose...       Raise log verbosity (-v info, -vv debug, -vvv trace)\n" ++
  "  -h, --help             Print help\n" ++
  "  -V, --version          Print version\n"

end Calculator.CommandLine
