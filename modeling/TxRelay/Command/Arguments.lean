/-!
# Arguments

The command line has two commands, each with parameters of its own, and parameters that may stand
before or after the name of the command. The value of a parameter follows it or is attached to it; a
value that follows must not begin with a hyphen, unless it is a hyphen alone. Most parameters may be
given once at each place.
-/

namespace TxRelay.Command

/-- Why there is nothing to carry out. -/
inductive Refusal where
  /-- The arguments are wrong. -/
  | misuse
  /-- Only help or the version is asked for. -/
  | help
  deriving DecidableEq, Repr

/-- The values that a parameter takes. -/
inductive ValueKind where
  /-- None: the parameter is a switch. -/
  | switch
  | text
  /-- A text that is not empty. -/
  | path
  /-- A number below 2^64. -/
  | number
  /-- None: the parameter asks for help. -/
  | help
  deriving DecidableEq, Repr

/-- A parameter of a command. -/
structure Parameter where
  name : String
  short : Option Char
  kind : ValueKind
  /-- Whether it may be given more than once. -/
  repeats : Bool
  deriving DecidableEq, Repr

/-- A parameter as it was given; a switch has an empty value. -/
structure Given where
  name : String
  value : String
  deriving DecidableEq, Repr

/-- A number below 2^64 in decimal digits, possibly after a plus sign. -/
def number? (text : String) : Option UInt64 :=
  let digits :=
    match text.toList with
    | '+' :: rest => rest
    | rest => rest
  if digits.isEmpty || !digits.all Char.isDigit then none
  else
    let n := Nat.ofDigitChars 10 digits 0
    if n < Nat.pow 2 64 then some (UInt64.ofNat n) else none

/-- Whether a parameter takes a value. -/
def ValueKind.accepts : ValueKind → String → Bool
  | switch, _ | help, _ => false
  | text, _ => true
  | path, value => !value.isEmpty
  | number, value => (number? value).isSome

/-- Adds a parameter to those given before. -/
def give (given : List Given) (p : Parameter) (value : String) : Except Refusal (List Given) :=
  if !p.repeats && given.any (·.name = p.name) then .error .misuse
  else .ok (given ++ [⟨p.name, value⟩])

/-- Adds a parameter with a value, which must be of its kind. -/
def giveValue (given : List Given) (p : Parameter) (value : String) : Except Refusal (List Given) :=
  if p.kind.accepts value then give given p value else .error .misuse

/-- Whether an argument can be the value of the parameter before it. -/
def canFollow (arg : String) : Bool :=
  arg = "-" || !arg.startsWith "-"

/-- A parameter in an argument: one that needs no more, or one whose value must follow. -/
inductive Reading where
  | done (given : List Given)
  | needsValue (p : Parameter)

/-- Reads an argument that begins with two hyphens. -/
def readLong (parameters : List Parameter) (given : List Given) (arg : List Char) :
    Except Refusal Reading :=
  let name := String.ofList (arg.takeWhile (· ≠ '='))
  let attached :=
    match arg.dropWhile (· ≠ '=') with
    | '=' :: value => some (String.ofList value)
    | _ => none
  match parameters.find? fun p => p.name = name with
  | none => .error .misuse
  | some p =>
    match p.kind, attached with
    | .help, none => .error .help
    | .switch, none => (give given p "").map .done
    | .switch, some _ | .help, some _ => .error .misuse
    | _, some value => (giveValue given p value).map .done
    | _, none => .ok (.needsValue p)

/-- The value attached to a short name. -/
def attachedValue : List Char → List Char
  | '=' :: value => value
  | value => value

/-- Reads the short names after one hyphen. -/
def readShort (parameters : List Parameter) (given : List Given) : List Char → Except Refusal Reading
  | [] => .ok (.done given)
  | c :: rest =>
    match parameters.find? fun p => p.short = some c with
    | none => .error .misuse
    | some p =>
      match p.kind with
      | .help => .error .help
      | .switch =>
        match give given p "" with
        | .ok given => readShort parameters given rest
        | .error r => .error r
      | _ =>
        if rest.isEmpty then .ok (.needsValue p)
        else (giveValue given p (String.ofList (attachedValue rest))).map .done

/-- Reads one argument that begins with a hyphen. -/
def readArgument (parameters : List Parameter) (given : List Given) (arg : String) :
    Except Refusal Reading :=
  match arg.toList with
  | '-' :: '-' :: rest => readLong parameters given rest
  | _ :: rest => readShort parameters given rest
  | [] => .error .misuse

/-- Reads parameters up to the first argument that is none: the parameters given, and the arguments
from there on. After two hyphens alone no parameter follows. -/
def readParameters (parameters : List Parameter) (given : List Given) :
    List String → Except Refusal (List Given × List String)
  | [] => .ok (given, [])
  | arg :: rest =>
    if arg = "--" then if rest.isEmpty then .ok (given, []) else .error .misuse
    else if canFollow arg then .ok (given, arg :: rest)
    else
      match readArgument parameters given arg with
      | .error r => .error r
      | .ok (.done given) => readParameters parameters given rest
      | .ok (.needsValue p) =>
        match rest with
        | value :: after =>
          if canFollow value then
            match giveValue given p value with
            | .ok given => readParameters parameters given after
            | .error r => .error r
          else .error .misuse
        | [] => .error .misuse

/-! ## The commands -/

/-- The parameters of every command (`Cli`). -/
def sharedParameters : List Parameter :=
  [⟨"log-level", none, .text, false⟩, ⟨"json-logs", none, .switch, false⟩,
    ⟨"help", some 'h', .help, false⟩]

/-- The parameters before the name of the command. -/
def topParameters : List Parameter :=
  ⟨"version", some 'V', .help, false⟩ :: sharedParameters

/-- The parameter that names the input. -/
def inputParameter : Parameter :=
  ⟨"input", some 'i', .text, false⟩

/-- The parameters of a run (`Run` of the `Commands`). -/
def runParameters : List Parameter :=
  [⟨"config", some 'c', .path, false⟩, ⟨"agent", none, .text, true⟩,
    ⟨"queue-capacity", none, .number, false⟩, ⟨"call-timeout-ms", none, .number, false⟩,
    ⟨"connect-timeout-ms", none, .number, false⟩, inputParameter] ++ sharedParameters

/-- The parameters of a dry run (`Translate` of the `Commands`). -/
def dryRunParameters : List Parameter :=
  inputParameter :: sharedParameters

/-- What a run is asked for, before the settings file is looked at. -/
structure RunOptions where
  config : Option String
  /-- The addresses that replace those of the settings file, if there are any. -/
  agents : List String
  queueCapacity : Option UInt64
  callTimeout : Option UInt64
  connectTimeout : UInt64
  input : String
  deriving DecidableEq, Repr

/-- What is to be done. -/
inductive Action where
  | run (options : RunOptions)
  | dryRun (input : String)
  deriving DecidableEq, Repr

/-- A command with what it says about the log. -/
structure Invocation where
  logLevel : Option String
  jsonLogs : Bool
  action : Action
  deriving DecidableEq, Repr

/-- The value of a parameter that was given. -/
def value? (given : List Given) (name : String) : Option String :=
  (given.find? (·.name = name)).map (·.value)

/-- The values of a parameter that may repeat, each a list with commas. -/
def listed (given : List Given) (name : String) : List String :=
  (given.filter (·.name = name)).flatMap (·.value.splitOn ",")

/-- The input where none is named: what is typed in. -/
def standardInput : String := "-"

/-- How long connecting may take where nothing is said, in milliseconds. -/
def defaultConnectTimeout : UInt64 := 5000

/-- The options of a run. The environment names the agents only where no argument does. -/
def runOptions (environment : Option String) (given : List Given) : RunOptions where
  config := value? given "config"
  agents :=
    if given.any (·.name = "agent") then listed given "agent"
    else (environment.map (·.splitOn ",")).getD []
  queueCapacity := (value? given "queue-capacity").bind number?
  callTimeout := (value? given "call-timeout-ms").bind number?
  connectTimeout := ((value? given "connect-timeout-ms").bind number?).getD defaultConnectTimeout
  input := (value? given "input").getD standardInput

/-- The command of its name and of what was given before it and after it. What is said about the log
after the name counts before what is said in front of it. -/
def invocation (before after : List Given) (action : Action) : Invocation where
  logLevel := (value? after "log-level").or (value? before "log-level")
  jsonLogs := (before ++ after).any (·.name = "json-logs")
  action

/-- The parameters after the name of a command, of which no argument may be left. -/
def readRest (parameters : List Parameter) (args : List String) : Except Refusal (List Given) :=
  match readParameters parameters [] args with
  | .ok (given, []) => .ok given
  | .ok (_, _ :: _) => .error .misuse
  | .error r => .error r

/-- Help may be asked for about a command. -/
def helpAbout : List String → Refusal
  | [] | ["run"] | ["translate"] | ["help"] => .help
  | _ => .misuse

/-- The command that arguments name (`parse`). -/
def parse (environment : Option String) (args : List String) : Except Refusal Invocation := do
  let (before, rest) ← readParameters topParameters [] args
  match rest with
  | "run" :: rest =>
    let after ← readRest runParameters rest
    return invocation before after (.run (runOptions environment after))
  | "translate" :: rest =>
    let after ← readRest dryRunParameters rest
    return invocation before after (.dryRun ((value? after "input").getD standardInput))
  | "help" :: rest => throw (helpAbout rest)
  | _ => throw .misuse

end TxRelay.Command
