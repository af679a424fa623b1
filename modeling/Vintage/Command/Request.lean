import Vintage.Text.Split

/-!
# Requests on the command line

* `Request` — what a run is asked to do.
* `Invocation.ofArguments` — reads the arguments of the command line from left to right.

The value of an option stands in the next argument, behind `=`, or, for an option of one letter,
right behind the letter. An argument `--` says that only paths follow.
-/

namespace Vintage.Command

/-- The options. -/
inductive Flag where
  | testVersion
  | rule
  | format
  | json
  | verbose
  | settings
  | noSettings
  | journal
  | listRules
  | version
  | help
deriving DecidableEq, Repr

namespace Flag

/-- The option with a long name. -/
def ofName? : String → Option Flag
  | "test-version" => some testVersion
  | "sniff" => some rule
  | "format" => some format
  | "json" => some json
  | "verbose" => some verbose
  | "config" => some settings
  | "no-config" => some noSettings
  | "log-file" => some journal
  | "list-sniffs" => some listRules
  | "version" => some version
  | "help" => some help
  | _ => none

/-- The option with a letter. -/
def ofLetter? : Char → Option Flag
  | 't' => some testVersion
  | 's' => some rule
  | 'v' => some verbose
  | 'V' => some version
  | 'h' => some help
  | _ => none

/-- The option has a value. -/
def takesValue : Flag → Bool
  | testVersion | rule | format | settings | journal => true
  | json | verbose | noSettings | listRules | version | help => false

end Flag

/-- What a run is asked to do. -/
structure Request where
  paths : List String := []
  testVersion : Option String := none
  rules : List String := []
  format : Option String := none
  json : Bool := false
  verbose : Bool := false
  settings : Option String := none
  noSettings : Bool := false
  journal : Option String := none
  listRules : Bool := false
deriving DecidableEq, Repr

/-- What the command line asks for. -/
inductive Invocation where
  | run (request : Request)
  | showVersion
  | showHelp
deriving DecidableEq, Repr

/-- Why arguments cannot be read. -/
inductive UsageError where
  | unknownOption (argument : String)
  | missingValue (flag : Flag)
  | unexpectedValue (flag : Flag)
  | repeated (flag : Flag)
  | emptyPath
  | noPath
  | jsonWithFormat
deriving DecidableEq, Repr

namespace Request

/-- The request with one more path. -/
def addPath (r : Request) (path : String) : Except UsageError Request :=
  if path.isEmpty then .error .emptyPath else .ok { r with paths := r.paths ++ [path] }

/-- The request with an option that has a value. -/
def setValue (r : Request) (flag : Flag) (value : String) : Except UsageError Request :=
  let once (old : Option String) (new : Request) : Except UsageError Request :=
    if old.isSome then .error (.repeated flag) else .ok new
  match flag with
  | .testVersion => once r.testVersion { r with testVersion := some value }
  | .rule => .ok { r with rules := r.rules ++ [value] }
  | .format => once r.format { r with format := some value }
  | .settings =>
    if value.isEmpty then .error .emptyPath else once r.settings { r with settings := some value }
  | .journal =>
    if value.isEmpty then .error .emptyPath else once r.journal { r with journal := some value }
  | _ => .error (.unexpectedValue flag)

/-- The request with an option that has no value. -/
def setFlag (r : Request) (flag : Flag) : Except UsageError Request :=
  let once (old : Bool) (new : Request) : Except UsageError Request :=
    if old then .error (.repeated flag) else .ok new
  match flag with
  | .json => once r.json { r with json := true }
  | .verbose => once r.verbose { r with verbose := true }
  | .noSettings => once r.noSettings { r with noSettings := true }
  | .listRules => once r.listRules { r with listRules := true }
  | _ => .error (.missingValue flag)

/-- The request is complete and does not contradict itself. -/
def checked (r : Request) : Except UsageError Request :=
  if r.json && r.format.isSome then .error .jsonWithFormat
  else if r.paths.isEmpty && !r.listRules then .error .noPath
  else .ok r

end Request

/-! ## Reading arguments -/

/-- What an argument leads to. -/
inductive Progress where
  /-- the argument has been read -/
  | read (request : Request)
  /-- the next argument is the value of an option -/
  | awaits (request : Request) (flag : Flag)
  /-- nothing more is read -/
  | stop (invocation : Invocation)

/-- What an option without a value leads to. -/
def Progress.ofFlag (r : Request) (flag : Flag) : Except UsageError Progress :=
  match flag with
  | .version => .ok (.stop .showVersion)
  | .help => .ok (.stop .showHelp)
  | _ => (r.setFlag flag).map .read

/-- What the letters behind a single dash lead to. The letters behind an option with a value are
that value; an equals sign before it does not count. -/
def Progress.ofLetters (argument : String) : Request → List Char → Except UsageError Progress
  | r, [] => .ok (.read r)
  | r, letter :: letters =>
    match Flag.ofLetter? letter with
    | none => .error (.unknownOption argument)
    | some flag =>
      if flag.takesValue then
        match letters with
        | [] => .ok (.awaits r flag)
        | '=' :: value => (r.setValue flag (String.ofList value)).map .read
        | value => (r.setValue flag (String.ofList value)).map .read
      else
        match Progress.ofFlag r flag with
        | .ok (.read r) => Progress.ofLetters argument r letters
        | other => other

/-- What the text behind two dashes leads to. -/
def Progress.ofLong (argument : String) (r : Request) (text : List Char) :
    Except UsageError Progress :=
  let (name, value) :=
    match Text.splitFirst '=' text with
    | some (name, value) => (name, some (String.ofList value))
    | none => (text, none)
  match Flag.ofName? (String.ofList name), value with
  | none, _ => .error (.unknownOption argument)
  | some flag, some value =>
    if flag.takesValue then (r.setValue flag value).map .read else .error (.unexpectedValue flag)
  | some flag, none => if flag.takesValue then .ok (.awaits r flag) else Progress.ofFlag r flag

/-- What one argument leads to. -/
def Progress.ofArgument (r : Request) (argument : String) : Except UsageError Progress :=
  match argument.toList with
  | '-' :: '-' :: text => Progress.ofLong argument r text
  | '-' :: letter :: letters => Progress.ofLetters argument r (letter :: letters)
  | _ => (r.addPath argument).map .read

/-- The argument is an option, and not a value. -/
def isOption (argument : String) : Bool :=
  match argument.toList with
  | '-' :: _ :: _ => true
  | _ => false

/-- Reads arguments, given what the ones before have led to. -/
def Invocation.readFrom : Request → List String → Except UsageError Invocation
  | r, [] => r.checked.map .run
  | r, "--" :: paths => ((paths.foldlM Request.addPath r).bind Request.checked).map .run
  | r, argument :: rest =>
    match Progress.ofArgument r argument with
    | .error e => .error e
    | .ok (.stop invocation) => .ok invocation
    | .ok (.read r) => Invocation.readFrom r rest
    | .ok (.awaits r flag) =>
      match rest with
      | [] => .error (.missingValue flag)
      | value :: rest =>
        if isOption value then .error (.missingValue flag)
        else
          match r.setValue flag value with
          | .ok r => Invocation.readFrom r rest
          | .error e => .error e

/-- What the arguments of the command line ask for. -/
def Invocation.ofArguments (arguments : List String) : Except UsageError Invocation :=
  Invocation.readFrom {} arguments

end Vintage.Command
