import Vintage.Collection
import Vintage.Command.Request
import Vintage.Journal
import Vintage.Report.Format
import Vintage.Rule

/-!
# Runs

A run looks at the files of a tree and ends with an exit code and what it has written. It is a
function of what it is asked to do and of where it takes place.

* `Surroundings` — where a run takes place.
* `RunError` — why a run stops early.
* `scanFile` — what there is to say about one file.
* `run` — a whole run, with its outcome.
-/

namespace Vintage.Command

/-- Where a run takes place. -/
structure Surroundings where
  tree : FileTree
  /-- the directory that paths start from -/
  directory : FilePlace := []
  colours : Bool := false
  /-- the time of all messages of the journal -/
  time : String := ""

/-- The directory that paths start from, as a path. -/
def Surroundings.directoryPath (s : Surroundings) : Path :=
  ⟨true, if s.directory.isEmpty then [""] else s.directory⟩

/-- Why a run stops early. -/
inductive RunError where
  | journal (path : String) (reason : FileError)
  | settings (reason : Settings.LoadError)
  | format (name : String)
  | target (reason : Settings.TargetError)
  | rule (reason : RuleError)
  | noRules
deriving DecidableEq, Repr

/-- The wording of a run error. -/
def RunError.message : RunError → String
  | journal path reason => "Failed to open log file " ++ path ++ ": " ++ reason.message
  | settings reason => reason.message
  | format name =>
    "Invalid output format '" ++ name ++ "'. Valid options: text, json, raw, github"
  | target reason => reason.message
  | rule reason => "Use --list-sniffs to see available sniffs: " ++ reason.message
  | noRules => "No sniffs enabled"

/-- What a run has written so far. -/
structure Session where
  tree : FileTree
  /-- the place of the journal, if one is kept -/
  journal : Option FilePlace := none
  out : String := ""
  err : String := ""

/-- A part of a run. -/
abbrev Action := ExceptT RunError (StateM Session)

/-- Writes to the standard output. -/
def print (text : String) : Action Unit := modify fun s => { s with out := s.out ++ text }

/-- Writes to the standard error. -/
def warn (text : String) : Action Unit := modify fun s => { s with err := s.err ++ text }

/-- Writes an event to the journal, if one is kept. -/
def note (time : String) (event : Event) : Action Unit :=
  modify fun s =>
    match s.journal with
    | some place => { s with tree := s.tree.append place (Journal.entry time event) }
    | none => s

/-! ## One file -/

/-- What a scan of a file has brought: its events and its report. -/
structure Scan where
  events : List Event
  report : FileReport
deriving DecidableEq, Repr

/-- The names of the functions that the rules leave alone in a listing. -/
def exemptions (l : Listing) (t : Target) (rules : List String) : List String :=
  if rules.contains Rule.removedExtensions.name then Check.exemptedCalls l t else []

/-- Looks at one file. -/
def scanFile (tree : FileTree) (origin : FilePlace) (t : Target) (rules : List String)
    (path : Path) : Scan :=
  match tree.read origin path with
  | .error reason =>
    let message := "Failed to read file: " ++ path.text ++ ": " ++ reason.message
    { events := [], report := .failed path.text message }
  | .ok bytes =>
    let listing := Listing.ofText (Text.Utf8.decodeLossy bytes)
    let findings := Rule.findAll listing t rules
    { events :=
        ((exemptions listing t rules).map fun name => .exempted name "function_whitelist")
          ++ [.fileScanned path.text listing.size findings.length]
      report := .scanned path.text findings }

/-! ## The steps of a run -/

/-- Starts the journal, if one is asked for. -/
def openJournal (s : Surroundings) (r : Request) : Action Unit := do
  match r.journal with
  | none => return ()
  | some path =>
    match (← get).tree.clear s.directory (.ofText path) with
    | .ok (tree, place) =>
      modify fun session => { session with tree := tree, journal := some place }
    | .error reason => throw (.journal path reason)

/-- The settings of a file. -/
def loadSettings (s : Surroundings) (path : Path) : Action Settings := do
  note s.time (.settingsLoad path.text)
  match Settings.load (← get).tree s.directory path with
  | .ok settings => return settings
  | .error reason => throw (.settings reason)

/-- The settings of a run: of the file asked for, or of the nearest one above. -/
def chooseSettings (s : Surroundings) (r : Request) : Action Settings := do
  if r.noSettings then return {}
  match r.settings with
  | some path => loadSettings s (.ofText path)
  | none =>
    match Settings.search (← get).tree s.directory s.directoryPath with
    | none => return {}
    | some path =>
      let settings ← loadSettings s path
      if r.verbose then
        warn (Report.Style.paint s.colours [.bold] "Using config" ++ ": " ++ path.text ++ "\n")
      return settings

/-- The format of the report. -/
def chooseFormat (settings : Settings) (r : Request) : Action Report.Format := do
  if r.json then return .json
  let name := (r.format <|> settings.format).getD "text"
  match Report.Format.ofName? name with
  | some format => return format
  | none => throw (.format name)

/-- What to check for. -/
def chooseTarget (s : Surroundings) (settings : Settings) (r : Request) : Action Target := do
  match settings.target r.testVersion with
  | .error reason => throw (.target reason)
  | .ok target =>
    if !target.exempt.isEmpty then
      note s.time (.namesGiven "function_whitelist" target.exempt.size)
    note s.time (.rangeChosen target.range (settings.rangeText r.testVersion).2.text)
    return target

/-- The names of the rules to run, in ascending order. -/
def chooseRules (s : Surroundings) (settings : Settings) (r : Request) : Action (List String) := do
  let names := settings.ruleNames Rule.names r.rules
  match Rule.checkNames names with
  | .error reason => throw (.rule reason)
  | .ok () =>
    if names.isEmpty then throw .noRules
    note s.time (.rulesChosen names)
    return names

/-- The versions aimed at, in words. -/
def versionsText (range : VersionRange) : String :=
  if range.isAll then "all versions" else range.text

/-- Looks at one file and writes down what happens. -/
def scanNext (s : Surroundings) (target : Target) (rules : List String) (path : Path) :
    Action FileReport := do
  let scan := scanFile (← get).tree s.directory target rules path
  scan.events.forM (note s.time)
  return scan.report

/-- Adds a file to the report. -/
def reportFile (s : Surroundings) (manner : Report.Manner) (report : Report) (file : FileReport) :
    Action Report := do
  match file with
  | .failed path reason => note s.time (.fileFailed path reason)
  | .scanned _ _ => pure ()
  print (manner.filePart file)
  warn (manner.fileWarning file)
  return report.add file

/-- The release of the program. -/
def release : String := "0.1.0"

/-- Looks at the files asked for and reports on them. -/
def check (s : Surroundings) (r : Request) : Action Nat := do
  openJournal s r
  let settings ← chooseSettings s r
  let format ← chooseFormat settings r
  let target ← chooseTarget s settings r
  let rules ← chooseRules s settings r
  let manner : Report.Manner := { format := format, verbose := r.verbose, colours := s.colours }
  let versions := versionsText target.range
  if r.verbose && format == .text then
    print (Report.Style.paint s.colours [.bold] "Test version" ++ ": " ++ versions ++ "\n")
    print (Report.Style.paint s.colours [.bold] "Sniffs" ++ ": " ++ Text.joinWith ", " rules
      ++ "\n")
    print "\n"
  let found := Collection.ofPaths (← get).tree s.directory settings.excludes
    (r.paths.map Path.ofText)
  note s.time (.scanStart found.files.length)
  let files ← found.files.mapM (scanNext s target rules)
  for path in found.missing do
    warn (Report.Style.paint s.colours [.yellow] "Warning" ++ ": Path does not exist: " ++ path.text
      ++ "\n")
  let report ← files.foldlM (reportFile s manner) {}
  note s.time (.scanComplete report.tally.files report.tally.errors report.tally.warnings)
  print (manner.lastPart release versions report)
  return report.tally.exitCode

/-- The rules and what they look for. -/
def ruleList (colours : Bool) : String :=
  Report.Style.paint colours [.bold] "Available sniffs:" ++ "\n"
    ++ String.join (Rule.all.map fun rule =>
      "  " ++ Report.Style.paint colours [.green] rule.name ++ " - " ++ rule.description ++ "\n")

/-! ## Whole runs -/

/-- How a run has ended. -/
structure Outcome where
  exitCode : Nat
  out : String := ""
  err : String := ""
  tree : FileTree
  /-- the place of the journal, if one has been kept -/
  journal : Option FilePlace := none

/-- A run that looks at files. An error is written to the standard error and ends it with 1. -/
def runRequest (s : Surroundings) (r : Request) : Outcome :=
  if r.listRules then { exitCode := 0, out := ruleList s.colours, tree := s.tree }
  else
    match (check s r).run.run { tree := s.tree } with
    | (.ok code, session) =>
      { exitCode := code, out := session.out, err := session.err, tree := session.tree,
        journal := session.journal }
    | (.error e, session) =>
      let complaint := Report.Style.paint s.colours [.red] "Error" ++ ": " ++ e.message ++ "\n"
      { exitCode := 1, out := session.out, err := session.err ++ complaint, tree := session.tree,
        journal := session.journal }

/-- The line with the name and the release of the program. -/
def versionLine : String := "phpcompat " ++ release ++ "\n"

/-- How to use the program. -/
def helpText : String :=
  "Check PHP code for compatibility across PHP versions\n\n"
    ++ "Usage: phpcompat [OPTIONS] [PATHS]...\n\n"
    ++ "Options:\n"
    ++ "  -t, --test-version <VERSION>  PHP versions to check against, such as 5.6-8.1\n"
    ++ "  -s, --sniff <SNIFF>           Sniff to run; may be given several times\n"
    ++ "      --format <FORMAT>         Output format: text, json, raw, github\n"
    ++ "      --json                    Shorthand for --format json\n"
    ++ "  -v, --verbose                 Show verbose output\n"
    ++ "      --config <PATH>           Path to config file\n"
    ++ "      --no-config               Ignore config files\n"
    ++ "      --log-file <PATH>         Write a log of the run to this file\n"
    ++ "      --list-sniffs             List available sniffs and exit\n"
    ++ "  -h, --help                    Print help\n"
    ++ "  -V, --version                 Print version\n"

/-- A run with the given arguments of the command line. -/
def run (s : Surroundings) (arguments : List String) : Except UsageError Outcome :=
  match Invocation.ofArguments arguments with
  | .error e => .error e
  | .ok .showVersion => .ok { exitCode := 0, out := versionLine, tree := s.tree }
  | .ok .showHelp => .ok { exitCode := 0, out := helpText, tree := s.tree }
  | .ok (.run request) => .ok (runRequest s request)

end Vintage.Command
