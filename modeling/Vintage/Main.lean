import Vintage.Command.Run
import Vintage.Journal.Clock

/-!
# The command line

Reads the part of the file system that a request is about, runs the request on it, and writes what
has come of it.
-/

namespace Vintage.Shell

open Vintage.Command

/-- The files and directories in a directory and below; links are not followed. -/
partial def gatherBelow (entry : IO.FS.DirEntry) (place : FilePlace) :
    IO (List (FilePlace × Node)) := do
  let mut found := [(place, Node.directory)]
  for child in ← entry.path.readDir do
    let childPlace := place ++ [child.fileName]
    match (← child.path.symlinkMetadata).type with
    | .dir => found := found ++ (← gatherBelow child childPlace)
    | .file => found := (childPlace, Node.file (← IO.FS.readBinFile child.path)) :: found
    | _ => pure ()
  return found

/-- What is at an absolute path, with everything below it if `deep`. -/
def gatherAt (path : Path) (place : FilePlace) (deep : Bool) : IO (List (FilePlace × Node)) := do
  let entry : IO.FS.DirEntry := { root := ← IO.currentDir, fileName := path.text }
  if ← entry.path.isDir then
    if deep then gatherBelow entry place else return [(place, .directory)]
  else if ← entry.path.pathExists then return [(place, .file (← IO.FS.readBinFile entry.path))]
  else return []

/-- Where the steps of a path lead by their names alone, one place for each step. -/
def placesOf (components : List Path.Component) : List FilePlace :=
  (components.foldl (fun (places : List FilePlace) component =>
    let last := places.head?.getD []
    match component with
    | .normal name => (last ++ [name]) :: places
    | .parent => last.dropLast :: places
    | _ => places) []).reverse

/-- What a path leads to and the directories on the way. -/
def gather (directory path : Path) (deep : Bool) : IO (List (FilePlace × Node)) := do
  let whole := directory.join path
  let places := placesOf whole.components
  let mut found := []
  for place in places.dropLast do
    found := found ++ (← gatherAt ⟨true, place⟩ place false)
  match places.getLast? with
  | some place => return (← gatherAt whole place deep) ++ found
  | none => return found

/-- The part of the file system that a request is about. -/
def gatherAll (directory : Path) (r : Request) : IO FileTree := do
  let single := r.settings.toList ++ r.journal.toList
  let mut found := []
  for above in directory.ancestors do
    found := found ++ (← gather directory (above.join (.ofText Settings.fileName)) false)
  for path in single do
    found := found ++ (← gather directory (.ofText path) false)
  for path in r.paths do
    found := found ++ (← gather directory (.ofText path) true)
  return .ofEntries found

/-- The time at which a file was last written. -/
def timeOf (directory : Path) (path : String) : IO String := do
  let entry : IO.FS.DirEntry :=
    { root := ← IO.currentDir, fileName := (directory.join (.ofText path)).text }
  let written := (← entry.path.metadata).modified
  return Clock.text (1000 * written.sec + written.nsec.toNat / 1000000)

/-- Starts the journal, and says when. -/
def startJournal (directory : Path) (r : Request) : IO String := do
  match r.journal with
  | none => return ""
  | some path =>
    try
      IO.FS.writeFile path ""
      timeOf directory path
    catch _ => return ""

/-- Writes the journal of a run. -/
def writeJournal (r : Request) (outcome : Outcome) : IO Unit := do
  match r.journal, outcome.journal.bind outcome.tree.node? with
  | some path, some (.file bytes) => IO.FS.writeBinFile path bytes
  | _, _ => return ()

/-- The wording of a usage error. -/
def usageMessage : UsageError → String
  | .unknownOption argument => "unexpected argument '" ++ argument ++ "'"
  | .missingValue _ => "an option needs a value"
  | .unexpectedValue _ => "an option has no value"
  | .repeated _ => "an option is given twice"
  | .emptyPath => "a path is empty"
  | .noPath => "no path is given"
  | .jsonWithFormat => "--json and --format exclude each other"

end Vintage.Shell

open Vintage Vintage.Command Vintage.Shell in
/-- Runs the program. -/
def main (arguments : List String) : IO UInt32 := do
  match Invocation.ofArguments arguments with
  | .error e =>
    IO.eprintln ("error: " ++ usageMessage e)
    return 2
  | .ok .showVersion =>
    IO.print versionLine
    return 0
  | .ok .showHelp =>
    IO.print helpText
    return 0
  | .ok (.run request) =>
    let directory := Path.ofText (← IO.currentDir).toString
    let tree ← gatherAll directory request
    let colours ← (← IO.getStdout).isTty
    let time ← startJournal directory request
    let place := directory.body
    let outcome := runRequest { tree, directory := place, colours, time } request
    IO.print outcome.out
    IO.eprint outcome.err
    writeJournal request outcome
    return outcome.exitCode.toUInt32
