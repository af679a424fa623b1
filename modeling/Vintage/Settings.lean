import Vintage.Check.Basic
import Vintage.FileTree
import Vintage.Settings.Toml.Document
import Vintage.Wildcard

/-!
# Settings

What a settings file says about a run.

* `Settings.ofValue?` — the settings that a value describes.
* `Settings.load`, `Settings.search` — the settings of a file, or of the nearest file above.
* `Settings.ruleNames` — the rules to run.
* `Settings.target` — the versions aimed at.
* `Settings.excludes` — the paths to leave out.
-/

namespace Vintage

/-- Names given in one text or as a list. -/
inductive GivenNames where
  | joined (text : String)
  | items (names : List String)
deriving DecidableEq, Repr

/-- The set of the names given. -/
def GivenNames.toSet : GivenNames → NameSet
  | joined text => .ofText text
  | items names => .ofList names

/-- What a settings file can say. -/
structure Settings where
  /-- the versions aimed at -/
  testVersion : Option String := none
  /-- the rules to run, if not all -/
  enabled : Option (List String) := none
  /-- the rules not to run -/
  disabled : List String := []
  /-- functions that are not taken for functions of an extension -/
  exempt : Option GivenNames := none
  /-- patterns for paths to leave out -/
  exclude : List String := []
  /-- directories of other people's packages are not left out -/
  includeDependencies : Bool := false
  /-- how to report -/
  format : Option String := none
deriving DecidableEq, Repr

namespace Settings

/-! ## Reading settings -/

/-- Names given in one text or as a list. -/
def givenNames? (v : Value) : Option GivenNames :=
  match v.text? with
  | some s => some (.joined s)
  | none => v.texts?.map .items

/-- A record, or what it has for the given fields when it is left out. -/
def fields? (exact : Bool) (names : List String) : Option Value → Option (List (Option Value)) :=
  Value.withDefault? (names.map fun _ => none) (Value.record? exact names)

/-- The settings that a value describes. What is left out keeps its default, and what is not known
is ignored. `exact` says that records given as lists may not have further items. -/
def ofValue? (exact : Bool) (v : Value) : Option Settings := do
  let [php, rules, paths, output] ← v.record? exact ["php", "sniffs", "paths", "output"] | none
  let [testVersion] ← fields? exact ["test_version"] php | none
  let testVersion ← Value.optional? Value.text? testVersion
  let [enabled, disabled, options] ← fields? exact ["enabled", "disabled", "options"] rules | none
  let enabled ← Value.optional? Value.texts? enabled
  let disabled ← Value.withDefault? [] Value.texts? disabled
  let [exempt] ← fields? exact ["function_whitelist"] options | none
  let exempt ← Value.optional? givenNames? exempt
  let [exclude, dependencies] ← fields? exact ["exclude", "include_dependencies"] paths | none
  let exclude ← Value.withDefault? [] Value.texts? exclude
  let dependencies ← Value.withDefault? false Value.flag? dependencies
  let [format] ← fields? exact ["format"] output | none
  let format ← Value.optional? Value.text? format
  return {
    testVersion := testVersion
    enabled := enabled
    disabled := disabled
    exempt := exempt
    exclude := exclude
    includeDependencies := dependencies
    format := format }

/-- The settings in the text of a settings file. -/
def ofText? (text : String) : Option Settings :=
  match Toml.document? text with
  | some v => ofValue? false v
  | none => none

/-! ## Settings files -/

/-- The name of the file in which settings are looked for. -/
def fileName : String := ".phpcompat.toml"

/-- Why the settings of a file cannot be had. -/
inductive LoadError where
  | unreadable (path : String) (reason : FileError)
  | malformed (path : String)
deriving DecidableEq, Repr

/-- The wording of a load error. -/
def LoadError.message : LoadError → String
  | unreadable path reason => "Failed to read " ++ path ++ ": " ++ reason.message
  | malformed path => "Failed to parse " ++ path

/-- The settings of a file. -/
def load (tree : FileTree) (origin : FilePlace) (path : Path) : Except LoadError Settings :=
  match tree.readText origin path with
  | .error reason => .error (.unreadable path.text reason)
  | .ok text =>
    match ofText? text with
    | some settings => .ok settings
    | none => .error (.malformed path.text)

/-- The nearest settings file in a directory or above it. -/
def search (tree : FileTree) (origin : FilePlace) (directory : Path) : Option Path :=
  (directory.ancestors.map fun dir => dir.join (.ofText fileName)).find?
    (tree.leadsSomewhere origin)

/-! ## What settings say -/

/-- Names in ascending order, each once. -/
def sortedNames (names : List String) : List String :=
  (names.mergeSort fun a b => decide (a ≤ b)).eraseDups

/-- The names of the rules to run, in ascending order. Rules named on the command line count
alone. -/
def ruleNames (s : Settings) (all requested : List String) : List String :=
  if requested.isEmpty then
    sortedNames ((s.enabled.getD all).filter fun name => !s.disabled.contains name)
  else sortedNames requested

/-- Where the versions aimed at were said. -/
inductive RangeSource where
  | commandLine
  | file
  | nowhere
deriving DecidableEq, Repr

/-- The name of a source. -/
def RangeSource.text : RangeSource → String
  | commandLine => "cli"
  | file => "config"
  | nowhere => "default"

/-- Why there is nothing to aim at. -/
structure TargetError where
  source : RangeSource
  reason : RangeError
deriving DecidableEq, Repr

/-- The wording of a target error. -/
def TargetError.message (e : TargetError) : String :=
  "Invalid test version (from " ++ e.source.text ++ "): " ++ e.reason.message

/-- The versions as they were said, and where; the command line comes before the file. -/
def rangeText (s : Settings) (requested : Option String) : Option String × RangeSource :=
  match requested, s.testVersion with
  | some text, _ => (some text, .commandLine)
  | none, some text => (some text, .file)
  | none, none => (none, .nowhere)

/-- The names to leave alone. -/
def exemptNames (s : Settings) : NameSet :=
  match s.exempt with
  | some names => names.toSet
  | none => {}

/-- What to check for; without a version, all of them. -/
def target (s : Settings) (requested : Option String) : Except TargetError Target :=
  match s.rangeText requested with
  | (none, _) => .ok { range := .all, exempt := s.exemptNames }
  | (some text, source) =>
    match VersionRange.parse text with
    | .ok range => .ok { range := range, exempt := s.exemptNames }
    | .error reason => .error ⟨source, reason⟩

/-! ## Paths to leave out -/

/-- Directories that hold other people's packages. -/
def dependencyDirectories : List String := ["vendor", "node_modules"]

/-- The lists that a list starts with, the empty one excepted. -/
def leading {α : Type} : List α → List (List α)
  | [] => []
  | a :: as => [a] :: (leading as).map (a :: ·)

/-- The text without a slash at its end, if it has one. -/
def dropSlash? (text : String) : Option String :=
  match text.toList.reverse with
  | '/' :: rest => some (String.ofList rest.reverse)
  | _ => none

/-- A pattern with a slash at its end is for directories, by name or by the way that leads to them;
any other is for the whole path or the file name. `covers` says which texts a pattern is for. -/
def patternCovers (covers : String → String → Bool) (path : Path) (directories : List String)
    (pattern : String) : Bool :=
  match dropSlash? pattern with
  | some shorter =>
    directories.any (covers shorter)
      || (leading directories).any fun run => covers shorter (Text.joinWith "/" run)
  | none => covers pattern path.text || path.fileName?.any (covers pattern)

/-- The path is to be left out, if `covers` says which texts a pattern is for. -/
def excludesBy (covers : String → String → Bool) (s : Settings) (path : Path) : Bool :=
  let directories := path.directories.map Path.Component.text
  (!s.includeDependencies && directories.any dependencyDirectories.contains)
    || s.exclude.any (patternCovers covers path directories)

/-- The path is to be left out. -/
def excludes (s : Settings) (path : Path) : Bool := s.excludesBy Wildcard.coversText path

end Settings

end Vintage
