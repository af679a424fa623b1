import Vintage.ValueCheck
import Vintage.VersionRange

/-!
# Features and their history

A feature is something of the language with a history: in which versions it was absent, present,
deprecated, removed, or there only in some builds.

* `Feature.ofEntries` — the feature that a list of entries describes, or what is wrong with them.
* `Feature.introducedIn?` — when the feature came.
* `Feature.ofIntroduction`, `Feature.ofWithdrawal` — features from rows of a table.
-/

namespace Vintage

/-- What a version has of a feature. -/
inductive Status where
  /-- not there yet -/
  | absent
  | present
  | deprecated
  /-- no longer there -/
  | removed
  /-- there in builds with the given option -/
  | conditional (option : String)
deriving DecidableEq, Repr

/-- The feature can be used in such a version, if only in some builds. -/
def Status.isAvailable : Status → Bool
  | .present | .conditional _ => true
  | _ => false

/-- A version and its status. -/
structure Fact where
  version : Version
  status : Status
deriving DecidableEq, Repr

/-- What is wrong with the description of a feature. -/
inductive FeatureError where
  | badVersion (feature key : String)
  | duplicateVersion (feature : String) (version : Version)
  /-- available in a version after one without it -/
  | returnsAfterRemoval (feature : String) (version : Version)
  | undeclaredNote (feature key : String)
  | noFacts (feature : String)
deriving DecidableEq, Repr

namespace FeatureError

/-- The wording of a feature error. -/
def message : FeatureError → String
  | badVersion feature key => "Feature '" ++ feature ++ "': invalid version key '" ++ key ++ "'"
  | duplicateVersion feature version =>
    "Feature '" ++ feature ++ "': version " ++ version.text ++ " listed more than once"
  | returnsAfterRemoval feature version =>
    "Feature '" ++ feature ++ "': present again in " ++ version.text ++ " after being removed"
  | undeclaredNote feature key =>
    "Feature '" ++ feature ++ "': metadata key '" ++ key ++ "' is not declared"
  | noFacts feature => "Feature '" ++ feature ++ "' has no version facts"

/-- The wording for a defect of a table. -/
def tableMessage (e : FeatureError) : String := "malformed feature table: " ++ e.message

end FeatureError

/-- A feature with its history, in ascending order of versions. -/
structure Feature where
  name : String
  facts : List Fact
  /-- what to use instead -/
  alternative : Option String := none
  description : Option String := none
  /-- further remarks by key, the latest first -/
  notes : List (String × String) := []
  /-- the check of a value that the feature takes -/
  valueCheck : Option ValueCheck := none
deriving DecidableEq, Repr

namespace Feature

/-- The remark with the given key. -/
def note? (f : Feature) (key : String) : Option String := f.notes.lookup key

/-- The first version in which the feature is available after an absence. -/
def introducedIn? (f : Feature) : Option Version :=
  ((f.facts.dropWhile (·.status != .absent)).find? (·.status.isAvailable)).map Fact.version

/-! ## Describing a feature -/

/-- One entry of a description. -/
inductive Entry where
  | fact (version : String) (status : Status)
  | alternative (text : String)
  | description (text : String)
  /-- the keys that later remarks may have -/
  | noteKeys (keys : List String)
  | note (key value : String)
  | valueCheck (check : ValueCheck)
deriving DecidableEq, Repr

/-- A feature that is being described. -/
structure Draft where
  feature : Feature
  noteKeys : List String := []
  /-- the first thing that was wrong -/
  error : Option FeatureError := none

namespace Draft

/-- Records an error unless there was one before. -/
def fail (d : Draft) (e : FeatureError) : Draft := { d with error := d.error.or (some e) }

/-- Records a remark; an alternative or a description is kept apart, other keys must have been
declared. -/
def addNote (d : Draft) (key value : String) : Draft :=
  if key == "alternative" then { d with feature.alternative := some value }
  else if key == "description" then { d with feature.description := some value }
  else if d.noteKeys.contains key then
    { d with feature.notes := (key, value) :: d.feature.notes }
  else d.fail (.undeclaredNote d.feature.name key)

/-- Takes one entry into account. -/
def add (d : Draft) : Entry → Draft
  | .fact text status =>
    match Version.parse text with
    | .ok version => { d with feature.facts := d.feature.facts ++ [{ version, status }] }
    | .error _ => d.fail (.badVersion d.feature.name text)
  | .alternative text => { d with feature.alternative := some text }
  | .description text => { d with feature.description := some text }
  | .noteKeys keys => { d with noteKeys := d.noteKeys ++ keys }
  | .note key value => d.addNote key value
  | .valueCheck check => { d with feature.valueCheck := some check }

end Draft

/-- The facts in ascending order; facts of one version keep their order. -/
def sortFacts (facts : List Fact) : List Fact :=
  facts.mergeSort fun a b => a.version.compare b.version != .gt

/-- The second of the first two neighbours with the same version. -/
def duplicate? : List Fact → Option Version
  | a :: b :: rest => if a.version.level b.version then some b.version else duplicate? (b :: rest)
  | _ => none

/-- The first version after a removal in which the feature is available. -/
def return? (facts : List Fact) : Option Version :=
  ((facts.dropWhile (·.status != .removed)).find? (·.status.isAvailable)).map Fact.version

/-- Checks the history of a described feature. -/
def ofDraft (d : Draft) : Except FeatureError Feature :=
  match d.error with
  | some e => .error e
  | none =>
    if d.feature.facts.isEmpty then .error (.noFacts d.feature.name)
    else
      let facts := sortFacts d.feature.facts
      match duplicate? facts, return? facts with
      | some version, _ => .error (.duplicateVersion d.feature.name version)
      | none, some version => .error (.returnsAfterRemoval d.feature.name version)
      | none, none => .ok { d.feature with facts }

/-- The feature that the entries describe. -/
def ofEntries (name : String) (entries : List Entry) : Except FeatureError Feature :=
  ofDraft (entries.foldl Draft.add { feature := { name, facts := [] } })

/-! ## Rows of tables -/

/-- A row for something that came with a version. -/
structure Introduction where
  name : String
  /-- the last version without it -/
  absent : String
  /-- the first version with it -/
  present : String

/-- A row for something that was deprecated or removed. -/
structure Withdrawal where
  name : String
  deprecated : Option String := none
  removed : Option String := none
  alternative : Option String := none

/-- The entries of a withdrawal. -/
def Withdrawal.entries (row : Withdrawal) : List Entry :=
  (row.deprecated.map fun v => Entry.fact v .deprecated).toList
    ++ (row.removed.map fun v => Entry.fact v .removed).toList
    ++ (row.alternative.map Entry.alternative).toList

/-- The entries of an introduction. -/
def Introduction.entries (row : Introduction) : List Entry :=
  [.fact row.absent .absent, .fact row.present .present]

/-- The feature of a row. -/
def ofIntroduction (row : Introduction) : Except FeatureError Feature :=
  ofEntries row.name row.entries

/-- The feature of a row. -/
def ofWithdrawal (row : Withdrawal) : Except FeatureError Feature :=
  ofEntries row.name row.entries

end Feature

end Vintage
