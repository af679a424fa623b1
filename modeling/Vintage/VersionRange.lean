import Vintage.Version

/-!
# Ranges of PHP versions

A range has a lower and an upper bound, both inclusive and both optional. Bounds are compared
loosely, so the range `7.0` holds every `7.0.x`.

* `VersionRange.ofBounds` — refuses a lower bound above the upper one.
* `VersionRange.parse`, `VersionRange.text` — reading and writing `7.2`, `5.3-7.0`, `-7.0`, `5.3-`.
* `reachesDown`, `reachesUp`, `contains` — where the range lies with respect to a version.
-/

namespace Vintage

/-- An inclusive range of versions; a missing bound constrains nothing. -/
structure VersionRange where
  low : Option Version := none
  high : Option Version := none
deriving DecidableEq, Repr

/-- Why a text or a pair of bounds is not a range. -/
inductive RangeError where
  /-- the text has the wrong shape -/
  | malformed (text : String)
  /-- the lower bound is loosely above the upper bound -/
  | inverted (low high : Version)
deriving DecidableEq, Repr

namespace RangeError

/-- The wording of a range error. -/
def message : RangeError → String
  | malformed text => "Invalid testVersion setting: '" ++ text ++ "'"
  | inverted low high =>
    "Invalid range in testVersion setting: '" ++ low.text ++ "-" ++ high.text ++ "'"

end RangeError

namespace VersionRange

/-- The range of all versions. -/
def all : VersionRange := {}

/-- The range with the given bounds, refused if the lower one is loosely the greater. -/
def ofBounds (low high : Option Version) : Except RangeError VersionRange :=
  match low, high with
  | some l, some h =>
    if l.compareLoose h = .gt then .error (.inverted l h) else .ok { low, high }
  | _, _ => .ok { low, high }

/-- A bound as written: nothing, or a version. The outer `none` is a malformed bound. -/
def bound? (cs : List Char) : Option (Option Version) :=
  if cs.isEmpty then some none else (Version.parse (String.ofList cs)).toOption.map some

/-- Reads a range; blanks around it and around its bounds are ignored. -/
def parse (text : String) : Except RangeError VersionRange :=
  let cs := Text.trimChars text.toList
  match Text.splitFirst '-' cs with
  | none =>
    match Version.parse (String.ofList cs) with
    | .ok v => .ok { low := some v, high := some v }
    | .error _ => .error (.malformed text)
  | some (before, after) =>
    match bound? (Text.trimChars before), bound? (Text.trimChars after) with
    | some none, some none => .error (.malformed text)
    | some low, some high => ofBounds low high
    | _, _ => .error (.malformed text)

/-- Neither bound is given. -/
def isAll (r : VersionRange) : Bool := r.low.isNone && r.high.isNone

/-- The range has versions loosely at or before `v`. -/
def reachesDown (r : VersionRange) (v : Version) : Bool :=
  match r.low with
  | none => true
  | some l => l.compareLoose v != .gt

/-- The range has versions loosely at or after `v`. -/
def reachesUp (r : VersionRange) (v : Version) : Bool :=
  match r.high with
  | none => true
  | some h => h.compareLoose v != .lt

/-- The version lies in the range. -/
def contains (r : VersionRange) (v : Version) : Bool :=
  let aboveLow := r.low.all fun l => l.compareLoose v != .gt
  let belowHigh := r.high.all fun h => h.compareLoose v != .lt
  aboveLow && belowHigh

/-- The written form; a range of one version is written as that version. -/
def text (r : VersionRange) : String :=
  match r.low, r.high with
  | some l, some h =>
    if l.level h && l.patch == h.patch then l.text else l.text ++ "-" ++ h.text
  | some l, none => l.text ++ "-"
  | none, some h => "-" ++ h.text
  | none, none => "-"

end VersionRange

end Vintage
