import Vintage.Feature
import Vintage.Finding

/-!
# Verdicts

A verdict says which turns of a feature's history a range of versions reaches.

* `Feature.verdict?` — the verdict on a feature; `none` if it fits the whole range.
* `Verdict.severity?` — how bad the verdict is.
-/

namespace Vintage

/-- What a range reaches of a feature's history. -/
structure Verdict where
  /-- the last version without the feature that the range reaches down to -/
  absentIn : Option Version := none
  /-- a version that has the feature in some builds only, and the option that it needs -/
  conditionalIn : Option (Version × String) := none
  /-- the first deprecation that the range reaches up to -/
  deprecatedIn : Option Version := none
  /-- the first removal that the range reaches up to -/
  removedIn : Option Version := none
deriving DecidableEq, Repr

namespace Verdict

/-- There is nothing to report. -/
def isEmpty (v : Verdict) : Bool :=
  v.absentIn.isNone && v.conditionalIn.isNone && v.deprecatedIn.isNone && v.removedIn.isNone

/-- The feature came too late for a part of the range. -/
def isIntroduction (v : Verdict) : Bool := v.absentIn.isSome

/-- The feature was deprecated or removed too early for a part of the range. -/
def isWithdrawal (v : Verdict) : Bool := v.deprecatedIn.isSome || v.removedIn.isSome

/-- How bad it is that the feature came late. -/
def introductionSeverity? (v : Verdict) : Option Severity :=
  if v.absentIn.isSome then some .error
  else if v.conditionalIn.isSome then some .warning
  else none

/-- How bad it is that the feature went. -/
def withdrawalSeverity? (v : Verdict) : Option Severity :=
  if v.removedIn.isSome then some .error
  else if v.deprecatedIn.isSome then some .warning
  else none

/-- How bad the verdict is as a whole. -/
def severity? (v : Verdict) : Option Severity :=
  match v.introductionSeverity?, v.withdrawalSeverity? with
  | some a, some b => some (a.max b)
  | a, b => a.or b

/-- Takes one fact into account; facts come in ascending order of versions. -/
def add (range : VersionRange) (v : Verdict) (fact : Fact) : Verdict :=
  match fact.status with
  | .absent =>
    if range.reachesDown fact.version then { v with absentIn := some fact.version } else v
  | .conditional option =>
    if range.reachesDown fact.version then
      { v with conditionalIn := some (fact.version, option) }
    else v
  | .deprecated =>
    if v.deprecatedIn.isNone && range.reachesUp fact.version then
      { v with deprecatedIn := some fact.version }
    else v
  | .removed =>
    if v.removedIn.isNone && range.reachesUp fact.version then
      { v with removedIn := some fact.version }
    else v
  | .present => v

/-- An absence makes the need of an option irrelevant. -/
def settle (v : Verdict) : Verdict :=
  if v.absentIn.isSome then { v with conditionalIn := none } else v

end Verdict

/-- The verdict on a feature for a range; `none` if it fits the whole range. -/
def Feature.verdict? (f : Feature) (range : VersionRange) : Option Verdict :=
  let verdict := (f.facts.foldl (Verdict.add range) {}).settle
  if verdict.isEmpty then none else some verdict

end Vintage
