import Vintage.Text.Split
import Vintage.Verdict

/-!
# Wording of verdicts

A verdict is worded as at most two findings: one for a feature that came late, one for a feature
that went.

* `Wording.findings` — the findings of a verdict.
-/

namespace Vintage

/-- How a family of features is spoken of: `subject` has one mark `%s` for the feature. -/
structure Wording where
  subject : String

namespace Wording

/-- The finding for a feature that came late. -/
def introduction? (w : Wording) (place : Place) (base display : String) (v : Verdict) :
    Option Finding :=
  match v.absentIn, v.conditionalIn with
  | some version, _ =>
    some (.ofTemplate place .error (w.subject ++ " is not present in PHP version %s or earlier")
      [display, version.text] (base ++ "Found"))
  | none, some (version, option) =>
    some (.ofTemplate place .warning
      (w.subject ++ " is present in PHP version %s but will be disregarded unless PHP is " ++
        "compiled with %s")
      [display, version.text, option] (base ++ "ConditionalFound"))
  | none, none => none

/-- The parts of a withdrawal: phrase, version and code. -/
def withdrawalParts (v : Verdict) : List (String × Version × String) :=
  (v.deprecatedIn.map fun d => ("deprecated since PHP %s", d, "Deprecated")).toList
    ++ (v.removedIn.map fun r => ("removed since PHP %s", r, "Removed")).toList

/-- The finding for a feature that went. -/
def withdrawal? (w : Wording) (place : Place) (base display : String)
    (alternative : Option String) (v : Verdict) : Option Finding :=
  if v.isWithdrawal then
    let parts := withdrawalParts v
    let template := w.subject ++ " is " ++ Text.joinWith " and " (parts.map (·.1))
      ++ (if alternative.isSome then "; Use %s instead" else "")
    let severity := if v.removedIn.isSome then .error else .warning
    some (.ofTemplate place severity template
      (display :: parts.map (·.2.1.text) ++ alternative.toList)
      (base ++ String.join (parts.map (·.2.2))))
  else none

/-- The findings of a verdict. The code is made from `name`, the message shows `display`. -/
def findings (w : Wording) (place : Place) (name display : String)
    (alternative : Option String) (v : Verdict) : List Finding :=
  let base := codeOf name
  (w.introduction? place base display v).toList
    ++ (w.withdrawal? place base display alternative v).toList

end Wording

end Vintage
