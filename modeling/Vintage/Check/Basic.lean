import Vintage.Catalogue
import Vintage.Listing
import Vintage.NameSet
import Vintage.Wording

/-!
# Checks of a listing against a catalogue

A check looks for tokens that are uses of features, looks the features up and words the verdicts.

* `Target` — what a listing is checked for.
* `Check.report` — the findings for one feature at one position.
* `Check.run` — the findings for all tokens of given kinds.
-/

namespace Vintage

/-- What a listing is checked for. -/
structure Target where
  range : VersionRange := .all
  /-- functions that are not taken for functions of an extension -/
  exempt : NameSet := {}

/-- The place of the token at a position; line and column are zero past the end. -/
def Listing.place (l : Listing) (i : Nat) : Place :=
  match l.get? i with
  | some t => { token := i, line := t.line, column := t.column }
  | none => { token := i, line := 0, column := 0 }

/-- Features, how they are spoken of, and which tokens are uses of them. -/
structure Check where
  catalogue : Catalogue
  wording : Wording
  applies : Listing → Nat → Bool

namespace Check

/-- The findings for a feature at a position. -/
def report (c : Check) (l : Listing) (i : Nat) (f : Feature) (range : VersionRange) :
    List Finding :=
  match f.verdict? range with
  | some v => c.wording.findings (l.place i) f.name f.name f.alternative v
  | none => []

/-- The findings for the use at a position, the feature being found by the token's text. -/
def reportToken (c : Check) (l : Listing) (range : VersionRange) (i : Nat) : List Finding :=
  match (l.get? i).bind fun t => c.catalogue.find? t.text with
  | some f => c.report l i f range
  | none => []

/-- The uses among the tokens of the given kinds. -/
def uses (c : Check) (l : Listing) (kinds : List TokenKind) : List Nat :=
  (l.positionsOf kinds).filter (c.applies l)

/-- The findings for all uses among the tokens of the given kinds. -/
def run (c : Check) (l : Listing) (range : VersionRange) (kinds : List TokenKind) :
    List Finding :=
  (c.uses l kinds).flatMap (c.reportToken l range)

end Check

/-! ## Tables -/

/-- The features of a table of introductions. -/
def Feature.introduced (rows : List Feature.Introduction) : Except FeatureError (List Feature) :=
  rows.mapM Feature.ofIntroduction

/-- The features of a table of withdrawals. -/
def Feature.withdrawn (rows : List Feature.Withdrawal) : Except FeatureError (List Feature) :=
  rows.mapM Feature.ofWithdrawal

/-- The catalogue of a table; a table with a defect has no features. -/
def Catalogue.ofTable (table : Except FeatureError (List Feature)) : Catalogue :=
  match table with
  | .ok features => .ofFeatures features
  | .error _ => .ofFeatures []

end Vintage
