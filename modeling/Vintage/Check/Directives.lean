import Vintage.Listing.Directive
import Vintage.Check.Basic

/-!
# Directives of `declare` statements

* `directiveFindings` — directives that are unknown, came with a later version, or have a value
  that does not look right.
-/

namespace Vintage.Check

/-- The known directives. -/
def directiveFeatures : Except FeatureError (List Feature) :=
  [("ticks", [.fact "3.1" .absent, .fact "4.0" .present, .valueCheck .ticks]),
   ("encoding", [.fact "5.2" .absent, .fact "5.3" (.conditional "--enable-zend-multibyte"),
      .fact "5.4" .present, .valueCheck .encoding]),
   ("strict_types", [.fact "5.6" .absent, .fact "7.0" .present, .valueCheck .strictTypes])].mapM
    fun ((name, entries) : String × List Feature.Entry) => Feature.ofEntries name entries

/-- Directives that came with a later version. -/
def directives : Check where
  catalogue := .ofTable directiveFeatures
  wording := ⟨"Directive %s"⟩
  applies := fun l i => l.kind? i == some .kwDeclare

/-- The finding for a directive that is not known. -/
def unknownDirective (l : Listing) (d : Directive) : Finding :=
  .ofTemplate (l.place d.position) .error
    "Declare can only be used with the directives %s. Found: %s"
    [Text.joinWith ", " (directives.catalogue.features.map Feature.name), d.name]
    "InvalidDirectiveFound"

/-- The finding for a value that does not look right. -/
def invalidValue (l : Listing) (d : Directive) (f : Feature) : Finding :=
  .ofTemplate (l.place (d.valuePosition.getD d.position)) .warning
    ("The execution directive %s does not seem to have a valid value. Please review. " ++
      "Found: %s")
    [f.name, d.value] ("Invalid" ++ codeOf f.name ++ "Found")

/-- The value of the directive is there and fails the feature's check. -/
def hasInvalidValue (d : Directive) (f : Feature) : Bool :=
  !d.value.isEmpty && f.valueCheck.any fun check => !check.accepts d.value

/-- The findings for one directive. -/
def directiveReport (l : Listing) (range : VersionRange) (d : Directive) : List Finding :=
  match directives.catalogue.find? d.name with
  | none => [unknownDirective l d]
  | some f =>
    directives.report l d.position f range
      ++ (if hasInvalidValue d f then [invalidValue l d f] else [])

/-- The findings for all directives. -/
def directiveFindings (l : Listing) (target : Target) : List Finding :=
  (directives.uses l [.kwDeclare]).flatMap fun i =>
    ((l.directives? i).getD []).flatMap (directiveReport l target.range)

end Vintage.Check
