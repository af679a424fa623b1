import Vintage.Listing.Reference
import Vintage.Check.Basic

/-!
# Interfaces that came

* `interfaceFindings` — classes and enumerations that implement an interface which came with a
  later version.
-/

namespace Vintage.Check

/-- Interfaces and the versions they came with. -/
def newInterfaceRows : List Feature.Introduction :=
  [⟨"Countable", "5.0", "5.1"⟩, ⟨"OuterIterator", "5.0", "5.1"⟩,
   ⟨"RecursiveIterator", "5.0", "5.1"⟩, ⟨"SeekableIterator", "5.0", "5.1"⟩,
   ⟨"Serializable", "5.0", "5.1"⟩, ⟨"SplObserver", "5.0", "5.1"⟩, ⟨"SplSubject", "5.0", "5.1"⟩,
   ⟨"JsonSerializable", "5.3", "5.4"⟩, ⟨"SessionHandlerInterface", "5.3", "5.4"⟩,
   ⟨"DateTimeInterface", "5.4", "5.5"⟩, ⟨"SessionIdInterface", "5.5", "5.6"⟩,
   ⟨"Throwable", "5.6", "7.0"⟩, ⟨"SessionUpdateTimestampHandlerInterface", "5.6", "7.0"⟩,
   ⟨"Stringable", "7.4", "8.0"⟩, ⟨"UnitEnum", "8.0", "8.1"⟩, ⟨"BackedEnum", "8.0", "8.1"⟩]

/-- Implemented interfaces that came with a later version. -/
def newInterfaces : Check where
  catalogue := .ofTable (Feature.introduced newInterfaceRows)
  wording := ⟨"The built-in interface %s"⟩
  applies := fun l i => l.kind? i == some .kwClass || l.kind? i == some .kwEnum

/-- The findings for one implemented interface; one in a namespace is the user's own. -/
def referenceReport (l : Listing) (range : VersionRange) (r : Reference) : List Finding :=
  if r.isNamespaced then []
  else
    match newInterfaces.catalogue.find? r.shortName with
    | some f => newInterfaces.report l r.position f range
    | none => []

/-- The findings for all implemented interfaces. -/
def interfaceFindings (l : Listing) (target : Target) : List Finding :=
  (newInterfaces.uses l [.kwClass, .kwEnum]).flatMap fun i =>
    (l.interfaces i).flatMap (referenceReport l target.range)

end Vintage.Check
