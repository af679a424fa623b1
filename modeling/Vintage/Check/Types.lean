import Vintage.Listing.Scope
import Vintage.Listing.Signature
import Vintage.Check.Basic

/-!
# Types that came

* `typeFindings` — parameter and return types that came with a later version.
-/

namespace Vintage.Check

/-- Types of parameters and the versions they came with. -/
def parameterTypeRows : List Feature.Introduction :=
  [⟨"array", "5.0", "5.1"⟩, ⟨"self", "5.1", "5.2"⟩, ⟨"callable", "5.3", "5.4"⟩,
   ⟨"bool", "5.6", "7.0"⟩, ⟨"int", "5.6", "7.0"⟩, ⟨"float", "5.6", "7.0"⟩,
   ⟨"string", "5.6", "7.0"⟩, ⟨"iterable", "7.0", "7.1"⟩, ⟨"object", "7.1", "7.2"⟩,
   ⟨"mixed", "7.4", "8.0"⟩, ⟨"false", "7.4", "8.0"⟩, ⟨"null", "7.4", "8.0"⟩,
   ⟨"true", "8.1", "8.2"⟩]

/-- Types of results and the versions they came with. -/
def returnTypeRows : List Feature.Introduction :=
  [⟨"array", "5.6", "7.0"⟩, ⟨"callable", "5.6", "7.0"⟩, ⟨"bool", "5.6", "7.0"⟩,
   ⟨"int", "5.6", "7.0"⟩, ⟨"float", "5.6", "7.0"⟩, ⟨"string", "5.6", "7.0"⟩,
   ⟨"self", "5.6", "7.0"⟩, ⟨"parent", "5.6", "7.0"⟩, ⟨"void", "7.0", "7.1"⟩,
   ⟨"iterable", "7.0", "7.1"⟩, ⟨"object", "7.1", "7.2"⟩, ⟨"static", "7.4", "8.0"⟩,
   ⟨"mixed", "7.4", "8.0"⟩, ⟨"false", "7.4", "8.0"⟩, ⟨"null", "7.4", "8.0"⟩,
   ⟨"never", "8.0", "8.1"⟩, ⟨"true", "8.1", "8.2"⟩]

/-- The token is the keyword of a function. -/
def isFunctionKeyword (l : Listing) (i : Nat) : Bool :=
  l.kind? i == some .kwFunction || l.kind? i == some .kwFn

/-- Parameter types that came with a later version. -/
def parameterTypes : Check where
  catalogue := .ofTable (Feature.introduced parameterTypeRows)
  wording := ⟨"'%s' type declaration"⟩
  applies := isFunctionKeyword

/-- Return types that came with a later version. -/
def returnTypes : Check where
  catalogue := .ofTable (Feature.introduced returnTypeRows)
  wording := ⟨"%s return type"⟩
  applies := isFunctionKeyword

/-- The findings for the names in a type. The names `self` and `parent` have a meaning inside a
class only. -/
def typeReport (c : Check) (l : Listing) (range : VersionRange) (inClass : Bool)
    (type : TypeHint) : List Finding :=
  type.names.flatMap fun name =>
    if !inClass && (name == "self" || name == "parent") then []
    else
      match c.catalogue.find? name with
      | some f => c.report l type.start f range
      | none => []

/-- The findings for the signature of one function. -/
def signatureReport (l : Listing) (range : VersionRange) (i : Nat) : List Finding :=
  let inClass := (l.enclosing? i ScopeKind.withMembers).isSome
  (((l.parameters? i).getD []).filterMap Parameter.type).flatMap
      (typeReport parameterTypes l range inClass)
    ++ (l.returnType? i).toList.flatMap (typeReport returnTypes l range inClass)

/-- The findings for all signatures. -/
def typeFindings (l : Listing) (target : Target) : List Finding :=
  (parameterTypes.uses l [.kwFunction, .kwFn]).flatMap (signatureReport l target.range)

end Vintage.Check
