import Vintage.Check.Basic

/-!
# Keywords that came

* `keywordFindings` — keywords and constructs that came with a later version.
-/

namespace Vintage.Check

/-- A row for a keyword. -/
structure KeywordRow where
  keyword : String
  /-- the last version without it -/
  absent : String
  /-- the first version with it -/
  present : String
  description : String

/-- The feature of a keyword. -/
def KeywordRow.feature (row : KeywordRow) : Except FeatureError Feature :=
  Feature.ofEntries row.keyword
    [.fact row.absent .absent, .fact row.present .present, .description row.description]

/-- Keywords and the versions they came with. -/
def keywordRows : List KeywordRow :=
  [⟨"__halt_compiler", "5.0", "5.1", "\"__halt_compiler\" keyword"⟩,
   ⟨"goto", "5.2", "5.3", "\"goto\" keyword"⟩,
   ⟨"namespace", "5.2", "5.3", "\"namespace\" keyword"⟩,
   ⟨"use", "5.2", "5.3", "\"use\" keyword (for traits/namespaces/anonymous functions)"⟩,
   ⟨"__dir__", "5.2", "5.3", "__DIR__ magic constant"⟩,
   ⟨"__namespace__", "5.2", "5.3", "__NAMESPACE__ magic constant"⟩,
   ⟨"nowdoc", "5.2", "5.3", "Nowdoc functionality"⟩,
   ⟨"trait", "5.3", "5.4", "\"trait\" keyword"⟩,
   ⟨"insteadof", "5.3", "5.4", "\"insteadof\" keyword (for traits)"⟩,
   ⟨"__trait__", "5.3", "5.4", "__TRAIT__ magic constant"⟩,
   ⟨"yield", "5.4", "5.5", "\"yield\" keyword (for generators)"⟩,
   ⟨"finally", "5.4", "5.5", "\"finally\" keyword (in exception handling)"⟩,
   ⟨"yield from", "5.6", "7.0", "\"yield from\" keyword (for generators)"⟩,
   ⟨"fn", "7.3", "7.4", "The \"fn\" keyword for arrow functions"⟩,
   ⟨"match", "7.4", "8.0", "The \"match\" keyword"⟩,
   ⟨"enum", "8.0", "8.1", "The \"enum\" keyword"⟩,
   ⟨"readonly", "8.0", "8.1", "The \"readonly\" keyword"⟩]

/-- The kinds of tokens that are looked up. -/
def keywordKinds : List TokenKind :=
  [.kwHaltCompiler, .kwGoto, .kwNamespace, .kwUse, .magicConstant, .nowdoc, .kwTrait,
   .kwInsteadof, .kwYield, .kwFinally, .kwFn, .kwMatch, .kwEnum, .kwReadonly]

/-- Keywords that came with a later version. -/
def newKeywords : Check where
  catalogue := .ofTable (keywordRows.mapM KeywordRow.feature)
  wording := ⟨"%s"⟩
  applies := fun l i => (l.kind? i).any keywordKinds.contains

/-- The name `from` follows. -/
def followedByFrom (l : Listing) (i : Nat) : Bool :=
  ((l.next? i).bind l.get?).any fun t => t.kind == .name && t.spells "from"

/-- The key under which the keyword at a position is found. -/
def keywordKey (l : Listing) (i : Nat) (t : Token) : String :=
  match t.kind with
  | .nowdoc => "nowdoc"
  | .kwYield => if followedByFrom l i then "yield from" else "yield"
  | _ => Text.lower t.text

/-- The findings for the keyword at a position, worded with the keyword's description. -/
def keywordReport (l : Listing) (range : VersionRange) (i : Nat) : List Finding :=
  match (l.get? i).bind fun t => newKeywords.catalogue.find? (keywordKey l i t) with
  | none => []
  | some f =>
    match f.verdict? range with
    | some v =>
      newKeywords.wording.findings (l.place i) f.name (f.description.getD f.name) f.alternative v
    | none => []

/-- The findings for all keywords. -/
def keywordFindings (l : Listing) (target : Target) : List Finding :=
  (newKeywords.uses l keywordKinds).flatMap (keywordReport l target.range)

end Vintage.Check
