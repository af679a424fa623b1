import Vintage.Listing.Occurrence
import Vintage.Check.Basic

/-!
# Functions of extensions that went

A function belongs to the extension whose mark its name starts with, as `mysql_query` belongs to
`mysql`. Functions of the user's own that share a mark can be exempted.

* `extensionFindings` — the calls of functions of removed extensions.
* `exemptedCalls` — the calls that were left out because their function is exempt.
-/

namespace Vintage.Check

/-- A row for an extension. -/
structure ExtensionRow where
  /-- what the names of its functions start with -/
  mark : String
  extension : String
  deprecated : Option String
  removed : Option String
  alternative : Option String

/-- The feature of an extension; its name is the mark and a remark holds the extension. -/
def ExtensionRow.feature (row : ExtensionRow) : Except FeatureError Feature :=
  Feature.ofEntries row.mark
    (.noteKeys ["extension"] :: .note "extension" row.extension ::
      Feature.Withdrawal.entries ⟨row.mark, row.deprecated, row.removed, row.alternative⟩)

/-- Extensions that were deprecated or removed. -/
def extensionRows : List ExtensionRow :=
  [⟨"dbase_", "dbase", none, some "5.3", none⟩,
   ⟨"fam_", "fam", none, some "5.1", none⟩,
   ⟨"fbsql_", "fbsql", none, some "5.3", none⟩,
   ⟨"fdf_", "fdf", none, some "5.3", none⟩,
   ⟨"ibase_", "ibase", none, some "7.4", some "pecl/ibase"⟩,
   ⟨"ingres_", "ingres", none, some "5.1", some "pecl/ingres"⟩,
   ⟨"mcrypt_", "mcrypt", some "7.1", some "7.2", some "openssl (preferred) or pecl/mcrypt"⟩,
   ⟨"ming_", "ming", none, some "5.3", some "pecl/ming"⟩,
   ⟨"msql_", "msql", none, some "5.3", none⟩,
   ⟨"mssql_", "mssql", none, some "7.0", none⟩,
   ⟨"mysql_", "mysql", some "5.5", some "7.0", some "mysqli"⟩,
   ⟨"ncurses_", "ncurses", none, some "5.3", some "pecl/ncurses"⟩,
   ⟨"recode_", "recode", none, some "7.4", some "the iconv or mbstring extension"⟩,
   ⟨"sybase_", "sybase", none, some "7.0", some "pdo_dblib"⟩,
   ⟨"wddx_", "wddx", none, some "7.4", some "pecl/wddx"⟩,
   ⟨"xmlrpc_", "xmlrpc", none, some "8.0", some "pecl/xmlrpc"⟩]

/-- Calls of functions of removed extensions. -/
def removedExtensions : Check where
  catalogue := .ofTable (extensionRows.mapM ExtensionRow.feature)
  wording := ⟨"Extension '%s'"⟩
  applies := Listing.isGlobalCall

/-- A call of a function of a removed extension. -/
structure ExtensionCall where
  position : Nat
  function : String
  feature : Feature

/-- All calls of functions of removed extensions, in order. -/
def extensionCalls (l : Listing) : List ExtensionCall :=
  (removedExtensions.uses l [.name]).filterMap fun i =>
    (l.get? i).bind fun t =>
      (removedExtensions.catalogue.findPrefix? t.text).map fun feature =>
        { position := i, function := t.text, feature }

/-- The functions of the calls that are left out because they are exempt. -/
def exemptedCalls (l : Listing) (target : Target) : List String :=
  ((extensionCalls l).filter fun call => target.exempt.contains call.function).map (·.function)

/-- The findings for one call. -/
def extensionReport (l : Listing) (range : VersionRange) (call : ExtensionCall) : List Finding :=
  match call.feature.verdict? range with
  | some v =>
    let extension := (call.feature.note? "extension").getD call.feature.name
    removedExtensions.wording.findings (l.place call.position) extension extension
      call.feature.alternative v
  | none => []

/-- The findings for all calls that are not exempt. -/
def extensionFindings (l : Listing) (target : Target) : List Finding :=
  ((extensionCalls l).filter fun call => !target.exempt.contains call.function).flatMap
    (extensionReport l target.range)

end Vintage.Check
