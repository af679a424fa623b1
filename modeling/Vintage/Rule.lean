import Vintage.Check.Arguments
import Vintage.Check.Constants
import Vintage.Check.Directives
import Vintage.Check.Extensions
import Vintage.Check.Functions
import Vintage.Check.Interfaces
import Vintage.Check.Keywords
import Vintage.Check.Types

/-!
# Rules

A rule looks for one family of features in a listing.

* `Rule.all` — the rules, in the order in which they run.
* `Rule.ofNames` — rules by name.
* `Rule.findings` — what one rule finds.
* `Rule.findAll` — what several rules find, ordered by place and code.
-/

namespace Vintage

/-- The rules. -/
inductive Rule where
  | newFunctions
  | removedFunctions
  | removedExtensions
  | newConstants
  | removedConstants
  | newInterfaces
  | newTypes
  | newKeywords
  | directives
  | removedSettings
  | removedModifiers
deriving DecidableEq, Repr

/-- Why rules cannot be chosen. -/
inductive RuleError where
  | unknown (name : String)
deriving DecidableEq, Repr

/-- The wording of a rule error. -/
def RuleError.message : RuleError → String
  | .unknown name => "Unknown sniff '" ++ name ++ "'"

namespace Rule

/-- The rules, in the order in which they run. -/
def all : List Rule :=
  [.newFunctions, .removedFunctions, .removedExtensions, .newConstants, .removedConstants,
   .newInterfaces, .newTypes, .newKeywords, .directives, .removedSettings, .removedModifiers]

/-- The name of a rule. -/
def name : Rule → String
  | .newFunctions => "new_functions"
  | .removedFunctions => "removed_functions"
  | .removedExtensions => "removed_extensions"
  | .newConstants => "new_constants"
  | .removedConstants => "removed_constants"
  | .newInterfaces => "new_interfaces"
  | .newTypes => "new_type_declarations"
  | .newKeywords => "new_keywords"
  | .directives => "new_execution_directives"
  | .removedSettings => "removed_ini_directives"
  | .removedModifiers => "removed_mbstring_modifiers"

/-- What a rule looks for. -/
def description : Rule → String
  | .newFunctions =>
    "Detect calls to functions not available in the oldest targeted PHP version"
  | .removedFunctions =>
    "Detect calls to functions deprecated or removed in the targeted PHP versions"
  | .removedExtensions =>
    "Detect use of PHP extensions deprecated or removed in the targeted versions"
  | .newConstants =>
    "Detect global constants not available in the oldest targeted PHP version"
  | .removedConstants =>
    "Detect global constants deprecated or removed in the targeted PHP versions"
  | .newInterfaces =>
    "Detect built-in interfaces not available in the oldest targeted PHP version"
  | .newTypes =>
    "Detect parameter and return types not available in the oldest targeted PHP version"
  | .newKeywords =>
    "Detect keywords and constructs not available in the oldest targeted PHP version"
  | .directives =>
    "Detect declare() directives that are unknown, invalid or newer than the targeted PHP versions"
  | .removedSettings =>
    "Detect INI directives set or read at runtime that are deprecated or removed"
  | .removedModifiers =>
    "Detect the deprecated and removed e modifier in mbstring regex functions"

/-- The names of all rules. -/
def names : List String := all.map name

/-- Every name is the name of a rule; the first that is not is the error. -/
def checkNames (chosen : List String) : Except RuleError Unit :=
  match chosen.find? fun n => !names.contains n with
  | some n => .error (.unknown n)
  | none => .ok ()

/-- The rules with the given names, in the order in which they run. -/
def ofNames (chosen : List String) : List Rule := all.filter fun r => chosen.contains r.name

theorem name_mem_of_mem_ofNames {chosen : List String} {r : Rule} (h : r ∈ ofNames chosen) :
    r.name ∈ chosen :=
  List.contains_iff_mem.1 (List.mem_filter.1 h).2

/-- What a rule finds in a listing. -/
def findings (r : Rule) (l : Listing) (t : Target) : List Finding :=
  match r with
  | .newFunctions => Check.newFunctions.run l t.range [.name]
  | .removedFunctions => Check.removedFunctions.run l t.range [.name]
  | .removedExtensions => Check.extensionFindings l t
  | .newConstants => Check.newConstants.run l t.range [.name]
  | .removedConstants => Check.removedConstants.run l t.range [.name]
  | .newInterfaces => Check.interfaceFindings l t
  | .newTypes => Check.typeFindings l t
  | .newKeywords => Check.keywordFindings l t
  | .directives => Check.directiveFindings l t
  | .removedSettings => Check.settingFindings l t
  | .removedModifiers => Check.modifierFindings l t

/-- What the rules with the given names find, ordered by place and code; findings with the same
place and code keep the order of the rules. -/
def findAll (l : Listing) (t : Target) (chosen : List String) : List Finding :=
  ((ofNames chosen).flatMap fun r => r.findings l t).mergeSort Finding.notAfter

end Rule

end Vintage
