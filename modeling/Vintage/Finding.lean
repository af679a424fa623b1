import Vintage.Text.Ascii

/-!
# Findings

A finding says that something at a place of a source text does not fit the versions aimed at.

* `Severity`, `Place`, `Finding` — the data.
* `Template.fill` — puts values into a message.
* `codeOf` — the part of a finding's code that names a feature.
-/

namespace Vintage

/-- How bad a finding is; a warning is less than an error. -/
inductive Severity where
  /-- worth a look -/
  | warning
  /-- the code does not work on a part of the range -/
  | error
deriving DecidableEq, Repr

namespace Severity

/-- The written form. -/
def text : Severity → String
  | warning => "warning"
  | error => "error"

/-- The worse of two severities. -/
def max : Severity → Severity → Severity
  | warning, s => s
  | error, _ => error

/-- The first severity is at most as bad as the second. -/
def le : Severity → Severity → Bool
  | warning, _ => true
  | error, s => s == error

end Severity

/-- Where a finding points: a token, its line and its column. -/
structure Place where
  token : Nat
  line : Nat
  column : Nat
deriving DecidableEq, Repr

/-- Places are ordered by token, then line, then column. -/
def Place.compare (p q : Place) : Ordering :=
  (Ord.compare p.token q.token).then
    ((Ord.compare p.line q.line).then (Ord.compare p.column q.column))

/-- One finding. -/
structure Finding where
  place : Place
  severity : Severity
  message : String
  /-- a code for machines, such as `array_columnFound` -/
  code : String
  /-- the values that the message was made with -/
  data : List String
deriving DecidableEq, Repr

namespace Template

/-- Puts the values in the places marked `%s`, from left to right. Marks without a value stay, and
values are not searched for marks. -/
def fillChars : List Char → List String → List Char
  | '%' :: 's' :: rest, value :: values => value.toList ++ fillChars rest values
  | '%' :: 's' :: rest, [] => '%' :: 's' :: fillChars rest []
  | c :: rest, values => c :: fillChars rest values
  | [], _ => []

/-- Puts the values in the places marked `%s`. -/
def fill (template : String) (values : List String) : String :=
  String.ofList (fillChars template.toList values)

end Template

namespace Finding

/-- The finding whose message is a template filled with the data. -/
def ofTemplate (place : Place) (severity : Severity) (template : String) (data : List String)
    (code : String) : Finding where
  place := place
  severity := severity
  message := Template.fill template data
  code := code
  data := data

/-- The finding is an error. -/
def isError (f : Finding) : Bool := f.severity == .error

/-- The order of a report: by place, then by code. -/
def notAfter (f g : Finding) : Bool :=
  ((f.place.compare g.place).then (Ord.compare f.code g.code)) != .gt

end Finding

/-- The part of a code that names a feature: in lower case, with `_` for every character that is
not an ASCII letter, a digit or an underscore. -/
def codeOf (name : String) : String :=
  String.ofList (name.toList.map fun c =>
    let c := c.toLower
    if c.isAlphanum || c == '_' then c else '_')

end Vintage
