import Vintage.Text.Split

/-!
# Writing JSON

A value is written over several lines, two blanks deeper at each level.

* `Json.quoted` — a text with its marks and escapes.
* `Json.text`, `Json.number`, `Json.list`, `Json.object` — values.
-/

namespace Vintage.Report.Json

/-- A value, as its text at a given indentation. -/
abbrev Layout := Nat → String

/-- The digits of a number below 256, in base sixteen. -/
def twoDigits (n : Nat) : List Char := [Nat.digitChar (n / 16), Nat.digitChar (n % 16)]

/-- A character inside quotation marks. -/
def escaped (c : Char) : List Char :=
  match c with
  | '"' => ['\\', '"']
  | '\\' => ['\\', '\\']
  | '\x08' => ['\\', 'b']
  | '\x0c' => ['\\', 'f']
  | '\n' => ['\\', 'n']
  | '\r' => ['\\', 'r']
  | '\t' => ['\\', 't']
  | _ => if c.toNat < 0x20 then '\\' :: 'u' :: '0' :: '0' :: twoDigits c.toNat else [c]

/-- A text in quotation marks. -/
def quoted (s : String) : String :=
  "\"" ++ String.ofList (s.toList.flatMap escaped) ++ "\""

/-- A text. -/
def text (s : String) : Layout := fun _ => quoted s

/-- A number. -/
def number (n : Nat) : Layout := fun _ => toString n

/-- Lines between two brackets. -/
def between (opening closing : String) (lines : List Layout) : Layout := fun depth =>
  match lines with
  | [] => opening ++ closing
  | _ =>
    let indent (n : Nat) : String := "\n" ++ String.ofList (List.replicate n ' ')
    opening
      ++ Text.joinWith "," (lines.map fun l => indent (depth + 2) ++ l (depth + 2))
      ++ indent depth ++ closing

/-- A list. -/
def list (items : List Layout) : Layout := between "[" "]" items

/-- An object, its fields in the given order. -/
def object (fields : List (String × Layout)) : Layout :=
  between "\x7b" "\x7d"
    (fields.map fun (key, value) => fun depth => quoted key ++ ": " ++ value depth)

end Vintage.Report.Json
