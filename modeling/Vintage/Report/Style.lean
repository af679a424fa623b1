import Vintage.Text.Split

/-!
# Styled text

* `Style.paint` — a text between the codes that switch styles on and off in a terminal.
* `padLeft`, `padRight` — texts filled up with blanks.
-/

namespace Vintage.Report

/-- A way to show text. -/
inductive Style where
  | bold
  | dimmed
  | underlined
  | red
  | green
  | yellow
deriving DecidableEq, Repr

namespace Style

/-- The code of a style. -/
def code : Style → Nat
  | bold => 1
  | dimmed => 2
  | underlined => 4
  | red => 31
  | green => 32
  | yellow => 33

/-- The text in the given styles; without colours it stays as it is. -/
def paint (colours : Bool) (styles : List Style) (text : String) : String :=
  if colours then
    "\x1b[" ++ Text.joinWith ";" (styles.map fun s => toString s.code) ++ "m" ++ text ++ "\x1b[0m"
  else text

end Style

/-- The text with blanks before it up to a width. -/
def padLeft (width : Nat) (text : String) : String :=
  String.ofList (List.replicate (width - text.length) ' ') ++ text

/-- The text with blanks behind it up to a width. -/
def padRight (width : Nat) (text : String) : String :=
  text ++ String.ofList (List.replicate (width - text.length) ' ')

end Vintage.Report
