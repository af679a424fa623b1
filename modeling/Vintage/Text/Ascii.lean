/-!
# Texts up to the case of ASCII letters

Names and keywords are compared after the letters `A` to `Z` are lowered; every other character
stands for itself.

* `lower` — the text with `A` to `Z` lowered.
* `sameLetters` — equality after lowering.
* `dropBackslashes` — the text without its leading backslashes.
* `natural?` — the value of a run of ASCII digits.
-/

namespace Vintage.Text

/-- The characters with `A` to `Z` lowered. -/
def lowerChars (cs : List Char) : List Char := cs.map Char.toLower

/-- The text with `A` to `Z` lowered. -/
def lower (s : String) : String := String.ofList (lowerChars s.toList)

/-- The two texts are equal after `A` to `Z` are lowered. -/
def sameLetters (s t : String) : Bool := lowerChars s.toList == lowerChars t.toList

/-- The text without the backslashes it starts with. -/
def dropBackslashes (s : String) : String := String.ofList (s.toList.dropWhile (· == '\\'))

/-- The value of a non-empty run of the digits `0` to `9`; leading zeros are allowed. -/
def natural? (cs : List Char) : Option Nat :=
  if cs.isEmpty || !cs.all Char.isDigit then none
  else some (cs.foldl (fun n c => 10 * n + (c.toNat - '0'.toNat)) 0)

end Vintage.Text
