import Vintage.Text.CaseTable

/-!
# Lower case of any letter

* `lowerChar` — the lower-case form of one character, which may be two characters.
* `lowerText` — the lower-case form of a text; a capital sigma at the end of a word becomes a
  final sigma.
-/

namespace Vintage.Text

/-- The lower-case form within a run. -/
def LowerRun.lower? (run : LowerRun) (n : Nat) : Option Char :=
  if run.first ≤ n && n ≤ run.last && (n - run.first) % run.step == 0 then
    some (Char.ofNat (run.target + (n - run.first)))
  else none

/-- The lower-case form of a character. The dotted capital `İ` is the only letter whose
lower-case form has two characters. -/
def lowerChar (c : Char) : List Char :=
  if c == 'İ' then ['i', '\u0307']
  else if c.toNat < 128 then [c.toLower]
  else [(lowerRuns.findSome? (·.lower? c.toNat)).getD c]

/-- The character is in one of the ranges. -/
def inRanges (ranges : List (Nat × Nat)) (c : Char) : Bool :=
  ranges.any fun (first, last) => first ≤ c.toNat && c.toNat ≤ last

/-- The first character that is not case-ignorable is a letter with a case. -/
def startsCased (cs : List Char) : Bool :=
  match cs.dropWhile (inRanges caseIgnorable) with
  | c :: _ => inRanges cased c
  | [] => false

/-- The lower-case form of the rest of a text, `before` holding the characters before it, the
nearest first. -/
def lowerFrom (before : List Char) : List Char → List Char
  | [] => []
  | c :: cs =>
    (if c == 'Σ' then
      [if startsCased before && !startsCased cs then 'ς' else 'σ']
    else lowerChar c) ++ lowerFrom (c :: before) cs

/-- The lower-case form of a text. -/
def lowerText (s : String) : String := String.ofList (lowerFrom [] s.toList)

end Vintage.Text
