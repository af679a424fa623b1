import Vintage.Text.Utf8

/-!
# Source texts by byte offset

A source text is looked up by byte offset: lexemes are said to start and to stop at bytes. Lines and
columns count from one, and columns count characters.

* `bisect` — the place where a property stops to hold, by bisection.
* `Source.ofChars` — a text with the offsets at which its lines start.
* `Source.place` — line and column of an offset.
* `Source.slice` — the text between two offsets.
-/

namespace Vintage

/-- The first of the numbers from `low` up to `high` that do not have the property, and `high` if
all have it. It is found by bisection, so the property has to hold of no number after that. -/
def bisect (p : Nat → Bool) (low high : Nat) : Nat :=
  if low < high then
    let middle := (low + high) / 2
    if p middle then bisect p (middle + 1) high else bisect p low middle
  else low
termination_by high - low

/-- A text in bytes, with the offsets at which its lines start. -/
structure Source where
  bytes : Array UInt8
  starts : Array Nat

namespace Source

/-- Adds the offsets after the line feeds of a text that starts at `offset`. -/
def startsFrom : (offset : Nat) → (found : Array Nat) → List Char → Array Nat
  | _, found, [] => found
  | offset, found, c :: cs =>
    startsFrom (offset + c.utf8Size) (if c == '\n' then found.push (offset + 1) else found) cs

/-- Prepares a text. The first line starts at the start of the text. -/
def ofChars (cs : List Char) : Source where
  bytes := (Text.Utf8.encode cs).toArray
  starts := startsFrom 0 #[0] cs

/-- No character of the text goes on over the offset, which is not after the end of the text. -/
def isBoundary (s : Source) (offset : Nat) : Bool :=
  offset == 0 || offset == s.bytes.size || (s.bytes[offset]?).any Text.Utf8.startsChar

/-- The number of characters from `start` up to `stop`, if these are in the order of the text and
neither is inside a character. -/
def charsBetween? (s : Source) (start stop : Nat) : Option Nat :=
  if start ≤ stop && s.isBoundary start && s.isBoundary stop then
    some ((s.bytes.extract start stop).countP Text.Utf8.startsChar)
  else none

/-- The number of the line that an offset is on: the last line that starts there or before. -/
def line (s : Source) (offset : Nat) : Nat :=
  max 1 (bisect (fun i => (s.starts[i]?).any (· ≤ offset)) 0 s.starts.size)

/-- Line and column of an offset. The column counts the characters of the line before the offset,
or the bytes if the offset is inside a character. -/
def place (s : Source) (offset : Nat) : Nat × Nat :=
  let line := s.line offset
  let start := s.starts.getD (line - 1) 0
  (line, (s.charsBetween? start offset).getD (offset - start) + 1)

/-- The text from `start` up to `stop`, with U+FFFD for what is no character; nothing if these are
not offsets of the text in its order. -/
def slice (s : Source) (start stop : Nat) : String :=
  if start ≤ stop && stop ≤ s.bytes.size then
    Text.Utf8.decodeLossy (s.bytes.extract start stop).toList
  else ""

end Source

end Vintage
