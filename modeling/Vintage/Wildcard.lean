/-!
# Wildcard patterns

Patterns for paths: `?` stands for any character, `*` for any text, `[...]` and `[!...]` for a
character in or not in a set, and `**` between slashes for any number of directories. Every other
character stands for itself, and slashes are not special to `?`, `*` and sets.

* `Wildcard.ofText?` — reads a pattern; some texts are none.
* `Wildcard.accepts`, `Wildcard.coversText` — the pattern covers a text from end to end.
-/

namespace Vintage

namespace Wildcard

/-- What a set is made of. -/
inductive Member where
  | single (c : Char)
  | range (low high : Char)
deriving DecidableEq, Repr

/-- One part of a pattern. -/
inductive Part where
  | literal (c : Char)
  | anyChar
  | anyText
  | anyDirectories
  | within (members : List Member)
  | except (members : List Member)
deriving DecidableEq, Repr

/-- The character belongs to a member of a set; a range with its ends exchanged holds nothing. -/
def Member.holds (c : Char) : Member → Bool
  | single d => c == d
  | range low high => low ≤ c && c ≤ high

/-- What stands between the brackets of a set. -/
def members : List Char → List Member
  | low :: '-' :: high :: rest => .range low high :: members rest
  | c :: rest => .single c :: members rest
  | [] => []

/-- The characters before and after the first `]` that is not at the very start. -/
def setBody? : List Char → Option (List Char × List Char)
  | [] => none
  | c :: rest =>
    match rest.dropWhile (· != ']') with
    | [] => none
    | _ :: after => some (c :: rest.takeWhile (· != ']'), after)

/-- The set that follows a `[`, and what comes after it. -/
def set? : List Char → Option (Part × List Char)
  | '!' :: rest => (setBody? rest).map fun (body, after) => (.except (members body), after)
  | rest => (setBody? rest).map fun (body, after) => (.within (members body), after)

/-- A second `**` adds nothing after a first one that is not at the very start of the pattern. -/
def addDirectories (read : List Part) : List Part :=
  match read with
  | .anyDirectories :: _ :: _ => read
  | _ => .anyDirectories :: read

/-- Reads a pattern. `read` holds the parts before, in reverse, and `fresh` says that a `**` may
stand here: at the start or after a slash. Each step takes at least one character. -/
def partsFrom : Nat → List Part → Bool → List Char → Option (List Part)
  | 0, read, _, _ => some read.reverse
  | _ + 1, read, _, [] => some read.reverse
  | fuel + 1, read, fresh, c :: rest =>
    match c with
    | '?' => partsFrom fuel (.anyChar :: read) false rest
    | '[' =>
      match set? rest with
      | some (part, after) => partsFrom fuel (part :: read) false after
      | none => none
    | '*' =>
      match rest with
      | '*' :: '*' :: _ => none
      | '*' :: '/' :: after =>
        if fresh then partsFrom fuel (addDirectories read) true after else none
      | ['*'] => if fresh then partsFrom fuel (addDirectories read) false [] else none
      | '*' :: _ => none
      | _ => partsFrom fuel (.anyText :: read) false rest
    | _ => partsFrom fuel (.literal c :: read) (c == '/') rest

/-- The rests of a text, the whole text first and the empty one last. -/
def suffixes : List Char → List (List Char)
  | [] => [[]]
  | c :: cs => (c :: cs) :: suffixes cs

/-- The rests behind the slashes of a text. -/
def behindSlashes : List Char → List (List Char)
  | [] => []
  | c :: cs => if c = '/' then cs :: behindSlashes cs else behindSlashes cs

/-- The parts cover the text from end to end. -/
def covers : List Part → List Char → Bool
  | [], cs => cs.isEmpty
  | .anyText :: parts, cs => (suffixes cs).any (covers parts)
  | .anyDirectories :: parts, cs => (cs :: behindSlashes cs ++ [[]]).any (covers parts)
  | .literal d :: parts, c :: cs => c == d && covers parts cs
  | .anyChar :: parts, _ :: cs => covers parts cs
  | .within ms :: parts, c :: cs => ms.any (·.holds c) && covers parts cs
  | .except ms :: parts, c :: cs => !ms.any (·.holds c) && covers parts cs
  | _ :: _, [] => false

end Wildcard

/-- A pattern, as a list of parts. -/
structure Wildcard where
  parts : List Wildcard.Part
deriving DecidableEq, Repr

namespace Wildcard

/-- Reads a pattern. -/
def ofText? (text : String) : Option Wildcard :=
  (partsFrom text.length [] true text.toList).map Wildcard.mk

/-- The pattern covers the text from end to end. -/
def accepts (w : Wildcard) (text : String) : Bool := covers w.parts text.toList

/-- The pattern that is written `pattern` covers the text. What is no pattern covers nothing. -/
def coversText (pattern text : String) : Bool := (ofText? pattern).any (·.accepts text)

end Wildcard

end Vintage
