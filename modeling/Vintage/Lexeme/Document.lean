import Vintage.Lexeme.Kind
import Vintage.Lexeme.Measure

/-!
# Here documents

A here document runs from a line with `<<<` and a label to the line that starts with that label.
A heredoc has interpolations, a nowdoc has not.

* `DocumentOpening.ofChars?` — the opening line.
* `closingIndent` — the indentation of the closing line.
* `documentPart` — how far one piece of the body reaches, and what ends it.
-/

namespace Vintage.Lexeme

/-- An open here document. -/
structure Document where
  kind : DocumentKind
  label : List Char
  /-- the indentation of the closing line -/
  indent : Nat
deriving DecidableEq, Repr

/-- The opening line of a here document. -/
structure DocumentOpening where
  kind : DocumentKind
  label : List Char
  /-- the length of the opening line, its line end included -/
  length : Nat

/-- The label that the text starts with; empty if there is none. -/
def labelOf (cs : List Char) : List Char :=
  if startsLetter cs then cs.take (nameLength cs) else []

/-- The line end after an opening label; a lone carriage return is none. -/
def openingLineEnd : List Char → Option Nat
  | '\n' :: _ => some 1
  | '\r' :: '\n' :: _ => some 2
  | _ => none

/-- A label between two quotes. -/
def quotedLabel? (quote : Char) (cs : List Char) : Option (List Char) :=
  let label := labelOf cs
  if label.isEmpty then none
  else if (cs.drop label.length).head? == some quote then some label
  else none

/-- The kind, the label and the written length of a label. -/
def documentLabel? : List Char → Option (DocumentKind × List Char × Nat)
  | '"' :: cs => (quotedLabel? '"' cs).map fun label => (.heredoc, label, label.length + 2)
  | '\'' :: cs => (quotedLabel? '\'' cs).map fun label => (.nowdoc, label, label.length + 2)
  | cs =>
    let label := labelOf cs
    if label.isEmpty then none else some (.heredoc, label, label.length)

/-- The opening line that the text starts with. -/
def DocumentOpening.ofChars? : List Char → Option DocumentOpening
  | '<' :: '<' :: '<' :: cs =>
    let blanks := (cs.takeWhile isSpace).length
    match documentLabel? (cs.drop blanks) with
    | none => none
    | some (kind, label, written) =>
      match openingLineEnd (cs.drop (blanks + written)) with
      | none => none
      | some lineEnd => some { kind, label, length := 3 + blanks + written + lineEnd }
  | _ => none

/-- The indentation of the first line that starts with the label; `0` if there is none. The
search passes over interpolations of a heredoc, which may hold line ends.

`blanks` counts the indentation while only blanks were seen on the line, `escaped` tells an odd
number of backslashes just before, and `skip` characters are passed over unseen. -/
def closingIndent (kind : DocumentKind) (label : List Char) :
    (blanks : Option Nat) → (escaped : Bool) → (skip : Nat) → List Char → Nat
  | _, _, _, [] => 0
  | blanks, escaped, skip + 1, _ :: cs => closingIndent kind label blanks escaped skip cs
  | blanks, escaped, 0, c :: cs =>
    match blanks, isIndent c with
    | some n, true => closingIndent kind label (some (n + 1)) false 0 cs
    | _, _ =>
      if blanks.isSome && startsWithWord label (c :: cs) then blanks.getD 0
      else if c == '\n' then closingIndent kind label (some 0) false 0 cs
      else if c == '\r' then
        closingIndent kind label (some 0) false (if cs.head? == some '\n' then 1 else 0) cs
      else if kind == .heredoc && !escaped && c == '$' && startsLetter cs then
        closingIndent kind label none false (variableEnd (c :: cs) - 1) cs
      else if kind == .heredoc && !escaped &&
          ((c == '$' && cs.head? == some '{') || (c == '{' && cs.head? == some '$')) then
        closingIndent kind label none false (braceEnd (c :: cs) - 1) cs
      else closingIndent kind label none (c == '\\' && !escaped) 0 cs

/-- The document that an opening line opens, given the text after that line. -/
def DocumentOpening.document (opening : DocumentOpening) (body : List Char) : Document where
  kind := opening.kind
  label := opening.label
  indent := closingIndent opening.kind opening.label (some 0) false 0 body

/-- The line is the closing line of a document with the label. -/
def isClosingLine (label cs : List Char) : Bool := startsWithWord label (cs.dropWhile isIndent)

/-- What ends a piece of a string or of a document. The number is the length of the piece. -/
inductive PartEnd where
  /-- an interpolation that starts with `$name` -/
  | variableStart (length : Nat)
  /-- an interpolation in braces -/
  | braceStart (length : Nat)
  /-- the closing quote -/
  | closingQuote (length : Nat)
  /-- a line end, which belongs to the piece, or the end of the text -/
  | plain (length : Nat)
  /-- a line end before the closing line -/
  | lineBeforeEnd (length : Nat)
  /-- the closing label -/
  | closingLabel (length : Nat)

/-- The text starts an interpolation with `$name`. -/
def startsVariable : List Char → Bool
  | '$' :: cs => startsName cs
  | _ => false

/-- The text starts an interpolation in braces. -/
def startsBrace : List Char → Bool
  | '{' :: '$' :: _ => true
  | '$' :: '{' :: _ => true
  | _ => false

/-- A piece of text between two `quote`s; `escaped` tells an odd number of backslashes before. -/
def quotedPart (quote : Char) : (n : Nat) → (escaped : Bool) → List Char → PartEnd
  | n, _, [] => .plain n
  | n, escaped, c :: cs =>
    if !escaped && startsVariable (c :: cs) then .variableStart n
    else if !escaped && startsBrace (c :: cs) then .braceStart n
    else if c == '\\' then quotedPart quote (n + 1) (!escaped) cs
    else if c == quote && !escaped then .closingQuote n
    else quotedPart quote (n + 1) false cs

/-- A piece of the body of a document; `blank` tells that only blanks were seen. -/
def documentPart (doc : Document) :
    (n : Nat) → (escaped blank : Bool) → List Char → PartEnd
  | n, _, _, [] => .plain n
  | n, escaped, blank, c :: cs =>
    let lineEnd := lineEndLength (c :: cs)
    if lineEnd != 0 then
      if isClosingLine doc.label ((c :: cs).drop lineEnd) then .lineBeforeEnd n
      else .plain (n + lineEnd)
    else if isSpace c then documentPart doc (n + 1) escaped blank cs
    else if doc.kind == .heredoc && !escaped && startsVariable (c :: cs) then .variableStart n
    else if doc.kind == .heredoc && !escaped && startsBrace (c :: cs) then .braceStart n
    else if doc.kind == .heredoc && c == '\\' then documentPart doc (n + 1) (!escaped) false cs
    else if blank && startsWithWord doc.label (c :: cs) then .closingLabel n
    else documentPart doc (n + 1) false false cs

/-- The indentation to cut off at the start of a line of the body; `0` on the closing line. -/
def bodyIndent (doc : Document) (cs : List Char) : Nat :=
  let width := min doc.indent (cs.takeWhile isIndent).length
  if startsWithWord doc.label (cs.drop width) then 0 else width

end Vintage.Lexeme
