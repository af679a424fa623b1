import Vintage.Lexeme.Basic
import Vintage.Text.Utf8

/-!
# Cutting one lexeme

A cut says what the text starts with, how long it is and how the text after it is read. A fault
is a stretch that is no lexeme and is passed over.

* `htmlCut`, `scriptCut`, `quotedCut`, `documentCut`, `haltCut` — one cut in each mode.
-/

namespace Vintage.Lexeme

/-- The result of looking at the start of a text. -/
inductive Cut where
  /-- a lexeme, its length and the mode after it -/
  | lexeme (kind : LexemeKind) (length : Nat) (next : Mode)
  /-- a stretch that is no lexeme -/
  | fault (length : Nat)

/-- What the place in the code adds to the text. -/
structure Surroundings where
  /-- inside an interpolation -/
  embedded : Bool := false
  /-- inside an interpolation in braces -/
  braced : Bool := false
  /-- square brackets open inside an interpolation -/
  squareDepth : Nat := 0
  /-- just after `${`, a name follows -/
  awaitsName : Bool := false

/-- A cut with code following. -/
def Cut.code (kind : LexemeKind) (length : Nat) : Cut := .lexeme kind length .script

/-! ## Outside PHP tags -/

/-- The number of characters before the next `<?`. -/
def htmlLength : Nat → List Char → Nat
  | n, [] => n
  | n, c :: cs => if c == '<' && cs.head? == some '?' then n else htmlLength (n + 1) cs

/-- The length of the first line with its line feed. -/
def shebangLength (cs : List Char) : Nat :=
  min ((cs.takeWhile (· != '\n')).length + 1) cs.length

/-- A cut outside PHP tags; a first line starting with `#!` is kept apart. -/
def htmlCut (offset : Nat) (cs : List Char) : Cut :=
  if offset == 0 && ['#', '!'].isPrefixOf cs then
    .lexeme .shebang (shebangLength cs) .html
  else
    match htmlLength 0 cs with
    | n + 1 => .lexeme .inlineText (n + 1) .html
    | 0 =>
      let mark := (cs.drop 2).take 3
      if mark.map Char.toLower == ['p', 'h', 'p'] then .code .openTag 5
      else if mark.head? == some '=' then .code .echoTag 3
      else .code .shortOpenTag 2

/-! ## Code -/

/-- The modifiers that may carry `(set)`. -/
def setterModifiers : List (String × LexemeKind) :=
  [("public", .kwPublicSet), ("private", .kwPrivateSet), ("protected", .kwProtectedSet)]

/-- A word with `(set)` right after it, for the three modifiers that allow it. -/
def setterKind? (word : String) (rest : List Char) : Option LexemeKind :=
  if (rest.take 5).map Char.toLower == ['(', 's', 'e', 't', ')'] then
    setterModifiers.lookup (Text.lower word)
  else none

/-- A word or a qualified name, starting with a name character. -/
def nameCut (place : Surroundings) (cs : List Char) : Cut :=
  let length := nameLength cs
  let rest := cs.drop length
  if continuesName rest then
    if place.embedded && !place.braced then .code .identifier length
    else .lexeme .qualifiedName (qualifiedLength cs) .script
  else
    let word := String.ofList (cs.take length)
    match setterKind? word rest with
    | some kind => .code kind (length + 5)
    | none =>
      match wordKind word with
      | .kwHaltCompiler => .lexeme .kwHaltCompiler length (.halt .openParen)
      | kind => .code kind length

/-- A comment that runs to the end of the line, `mark` being the length of its mark. -/
def lineCommentCut (kind : LexemeKind) (mark : Nat) (cs : List Char) : Cut :=
  .code kind (mark + lineCommentLength 0 false (cs.drop mark))

/-- A comment between `/*` and `*/`; one that never ends is a fault up to the end. -/
def blockCommentCut (cs : List Char) : Cut :=
  match blockCommentLength 2 (cs.drop 2) with
  | none => .fault cs.length
  | some length =>
    if (cs.drop 2).head? == some '*' && 4 < length then .code .docComment length
    else .code .blockComment length

/-- A string literal that starts with a quote after `mark` characters. -/
def literalCut (mark : Nat) (quote : Char) (cs : List Char) : Cut :=
  .code (if closesQuote quote (cs.drop (mark + 1)) then .quotedText else .unclosedText)
    (mark + 1 + quotedLength quote 0 (cs.drop (mark + 1)))

/-- A double-quoted string after `mark` characters: whole if it holds no interpolation. -/
def doubleQuoteCut (mark : Nat) (cs : List Char) : Cut :=
  if isPlainQuoted (cs.drop (mark + 1)) then literalCut mark '"' cs
  else .lexeme .doubleQuote (mark + 1) (.quoted '"' none)

/-- The opening line of a here document after `mark` characters. -/
def documentCut? (mark : Nat) (cs : List Char) : Option Cut :=
  (DocumentOpening.ofChars? (cs.drop mark)).map fun opening =>
    .lexeme (.documentStart opening.kind) (mark + opening.length)
      (.document (opening.document (cs.drop (mark + opening.length))) none)

/-- A number. -/
def numberCut (place : Surroundings) (cs : List Char) : Cut :=
  if place.squareDepth != 0 then .code .offsetNumber (offsetNumberLength cs)
  else
    match numberShape cs with
    | .integer length => .code .integer length
    | .float length => .code .float length
    | .malformed length => .fault length

/-- A float that starts with its point. -/
def pointCut (cs : List Char) : Cut :=
  let length := 1 + digitsLength Char.isDigit 0 (cs.drop 1)
  .code .float (length + exponentLength (cs.drop length))

/-- A literal or here document with the mark `b` before it. -/
def binaryCut (cs : List Char) : Cut :=
  match cs.drop 1 with
  | '\'' :: _ => literalCut 1 '\'' cs
  | '"' :: _ => doubleQuoteCut 1 cs
  | _ => (documentCut? 1 cs).getD (.fault 1)

/-- Operators, literals, comments and whatever else starts with no name character. -/
def signCut (place : Surroundings) (cs : List Char) : Cut :=
  match signKind? tripleSigns cs with
  | some kind => .code kind 3
  | none =>
  match documentCut? 0 cs with
  | some cut => cut
  | none =>
  match signKind? doubleSigns cs with
  | some .closeTag => .lexeme .closeTag 2 .html
  | some kind => .code kind 2
  | none =>
  match cs with
  | '/' :: '/' :: _ => lineCommentCut .lineComment 2 cs
  | '/' :: '*' :: _ :: _ => blockCommentCut cs
  | '$' :: '{' :: _ => .lexeme .dollarBrace 2 .script
  | '\\' :: rest =>
    if startsName rest then .lexeme .globalName (1 + qualifiedLength rest) .script
    else .code .nsSeparator 1
  | '\x60' :: _ => .lexeme .backtick 1 (.quoted '\x60' none)
  | 'b' :: _ => binaryCut cs
  | 'B' :: _ => binaryCut cs
  | '\'' :: _ => literalCut 0 '\'' cs
  | '"' :: _ => doubleQuoteCut 0 cs
  | '(' :: rest =>
    match castLength rest with
    | some length => .code .operator (1 + length)
    | none => .code .openParen 1
  | '#' :: _ => lineCommentCut .hashComment 1 cs
  | '.' :: d :: _ =>
    if d.isDigit && place.squareDepth == 0 then pointCut cs else .code .operator 1
  | ['.'] => .code .operator 1
  | c :: _ =>
    match singleKind? c with
    | some kind => .code kind 1
    | none => if c.isDigit then numberCut place cs else .fault 1
  | [] => .fault 0

/-- The mark of a binary literal: `b` before a quote or `<<<`. -/
def startsBinary : List Char → Bool
  | c :: rest =>
    (c == 'b' || c == 'B') &&
      (rest.head? == some '\'' || rest.head? == some '"' || ['<', '<', '<'].isPrefixOf rest)
  | [] => false

/-- A cut in code. -/
def scriptCut (place : Surroundings) (cs : List Char) : Cut :=
  if place.awaitsName then .code .embeddedName (nameLength cs)
  else
    match (cs.takeWhile isGap).length with
    | n + 1 => .code .whitespace (n + 1)
    | 0 =>
      match cs.head?.bind separatorKind? with
      | some kind => .code kind 1
      | none =>
        if startsName cs then
          if place.squareDepth != 0 then .code .offsetName (nameLength cs)
          else if !place.embedded && startsBinary cs then signCut place cs
          else nameCut place cs
        else if startsVariable cs then .code .variableName (1 + nameLength (cs.drop 1))
        else signCut place cs

/-! ## Strings and here documents -/

/-- A piece of a string or of a here document. -/
def partCut (length : Nat) (next : Mode) : Cut := .lexeme .textPart length next

/-- The interpolation that starts after `length` characters with `$name`; the text starts at the
byte `offset`. -/
def variableEmbedding (offset length : Nat) (cs : List Char) : Embedding :=
  .upTo (offset + Text.Utf8.size (cs.take (length + variableEnd (cs.drop length))))

/-- The lexeme that closes a string. -/
def quoteKind (quote : Char) : LexemeKind := if quote == '"' then .doubleQuote else .backtick

/-- A cut in a string between two `quote`s. The piece before an interpolation may be empty. -/
def quotedCut (quote : Char) (offset : Nat) (cs : List Char) : Cut :=
  match quotedPart quote 0 false cs with
  | .variableStart n => partCut n (.quoted quote (some (variableEmbedding offset n cs)))
  | .braceStart n => partCut n (.quoted quote (some .braced))
  | .closingQuote 0 => .lexeme (quoteKind quote) 1 .script
  | .closingQuote n | .plain n | .lineBeforeEnd n | .closingLabel n =>
    partCut n (.quoted quote none)

/-- A cut in the body of a here document; `afterLineEnd` tells that a line starts here. -/
def documentCut (doc : Document) (offset : Nat) (afterLineEnd : Bool) (cs : List Char) : Cut :=
  match if afterLineEnd then bodyIndent doc cs else 0 with
  | width + 1 => .lexeme .whitespace (width + 1) (.document doc none)
  | 0 =>
    match documentPart doc 0 false true cs with
    | .variableStart n => partCut n (.document doc (some (variableEmbedding offset n cs)))
    | .braceStart n => partCut n (.document doc (some .braced))
    | .closingLabel n => .lexeme .documentEnd (n + doc.label.length) .script
    | .lineBeforeEnd 0 =>
      .lexeme .whitespace (lineEndLength cs) (.document doc none)
    | .lineBeforeEnd n | .plain n | .closingQuote n => partCut n (.document doc none)

/-! ## After the end of the code -/

/-- A cut after `__halt_compiler`. -/
def haltCut (stage : HaltStage) (cs : List Char) : Cut :=
  match stage with
  | .data => .lexeme .inlineText cs.length (.halt .data)
  | stage =>
    match (cs.takeWhile isGap).length with
    | n + 1 => .lexeme .whitespace (n + 1) (.halt stage)
    | 0 =>
      match stage, cs with
      | .openParen, '(' :: _ => .lexeme .openParen 1 (.halt .closeParen)
      | .closeParen, ')' :: _ => .lexeme .closeParen 1 (.halt .terminator)
      | .terminator, ';' :: _ => .lexeme .semicolon 1 (.halt .data)
      | .terminator, '?' :: '>' :: _ => .lexeme .closeTag 2 (.halt .data)
      | _, _ => .fault 1

end Vintage.Lexeme
