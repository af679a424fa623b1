import Vintage.Lexeme.Alphabet

/-!
# Lengths of names, numbers, strings and comments

Each function measures what the text it is given starts with. A length never exceeds the length
of the text.

* `nameLength`, `continuesName`, `qualifiedLength` — names and names with a namespace.
* `digitsLength`, `numberShape`, `offsetNumberLength` — numbers.
* `quotedLength`, `closesQuote`, `isPlainQuoted` — string literals.
* `lineCommentLength`, `blockCommentLength` — comments.
* `castLength` — casts such as `(int)`.
* `variableEnd`, `braceEnd` — how far an interpolation reaches.
-/

namespace Vintage.Lexeme

/-! ## Names -/

/-- A name: its first character whatever it is, then name characters. -/
def nameLength : List Char → Nat
  | [] => 0
  | _ :: cs => 1 + (cs.takeWhile isNamePart).length

/-- The text starts with a backslash and a name. -/
def continuesName : List Char → Bool
  | '\\' :: cs => startsName cs
  | _ => false

/-- The length of the pieces `\name` that the text starts with. -/
def segmentsLength : Nat → List Char → Nat
  | n, [] => n
  | n, c :: cs =>
    if c == '\\' then (if startsName cs then segmentsLength (n + 1) cs else n)
    else if isNamePart c then segmentsLength (n + 1) cs
    else n

/-- A name and the pieces `\name` after it. -/
def qualifiedLength : List Char → Nat
  | [] => 0
  | _ :: cs => segmentsLength 1 cs

/-! ## Numbers -/

/-- A run of digits in which single underscores may stand before a digit. -/
def digitsLength (isDigit : Char → Bool) : Nat → List Char → Nat
  | n, [] => n
  | n, c :: cs =>
    if isDigit c then digitsLength isDigit (n + 1) cs
    else if c == '_' then
      match cs with
      | d :: ds => if isDigit d then digitsLength isDigit (n + 2) ds else n
      | [] => n
    else n

/-- The digits of the base that the letter after a leading `0` stands for. -/
def baseDigits? (c : Char) : Option (Char → Bool) :=
  match c.toLower with
  | 'b' => some isBinaryDigit
  | 'o' => some isOctalDigit
  | 'x' => some isHexDigit
  | _ => none

/-- The characters that make a number go on as a decimal fraction or with an exponent. -/
def startsFraction : List Char → Bool
  | '.' :: _ => true
  | e :: c :: cs =>
    (e == 'e' || e == 'E') &&
      (c.isDigit || ((c == '+' || c == '-') && (match cs with | d :: _ => d.isDigit | [] => false)))
  | _ => false

/-- An exponent: the letter, a sign or none, digits; `0` if there are no digits. -/
def exponentLength : List Char → Nat
  | e :: cs =>
    if e == 'e' || e == 'E' then
      let sign := match cs with
        | s :: _ => if s == '+' || s == '-' then 1 else 0
        | [] => 0
      let digits := digitsLength Char.isDigit 0 (cs.drop sign)
      if digits == 0 then 0 else 1 + sign + digits
    else 0
  | [] => 0

/-- A number in a script: its kind and length. -/
inductive NumberShape where
  | integer (length : Nat)
  | float (length : Nat)
  /-- an octal number with a digit `8` or `9` -/
  | malformed (length : Nat)

/-- A whole number in decimal or octal digits, or a float, starting with a digit. -/
def decimalShape (cs : List Char) : NumberShape :=
  let whole := 1 + digitsLength Char.isDigit 0 (cs.drop 1)
  let rest := cs.drop whole
  if startsFraction rest then
    let point := match rest with
      | '.' :: fraction => 1 + digitsLength Char.isDigit 0 fraction
      | _ => 0
    .float (whole + point + exponentLength (rest.drop point))
  else if cs.head? == some '0' && (cs.take whole).any (fun c => c == '8' || c == '9') then
    .malformed whole
  else .integer whole

/-- A number in a script, starting with a digit. -/
def numberShape (cs : List Char) : NumberShape :=
  match cs with
  | '0' :: c :: d :: _ =>
    match baseDigits? c with
    | some isDigit =>
      if isDigit d then .integer (2 + digitsLength isDigit 0 (cs.drop 2)) else decimalShape cs
    | none => decimalShape cs
  | _ => decimalShape cs

/-- A number between square brackets inside a string, starting with a digit. -/
def offsetNumberLength (cs : List Char) : Nat :=
  match cs with
  | '0' :: c :: rest =>
    match baseDigits? c with
    | some isDigit => 2 + digitsLength isDigit 0 rest
    | none => 1 + digitsLength Char.isDigit 0 (c :: rest)
  | _ => 1 + digitsLength Char.isDigit 0 (cs.drop 1)

/-! ## String literals -/

/-- From after an opening quote to after the closing one; to the end if there is none. A
backslash hides the character after it. -/
def quotedLength (quote : Char) : Nat → List Char → Nat
  | n, [] => n
  | n, c :: cs =>
    if c == '\\' then
      match cs with
      | _ :: rest => quotedLength quote (n + 2) rest
      | [] => n + 1
    else if c == quote then n + 1
    else quotedLength quote (n + 1) cs

/-- The quote that closes the text after an opening one is there. -/
def closesQuote (quote : Char) : List Char → Bool
  | [] => false
  | c :: cs =>
    if c == '\\' then
      match cs with
      | _ :: rest => closesQuote quote rest
      | [] => false
    else if c == quote then true
    else closesQuote quote cs

/-- The double-quoted text after an opening quote holds no interpolation. -/
def isPlainQuoted : List Char → Bool
  | [] => true
  | c :: cs =>
    if c == '\\' then
      match cs with
      | _ :: rest => isPlainQuoted rest
      | [] => true
    else if c == '"' then true
    else if c == '$' && (startsLetter cs || cs.head? == some '{') then false
    else if c == '{' && cs.head? == some '$' then false
    else isPlainQuoted cs

/-! ## Comments -/

/-- A comment after its mark: up to the line end or `?>`, without one blank before `?>`. -/
def lineCommentLength : Nat → (afterBlank : Bool) → List Char → Nat
  | n, _, [] => n
  | n, afterBlank, c :: cs =>
    if c == '\n' || c == '\r' then n
    else if c == '?' && cs.head? == some '>' then (if afterBlank then n - 1 else n)
    else lineCommentLength (n + 1) (isSpace c) cs

/-- A comment after its `/*`, up to and with the first `*/`. -/
def blockCommentLength : Nat → List Char → Option Nat
  | _, [] => none
  | n, c :: cs =>
    if c == '*' && cs.head? == some '/' then some (n + 2) else blockCommentLength (n + 1) cs

/-! ## Casts -/

/-- The text spells `word` in any case; blanks may stand before each of its characters. -/
def spacedLength : Nat → List Char → List Char → Option Nat
  | n, [], _ => some n
  | _, _ :: _, [] => none
  | n, w :: word, c :: cs =>
    if isSpace c then spacedLength (n + 1) (w :: word) cs
    else if c.toLower == w then spacedLength (n + 1) word cs
    else none

/-- The types that a cast may name. -/
def castWords : List String :=
  ["int", "integer", "double", "float", "real", "bool", "boolean", "string", "binary", "array",
   "object", "unset", "void"]

/-- A cast after its opening parenthesis, up to and with the closing one. -/
def castLength (cs : List Char) : Option Nat :=
  castWords.findSome? fun word => spacedLength 0 (word.toList ++ [')']) cs

/-! ## Reach of an interpolation -/

/-- From after a `[` to after its matching `]`; it stops before a blank. -/
def subscriptLength : (depth n : Nat) → List Char → Nat
  | _, n, [] => n
  | depth, n, c :: cs =>
    if isSpace c then n
    else if c == '[' then subscriptLength (depth + 1) (n + 1) cs
    else if c == ']' then
      (match depth with
        | 0 => n + 1
        | d + 1 => subscriptLength d (n + 1) cs)
    else subscriptLength depth (n + 1) cs

/-- What may follow a variable inside a string: one subscript or one property. -/
def selectorLength : List Char → Nat
  | '[' :: cs => 1 + subscriptLength 0 0 cs
  | '-' :: '>' :: cs => if startsLetter cs then 2 + nameLength cs else 0
  | '?' :: '-' :: '>' :: cs => if startsLetter cs then 3 + nameLength cs else 0
  | _ => 0

/-- The reach of an interpolation that starts with `$name`. -/
def variableEnd (cs : List Char) : Nat :=
  let n := 1 + nameLength (cs.drop 1)
  n + selectorLength (cs.drop n)

/-- From inside a brace to after the matching `}`; quoted text in it is passed over. -/
def bracedLength : (depth n : Nat) → (quote : Option Char) → List Char → Nat
  | _, n, _, [] => n
  | depth, n, some q, c :: cs =>
    if c == '\\' then
      match cs with
      | _ :: rest => bracedLength depth (n + 2) (some q) rest
      | [] => n + 1
    else bracedLength depth (n + 1) (if c == q then none else some q) cs
  | depth, n, none, c :: cs =>
    if c == '{' then bracedLength (depth + 1) (n + 1) none cs
    else if c == '}' then
      (match depth with
        | 0 => n + 1
        | d + 1 => bracedLength d (n + 1) none cs)
    else if c == '\'' || c == '"' || c == '\x60' then bracedLength depth (n + 1) (some c) cs
    else bracedLength depth (n + 1) none cs

/-- The reach of an interpolation that starts with two characters holding a brace and `$`. -/
def braceEnd (cs : List Char) : Nat := 2 + bracedLength 0 0 none (cs.drop 2)

end Vintage.Lexeme
