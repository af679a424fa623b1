import Vintage.Text.Split

/-!
# Literals of a TOML document

Each reader takes what it reads from the front of the characters and hands over the rest.

* `newline?`, `lineEnd?`, `skipLayout?` — what separates one thing from the next.
* `quoted?` — texts in quotation marks or apostrophes, on one line or on several.
* `key?` — the names of a key, which are joined by dots.
* `isNumber`, `isMoment` — the written forms of numbers, dates and times.
-/

namespace Vintage.Settings.Toml

/-- What a reader makes of the front of the characters, and the rest. -/
abbrev Read (α : Type) := Option (α × List Char)

/-! ## Layout -/

/-- Spaces and tabs. -/
def isSpace (c : Char) : Bool := c == ' ' || c == '\t'

/-- Characters that may stand in no comment and in no text. -/
def isControl (c : Char) : Bool := (c.toNat < 0x20 && c != '\t') || c.toNat == 0x7F

/-- The characters behind the spaces and tabs at the front. -/
def skipSpace (cs : List Char) : List Char := cs.dropWhile isSpace

/-- The characters behind a line break. -/
def newline? : List Char → Option (List Char)
  | '\n' :: rest => some rest
  | '\r' :: '\n' :: rest => some rest
  | _ => none

/-- The characters behind the end of a line: spaces, a comment, and a line break or the end. -/
def lineEnd? (cs : List Char) : Option (List Char) :=
  let isText (c : Char) : Bool := !isControl c
  let behind :=
    match skipSpace cs with
    | '#' :: rest => rest.dropWhile isText
    | rest => rest
  if behind.isEmpty then some [] else newline? behind

/-- The characters behind spaces, line breaks and comments. Inside a comment only a line break or
the end is looked for. -/
def skipLayoutFrom : Bool → List Char → Option (List Char)
  | _, [] => some []
  | _, '\r' :: '\n' :: rest => skipLayoutFrom false rest
  | _, '\n' :: rest => skipLayoutFrom false rest
  | true, c :: rest => if isControl c then none else skipLayoutFrom true rest
  | false, '#' :: rest => skipLayoutFrom true rest
  | false, c :: rest => if isSpace c then skipLayoutFrom false rest else some (c :: rest)

/-- The characters behind spaces, line breaks and comments. -/
def skipLayout? (cs : List Char) : Option (List Char) := skipLayoutFrom false cs

/-- The characters behind spaces and line breaks. -/
def skipBlank : List Char → List Char
  | '\r' :: '\n' :: rest => skipBlank rest
  | c :: rest => if isSpace c || c == '\n' then skipBlank rest else c :: rest
  | [] => []

/-! ## Texts -/

/-- The value of a hexadecimal digit. -/
def hexDigit? (c : Char) : Option Nat :=
  if c.isDigit then some (c.toNat - '0'.toNat)
  else if 'a' ≤ c && c ≤ 'f' then some (c.toNat - 'a'.toNat + 10)
  else if 'A' ≤ c && c ≤ 'F' then some (c.toNat - 'A'.toNat + 10)
  else none

/-- The character whose number is written with `count` hexadecimal digits. -/
def numbered? (count : Nat) (cs : List Char) : Read Char :=
  match (cs.take count).mapM hexDigit? with
  | none => none
  | some digits =>
    let n := digits.foldl (fun n d => 16 * n + d) 0
    if digits.length = count && n.isValidChar then some (Char.ofNat n, cs.drop count) else none

/-- The character that is written behind a backslash. -/
def escape? : List Char → Read Char
  | 'b' :: rest => some ('\x08', rest)
  | 't' :: rest => some ('\t', rest)
  | 'n' :: rest => some ('\n', rest)
  | 'f' :: rest => some ('\x0c', rest)
  | 'r' :: rest => some ('\r', rest)
  | '"' :: rest => some ('"', rest)
  | '\\' :: rest => some ('\\', rest)
  | 'u' :: rest => numbered? 4 rest
  | 'U' :: rest => numbered? 8 rest
  | _ => none

/-- A text up to its quotation mark. Each step takes a character, so the length is enough fuel. -/
def basicFrom : Nat → List Char → List Char → Read String
  | 0, _, _ => none
  | _ + 1, _, [] => none
  | _ + 1, read, '"' :: rest => some (String.ofList read.reverse, rest)
  | fuel + 1, read, '\\' :: rest =>
    match escape? rest with
    | some (c, after) => basicFrom fuel (c :: read) after
    | none => none
  | fuel + 1, read, c :: rest => if isControl c then none else basicFrom fuel (c :: read) rest

/-- The end of a text on several lines, behind the three marks that end it. Up to two marks more
belong to the text. -/
def closing (mark : Char) (read cs : List Char) : String × List Char :=
  let more := (cs.take 2).takeWhile (· == mark)
  (String.ofList (more ++ read).reverse, cs.drop more.length)

/-- A text on several lines up to its three quotation marks. A backslash at the end of a line joins
the line with what follows the blanks. -/
def longBasicFrom : Nat → List Char → List Char → Read String
  | 0, _, _ => none
  | _ + 1, _, [] => none
  | _ + 1, read, '"' :: '"' :: '"' :: rest => some (closing '"' read rest)
  | fuel + 1, read, '\\' :: rest =>
    match newline? (skipSpace rest) with
    | some after => longBasicFrom fuel read (skipBlank after)
    | none =>
      match escape? rest with
      | some (c, after) => longBasicFrom fuel (c :: read) after
      | none => none
  | fuel + 1, read, c :: rest =>
    match newline? (c :: rest) with
    | some after => longBasicFrom fuel ('\n' :: read) after
    | none => if isControl c then none else longBasicFrom fuel (c :: read) rest

/-- A text up to its apostrophe, in which nothing is special. -/
def plainFrom : List Char → List Char → Read String
  | _, [] => none
  | read, c :: rest =>
    if c = '\x27' then some (String.ofList read.reverse, rest)
    else if isControl c then none
    else plainFrom (c :: read) rest

/-- A text on several lines up to its three apostrophes, in which nothing is special. -/
def longPlainFrom : List Char → List Char → Read String
  | _, [] => none
  | read, '\x27' :: '\x27' :: '\x27' :: rest => some (closing '\x27' read rest)
  | read, '\r' :: '\n' :: rest => longPlainFrom ('\n' :: read) rest
  | read, c :: rest =>
    if isControl c && c != '\n' then none else longPlainFrom (c :: read) rest

/-- The characters behind a line break, if they start with one. -/
def afterNewline (cs : List Char) : List Char := (newline? cs).getD cs

/-- A text on one line. -/
def shortQuoted? : List Char → Read String
  | '"' :: rest => basicFrom (rest.length + 1) [] rest
  | '\x27' :: rest => plainFrom [] rest
  | _ => none

/-- A text in quotation marks or apostrophes, one or three. -/
def quoted? : List Char → Read String
  | '"' :: '"' :: '"' :: rest => longBasicFrom (rest.length + 1) [] (afterNewline rest)
  | '\x27' :: '\x27' :: '\x27' :: rest => longPlainFrom [] (afterNewline rest)
  | cs => shortQuoted? cs

/-! ## Keys -/

/-- Characters of a name without quotation marks. -/
def isBare (c : Char) : Bool := c.isAlphanum || c == '_' || c == '-'

/-- One name of a key. -/
def name? (cs : List Char) : Read String :=
  match shortQuoted? cs with
  | some found => some found
  | none =>
    match cs.takeWhile isBare with
    | [] => none
    | run => some (String.ofList run, cs.dropWhile isBare)

/-- The names of a key. Each step takes a character, so the length is enough fuel. -/
def keyFrom : Nat → List Char → Read (List String)
  | 0, _ => none
  | fuel + 1, cs =>
    match name? (skipSpace cs) with
    | none => none
    | some (name, rest) =>
      match skipSpace rest with
      | '.' :: more =>
        match keyFrom fuel more with
        | some (names, after) => some (name :: names, after)
        | none => none
      | after => some ([name], after)

/-- The names of a key and the blanks behind it. -/
def key? (cs : List Char) : Read (List String) := keyFrom (cs.length + 1) cs

/-! ## Numbers, dates and times -/

/-- Digits, with single underscores between them. -/
def isDigits (digit : Char → Bool) (cs : List Char) : Bool :=
  (Text.splitOn (· == '_') cs).all fun run => !run.isEmpty && run.all digit

/-- The value of digits in a base. -/
def valueOf (base : Nat) (cs : List Char) : Nat :=
  (cs.filterMap hexDigit?).foldl (fun n d => base * n + d) 0

/-- The characters behind a sign. -/
def unsigned : List Char → List Char
  | '+' :: rest => rest
  | '-' :: rest => rest
  | cs => cs

/-- Decimal digits without a leading zero. -/
def isPlainDecimal (cs : List Char) : Bool :=
  isDigits Char.isDigit cs && (cs.head? != some '0' || cs.length == 1)

/-- Two to the sixty-third: whole numbers lie below it, and not below its negative. -/
def integerLimit : Nat := 9223372036854775808

/-- A whole number. -/
def isInteger : List Char → Bool
  | '0' :: 'x' :: rest =>
    isDigits (fun c => (hexDigit? c).isSome) rest && valueOf 16 rest < integerLimit
  | '0' :: 'o' :: rest =>
    isDigits (fun c => '0' ≤ c && c ≤ '7') rest && valueOf 8 rest < integerLimit
  | '0' :: 'b' :: rest =>
    isDigits (fun c => c == '0' || c == '1') rest && valueOf 2 rest < integerLimit
  | cs =>
    isPlainDecimal (unsigned cs)
      && (valueOf 10 (unsigned cs) < integerLimit
        || (cs.head? == some '-' && valueOf 10 (unsigned cs) == integerLimit))

/-- The characters split at the first exponent mark. -/
def splitExponent (cs : List Char) : List Char × Option (List Char) :=
  let mark (c : Char) : Bool := c == 'e' || c == 'E'
  match cs.dropWhile fun c => !mark c with
  | [] => (cs, none)
  | _ :: rest => (cs.takeWhile fun c => !mark c, some rest)

/-- A number with a fraction or an exponent, an infinity or no number. -/
def isFraction (cs : List Char) : Bool :=
  let body := unsigned cs
  if body == "inf".toList || body == "nan".toList then true
  else
    let (mantissa, exponent) := splitExponent body
    let exponentFits :=
      match exponent with
      | none => true
      | some digits => isDigits Char.isDigit (unsigned digits)
    match Text.splitFirst '.' mantissa with
    | some (whole, part) => isPlainDecimal whole && isDigits Char.isDigit part && exponentFits
    | none => exponent.isSome && isPlainDecimal mantissa && exponentFits

/-- The written form of a number. -/
def isNumber (cs : List Char) : Bool := isInteger cs || isFraction cs

/-- Exactly `count` digits with a value between two bounds. -/
def isPart (count low high : Nat) (cs : List Char) : Bool :=
  cs.length == count && cs.all Char.isDigit && low ≤ valueOf 10 cs && valueOf 10 cs ≤ high

/-- The number of days of a month. -/
def daysOf (year month : Nat) : Nat :=
  if month = 2 then
    if year % 4 = 0 && (year % 100 != 0 || year % 400 = 0) then 29 else 28
  else if month = 4 || month = 6 || month = 9 || month = 11 then 30
  else 31

/-- A date. -/
def isDate (cs : List Char) : Bool :=
  match Text.splitOn (· == '-') cs with
  | [year, month, day] =>
    isPart 4 0 9999 year && isPart 2 1 12 month
      && isPart 2 1 (daysOf (valueOf 10 year) (valueOf 10 month)) day
  | _ => false

/-- A time of day. -/
def isTime (cs : List Char) : Bool :=
  let isSecond (s : List Char) : Bool :=
    match Text.splitFirst '.' s with
    | some (whole, part) => isPart 2 0 60 whole && !part.isEmpty && part.all Char.isDigit
    | none => isPart 2 0 60 s
  match Text.splitOn (· == ':') cs with
  | [hour, minute, second] => isPart 2 0 23 hour && isPart 2 0 59 minute && isSecond second
  | _ => false

/-- A time of day with or without its distance from the zero meridian. -/
def isClock (cs : List Char) : Bool :=
  let isShift (s : List Char) : Bool :=
    match Text.splitOn (· == ':') s with
    | [hour, minute] => isPart 2 0 24 hour && isPart 2 0 59 minute
    | _ => false
  let isSign (c : Char) : Bool := c == '+' || c == '-'
  match cs.dropWhile fun c => !isSign c with
  | _ :: shift => isTime (cs.takeWhile fun c => !isSign c) && isShift shift
  | [] =>
    isTime cs
      || ((cs.getLast? == some 'Z' || cs.getLast? == some 'z') && isTime cs.dropLast)

/-- The written form of a date, a time or both. -/
def isMoment (cs : List Char) : Bool :=
  isDate cs || isTime cs
    || (isDate (cs.take 10)
      && match cs.drop 10 with
        | 'T' :: rest => isClock rest
        | 't' :: rest => isClock rest
        | ' ' :: rest => isClock rest
        | _ => false)

end Vintage.Settings.Toml
