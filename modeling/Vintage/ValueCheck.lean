import Vintage.Text.Ascii
import Vintage.Text.Blank

/-!
# Checks of written values

Some features take a value whose source text can be judged. A check is given that text, quotes
included.

* `unquote?` — the text between matching quotes.
* `ValueCheck.accepts` — the judgement.
-/

namespace Vintage

namespace Text

/-- The characters between two equal quotes, blanks around them ignored. -/
def unquoteChars? (cs : List Char) : Option (List Char) :=
  match trimChars cs with
  | quote :: rest =>
    if (quote == '\'' || quote == '"') && rest.getLast? == some quote then some rest.dropLast
    else none
  | [] => none

/-- The text between two equal quotes, blanks around them ignored. -/
def unquote? (text : String) : Option String := (unquoteChars? text.toList).map String.ofList

/-- The text without blanks around it and without one pair of equal quotes. -/
def unquote (text : String) : String := (unquote? text).getD (trim text)

end Text

/-- The kinds of values that are checked. -/
inductive ValueCheck where
  /-- an integer literal -/
  | ticks
  /-- `0` or `1` -/
  | strictTypes
  /-- a quoted name of a character encoding -/
  | encoding
  /-- regular expression options without the modifier `e` -/
  | regexOptions
deriving DecidableEq, Repr

/-- The character encodings that a `declare` statement may name, in lower case. -/
def knownEncodings : List String :=
  ["ascii", "us-ascii", "utf-8", "utf8", "utf-16", "utf-16be", "utf-16le", "utf-32",
   "utf-32be", "utf-32le", "ucs-2", "ucs-2be", "ucs-2le", "ucs-4", "ucs-4be", "ucs-4le",
   "iso-8859-1", "iso-8859-2", "iso-8859-3", "iso-8859-4", "iso-8859-5", "iso-8859-6",
   "iso-8859-7", "iso-8859-8", "iso-8859-9", "iso-8859-10", "iso-8859-13", "iso-8859-14",
   "iso-8859-15", "iso-8859-16", "latin1", "euc-jp", "eucjp-win", "sjis", "sjis-win",
   "shift_jis", "cp932", "cp51932", "iso-2022-jp", "jis", "euc-cn", "cp936", "gb18030",
   "hz", "euc-tw", "big-5", "big5", "cp950", "euc-kr", "uhc", "cp949", "iso-2022-kr",
   "windows-1250", "windows-1251", "windows-1252", "windows-1254", "cp1250", "cp1251",
   "cp1252", "cp866", "koi8-r", "koi8-u", "armscii-8", "utf-7", "utf7-imap", "8bit",
   "7bit", "base64", "html-entities", "quoted-printable"]

namespace ValueCheck

/-- Digits and underscores, a digit first. -/
def isIntegerLiteral (cs : List Char) : Bool :=
  cs.head?.any Char.isDigit && cs.all fun c => c.isDigit || c == '_'

/-- The check accepts a value with the given source text. -/
def accepts (check : ValueCheck) (text : String) : Bool :=
  match check with
  | ticks => isIntegerLiteral (Text.trimChars text.toList)
  | strictTypes => Text.trim text == "0" || Text.trim text == "1"
  | encoding => (Text.unquote? text).any fun value => knownEncodings.contains (Text.lower value)
  | regexOptions => (Text.unquoteChars? text.toList).all fun value => !value.contains 'e'

end ValueCheck

end Vintage
