/-!
# Characters of PHP text

Names may hold ASCII letters, digits, the underscore and every character outside ASCII.
-/

namespace Vintage.Lexeme

/-- An ASCII letter or the underscore. -/
def isLetter (c : Char) : Bool := c.isAlpha || c == '_'

/-- A character a name may start with. -/
def isNameStart (c : Char) : Bool := isLetter c || 127 < c.toNat

/-- A character a name may go on with. -/
def isNamePart (c : Char) : Bool := isNameStart c || c.isDigit

/-- The blanks of here documents, casts and comments. -/
def isSpace (c : Char) : Bool :=
  c == ' ' || c == '\t' || c == '\n' || c == '\r' || c == '\x0c'

/-- The blanks between tokens: the vertical tab is one of them. -/
def isGap (c : Char) : Bool := isSpace c || c == '\x0b'

/-- A space or a tab. -/
def isIndent (c : Char) : Bool := c == ' ' || c == '\t'

/-- A digit of base two. -/
def isBinaryDigit (c : Char) : Bool := c == '0' || c == '1'

/-- A digit of base eight. -/
def isOctalDigit (c : Char) : Bool := '0' ≤ c && c ≤ '7'

/-- A digit of base sixteen. -/
def isHexDigit (c : Char) : Bool :=
  c.isDigit || ('a' ≤ c && c ≤ 'f') || ('A' ≤ c && c ≤ 'F')

/-- The text starts with a name character. -/
def startsName : List Char → Bool
  | c :: _ => isNameStart c
  | [] => false

/-- The text starts with an ASCII letter or the underscore. -/
def startsLetter : List Char → Bool
  | c :: _ => isLetter c
  | [] => false

/-- The length of the line end that the text starts with; `0` if there is none. -/
def lineEndLength : List Char → Nat
  | '\r' :: '\n' :: _ => 2
  | '\n' :: _ => 1
  | '\r' :: _ => 1
  | _ => 0

/-- The text starts with `word`, and no name character follows. -/
def startsWithWord (word cs : List Char) : Bool :=
  word.isPrefixOf cs &&
    match cs.drop word.length with
    | c :: _ => !isNamePart c
    | [] => true

end Vintage.Lexeme
