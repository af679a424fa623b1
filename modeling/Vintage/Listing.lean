import Vintage.Lexeme.Reader
import Vintage.Token.OfLexemes
import Vintage.Token.Structure

/-!
# Listings

A listing is the array of tokens of one source text.

* `Listing.ofText` — the listing of a text; every text has one.
* `lastBefore?`, `firstIn?` — searches backwards and forwards.
* `textOf`, `significantTextOf` — the text of a stretch, with and without layout.
* `positionsOf` — the positions of tokens of given kinds.
-/

namespace Vintage

/-- The tokens of one source text. -/
structure Listing where
  tokens : Array Token

namespace Listing

/-- The listing that a list of lexemes of a text stands for. -/
def ofLexemes (cs : List Char) (lexemes : List Lexeme) : Listing where
  tokens := withStructure ((Source.ofChars cs).tokens lexemes)

/-- The listing of a source text. -/
def ofText (text : String) : Listing := ofLexemes text.toList (Lexeme.ofChars text.toList)

/-- The number of tokens. -/
def size (l : Listing) : Nat := l.tokens.size

/-- The token at a position. -/
def get? (l : Listing) (i : Nat) : Option Token := l.tokens[i]?

/-- The kind of the token at a position. -/
def kind? (l : Listing) (i : Nat) : Option TokenKind := (l.get? i).map Token.kind

/-! ## Searches -/

/-- The last position below `i` whose token satisfies `p`; `i` is at most the size. -/
def lastBelow? (l : Listing) (p : Token → Bool) : Nat → Option Nat
  | 0 => none
  | i + 1 => if (l.get? i).any p then some i else l.lastBelow? p i

/-- The last position before `i` whose token satisfies `p`. -/
def lastBefore? (l : Listing) (p : Token → Bool) (i : Nat) : Option Nat :=
  l.lastBelow? p (min i l.size)

/-- The first of `count` positions from `i` on whose token satisfies `p`. -/
def firstAmong? (l : Listing) (p : Token → Bool) : (count i : Nat) → Option Nat
  | 0, _ => none
  | count + 1, i => if (l.get? i).any p then some i else l.firstAmong? p count (i + 1)

/-- The first position from `start` up to `stop` whose token satisfies `p`. -/
def firstIn? (l : Listing) (p : Token → Bool) (start stop : Nat) : Option Nat :=
  l.firstAmong? p (min stop l.size - start) start

/-- The first position from `start` on whose token satisfies `p`. -/
def firstFrom? (l : Listing) (p : Token → Bool) (start : Nat) : Option Nat :=
  l.firstIn? p start l.size

/-- The nearest significant token before a position. -/
def previous? (l : Listing) (i : Nat) : Option Nat := l.lastBefore? Token.isSignificant i

/-- The nearest significant token after a position. -/
def next? (l : Listing) (i : Nat) : Option Nat := l.firstFrom? Token.isSignificant (i + 1)

/-- The kind of the token at an optional position. -/
def kindAt? (l : Listing) (i : Option Nat) : Option TokenKind := i.bind l.kind?

/-- The nearest significant token before an optional position. -/
def previousOf? (l : Listing) (i : Option Nat) : Option Nat := i.bind l.previous?

/-! ## Stretches -/

/-- The tokens from `start` up to `stop`. -/
def stretch (l : Listing) (start stop : Nat) : List Token := (l.tokens.extract start stop).toList

/-- The text from `start` up to `stop`. -/
def textOf (l : Listing) (start stop : Nat) : String :=
  String.join ((l.stretch start stop).map Token.text)

/-- The text from `start` up to `stop` without white space and comments. -/
def significantTextOf (l : Listing) (start stop : Nat) : String :=
  String.join (((l.stretch start stop).filter Token.isSignificant).map Token.text)

/-- The positions of the tokens of the given kinds, ascending. -/
def positionsOf (l : Listing) (kinds : List TokenKind) : List Nat :=
  (l.tokens.toList.zipIdx.filter fun (t, _) => kinds.contains t.kind).map (·.2)

end Listing

end Vintage
