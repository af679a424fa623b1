import Vintage.Token.Kind
import Vintage.Text.Ascii

/-!
# Tokens

A token is a piece of a source text with its kind, its place, and what is known of the structure
around it. Tokens refer to each other by their index in the listing.
-/

namespace Vintage

/-- A block in braces and the keyword it belongs to, by token index. -/
structure Scope where
  owner : Nat
  opener : Nat
  closer : Nat
deriving DecidableEq, Repr

/-- A token of a source text. Lines and columns count from one. -/
structure Token where
  kind : TokenKind
  text : String
  line : Nat
  column : Nat
  /-- for a bracket, the bracket it pairs with -/
  partner : Option Nat := none
  /-- for a parenthesis, the keyword or name that the parentheses belong to -/
  parenOwner : Option Nat := none
  /-- for a scope's owner and its braces, the scope -/
  scope : Option Scope := none
  /-- the owners of the scopes around the token, outermost first -/
  owners : List Nat := []
deriving DecidableEq, Repr

namespace Token

/-- White space or a comment. -/
def isLayout (t : Token) : Bool := t.kind.isLayout

/-- A token with meaning. -/
def isSignificant (t : Token) : Bool := !t.kind.isLayout

/-- The token's text is `s` up to the case of ASCII letters. -/
def spells (t : Token) (s : String) : Bool := Text.sameLetters t.text s

end Token

end Vintage
