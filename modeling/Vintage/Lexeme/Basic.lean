import Vintage.Lexeme.Document
import Vintage.Lexeme.Keyword

/-!
# Lexemes

A lexeme is a piece of a PHP text: most stand for one token, the marks of interpolated strings
and here documents delimit a token, and a qualified name falls apart into several.

Positions are byte offsets from the start of the text.
-/

namespace Vintage

/-- A piece of a text: `length` bytes from the byte `start` on. -/
structure Lexeme where
  kind : LexemeKind
  start : Nat
  length : Nat
deriving DecidableEq, Repr

namespace Lexeme

/-- The offset at which the lexeme stops, which is not part of it. -/
def stop (x : Lexeme) : Nat := x.start + x.length

/-- What an interpolation ends with. -/
inductive Embedding where
  /-- the first lexeme that reaches the offset -/
  | upTo (offset : Nat)
  /-- the brace that closes the first one -/
  | braced
deriving DecidableEq, Repr

/-- What is awaited after `__halt_compiler`. -/
inductive HaltStage where
  | openParen
  | closeParen
  /-- one of `;` and `?>` -/
  | terminator
  /-- everything that is left, which is data -/
  | data
deriving DecidableEq, Repr

/-- How the text at the current place is read. -/
inductive Mode where
  /-- text outside PHP tags -/
  | html
  /-- PHP code -/
  | script
  /-- a string between two quotes; an interpolation may start here -/
  | quoted (quote : Char) (next : Option Embedding)
  /-- the body of a here document; an interpolation may start here -/
  | document (doc : Document) (next : Option Embedding)
  /-- the end of the code, after `__halt_compiler` -/
  | halt (stage : HaltStage)
deriving DecidableEq, Repr

end Lexeme

end Vintage
