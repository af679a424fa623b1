import Vintage.Lexeme.Basic
import Vintage.Source
import Vintage.Token.Basic

/-!
# Tokens from lexemes

* `Source.tokens` — the tokens that a list of lexemes stands for: an interpolated string, a shell
  command or a here document becomes one token, a qualified name several.
-/

namespace Vintage

namespace Source

/-- The token of the given kind from `start` up to `stop`. -/
def token (s : Source) (kind : TokenKind) (start stop : Nat) : Token where
  kind := kind
  text := s.slice start stop
  line := (s.place start).1
  column := (s.place start).2

/-! ## Qualified names -/

/-- The kind of one piece of a qualified name. -/
def pieceKind (word : String) : TokenKind :=
  if Text.sameLetters word "namespace" then .kwNamespace else .name

/-- The token of one piece of a qualified name; an empty piece has none. -/
def pieceToken (s : Source) (start stop : Nat) : List Token :=
  if start < stop then [s.token (pieceKind (s.slice start stop)) start stop] else []

/-- The pieces of a qualified name and the backslashes between them. The piece at hand starts at
`start`; `offset` is the offset of the bytes that are left. -/
def nameTokens (s : Source) (start offset : Nat) : List UInt8 → List Token
  | [] => s.pieceToken start offset
  | byte :: bytes =>
    if byte == '\\'.toUInt8 then
      s.pieceToken start offset ++
        s.token .nsSeparator offset (offset + 1) :: s.nameTokens (offset + 1) (offset + 1) bytes
    else s.nameTokens start (offset + 1) bytes

/-! ## Interpolated strings and here documents -/

/-- The token that a lexeme opens, and the lexeme that closes it. -/
def opening? : LexemeKind → Option (TokenKind × LexemeKind)
  | .doubleQuote => some (.interpolatedText, .doubleQuote)
  | .backtick => some (.shellCommand, .backtick)
  | .documentStart .heredoc => some (.heredoc, .documentEnd)
  | .documentStart .nowdoc => some (.nowdoc, .documentEnd)
  | _ => none

/-- The tokens of a lexeme that opens nothing. -/
def lexemeTokens (s : Source) (lexeme : Lexeme) : List Token :=
  match lexeme.kind with
  | .qualifiedName | .globalName =>
    s.nameTokens lexeme.start lexeme.start (s.bytes.extract lexeme.start lexeme.stop).toList
  | kind => [s.token kind.tokenKind lexeme.start lexeme.stop]

/-- A token that is being put together from several lexemes. -/
structure Pending where
  kind : TokenKind
  start : Nat
  /-- where the last lexeme so far stops -/
  stop : Nat
  closing : LexemeKind

/-- The tokens of the lexemes. Between an opening lexeme and the next closing one all lexemes
belong to one token; without a closing lexeme it reaches to the last one. -/
def tokensFrom (s : Source) : Option Pending → List Lexeme → List Token
  | none, [] => []
  | some p, [] => [s.token p.kind p.start p.stop]
  | some p, lexeme :: rest =>
    if lexeme.kind = p.closing then
      s.token p.kind p.start lexeme.stop :: s.tokensFrom none rest
    else s.tokensFrom (some { p with stop := lexeme.stop }) rest
  | none, lexeme :: rest =>
    match opening? lexeme.kind with
    | some (kind, closing) =>
      s.tokensFrom (some { kind, start := lexeme.start, stop := lexeme.stop, closing }) rest
    | none => s.lexemeTokens lexeme ++ s.tokensFrom none rest

/-- The tokens that the lexemes of a text stand for. -/
def tokens (s : Source) (lexemes : List Lexeme) : List Token := s.tokensFrom none lexemes

end Source

end Vintage
