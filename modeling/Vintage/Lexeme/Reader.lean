import Vintage.Lexeme.Cut

/-!
# Reading all lexemes of a text

The reader goes through the text cut by cut. An interpolation is read as code by a reader inside
the string's reader, up to sixty-four deep; a fault inside it ends it.

* `Reader.step` — one cut at the reader's place.
* `Reader.embed` — one interpolation.
* `Lexeme.ofChars` — the lexemes of a text. It is total: every text has a list of lexemes.
-/

namespace Vintage.Lexeme

/-- A place in a text and how the text is read there. -/
structure Reader where
  /-- the text that is left -/
  rest : List Char
  /-- the number of bytes before it -/
  offset : Nat := 0
  /-- the last character before it -/
  last : Option Char := none
  mode : Mode := .html
  place : Surroundings := {}

/-- What one step of a reader gives. -/
inductive Step where
  | lexeme (lexeme : Lexeme) (next : Reader)
  | fault (next : Reader)
  | finished

namespace Reader

/-- The reader `length` characters further on. -/
def advance (r : Reader) (length : Nat) : Reader :=
  { r with
    rest := r.rest.drop length
    offset := r.offset + Text.Utf8.size (r.rest.take length)
    last := (r.rest.take length).getLast?.or r.last }

/-- A line starts at the reader's place. -/
def afterLineEnd (r : Reader) : Bool := r.last == some '\n' || r.last == some '\r'

/-- The interpolation that starts at the reader's place. -/
def embedding? (r : Reader) : Option Embedding :=
  match r.mode with
  | .quoted _ next => next
  | .document _ next => next
  | _ => none

/-- The mode of a string or document in which no interpolation starts. -/
def settledMode (r : Reader) : Mode :=
  match r.mode with
  | .quoted quote _ => .quoted quote none
  | .document doc _ => .document doc none
  | mode => mode

/-- The cut at the reader's place. -/
def cut (r : Reader) : Cut :=
  match r.mode with
  | .html => htmlCut r.offset r.rest
  | .script => scriptCut r.place r.rest
  | .quoted quote _ => quotedCut quote r.offset r.rest
  | .document doc _ => documentCut doc r.offset r.afterLineEnd r.rest
  | .halt stage => haltCut stage r.rest

/-- One step where no interpolation starts. -/
def step (r : Reader) : Step :=
  if r.rest.isEmpty then .finished
  else
    let place := { r.place with awaitsName := false }
    match r.cut with
    | .lexeme kind length next =>
      .lexeme { kind, start := r.offset, length := Text.Utf8.size (r.rest.take length) }
        { r.advance length with mode := next, place }
    | .fault length => .fault { r.advance length with place }

/-! ## Interpolations -/

/-- The lexemes of an interpolation, the last one first, and the reader after it. -/
structure Burst where
  reversed : List Lexeme
  reader : Reader
  /-- a fault ended the interpolation -/
  faulted : Bool

/-- A name and `[` or a closing brace follow. -/
def namesVariable (cs : List Char) : Bool :=
  startsName cs &&
    match cs.drop (nameLength cs) with
    | '[' :: _ => true
    | '}' :: _ => true
    | _ => false

/-- The number of open braces after a lexeme, `none` when the last one is closed. -/
def bracesAfter (braces : Nat) : LexemeKind → Option Nat
  | .openBrace => some (braces + 1)
  | .dollarBrace => some (braces + 1)
  | .closeBrace => if braces ≤ 1 then none else some (braces - 1)
  | _ => some braces

/-- The number of open square brackets after a lexeme. -/
def squaresAfter (squares : Nat) : LexemeKind → Nat
  | .openSquare => squares + 1
  | .closeSquare => squares - 1
  | _ => squares

/-- Reads lexemes until `goal` is met. Strings inside the interpolation may have interpolations
of their own, which `inner` reads. Every turn passes over a character or starts an interpolation,
so `fuel` of four turns for each character is never used up. -/
def collect (inner : Reader → Embedding → Burst) (goal : Embedding) :
    (fuel braces : Nat) → Reader → List Lexeme → Burst
  | 0, _, r, found => ⟨found, r, false⟩
  | fuel + 1, braces, r, found =>
    match r.embedding? with
    | some embedding =>
      let burst := inner r embedding
      if burst.faulted then ⟨burst.reversed ++ found, burst.reader, true⟩
      else collect inner goal fuel braces burst.reader (burst.reversed ++ found)
    | none =>
      match r.step with
      | .finished => ⟨found, r, false⟩
      | .fault next => ⟨found, next, true⟩
      | .lexeme lexeme next =>
        match goal with
        | .upTo offset =>
          if lexeme.start ≤ offset && offset ≤ lexeme.stop then ⟨lexeme :: found, next, false⟩
          else
            let squareDepth := squaresAfter r.place.squareDepth lexeme.kind
            collect inner goal fuel braces { next with place.squareDepth := squareDepth }
              (lexeme :: found)
        | .braced =>
          match bracesAfter braces lexeme.kind with
          | none => ⟨lexeme :: found, next, false⟩
          | some braces =>
            let awaitsName := lexeme.kind == .dollarBrace && namesVariable next.rest
            collect inner goal fuel braces { next with place.awaitsName := awaitsName }
              (lexeme :: found)

/-- Turns enough to read the text that is left. -/
def turns (r : Reader) : Nat := 4 * r.rest.length + 4

/-- Reads one interpolation, at most `depth` deep; a deeper one is a fault. The string around it
goes on afterwards as it was. -/
def embed : (depth : Nat) → Reader → Embedding → Burst
  | 0, r, _ => ⟨[], r, true⟩
  | depth + 1, r, embedding =>
    let place : Surroundings := { embedded := true, braced := embedding == .braced }
    let burst := collect (embed depth) embedding r.turns 0 { r with mode := .script, place } []
    { burst with reader := { burst.reader with mode := r.settledMode, place := r.place } }

/-- The deepest nesting of interpolations. -/
def maxDepth : Nat := 64

/-- Reads all that is left; faults are passed over. -/
def readAll : (fuel : Nat) → Reader → List Lexeme → List Lexeme
  | 0, _, found => found.reverse
  | fuel + 1, r, found =>
    match r.embedding? with
    | some embedding =>
      let burst := r.embed maxDepth embedding
      readAll fuel burst.reader (burst.reversed ++ found)
    | none =>
      match r.step with
      | .finished => found.reverse
      | .fault next => readAll fuel next found
      | .lexeme lexeme next => readAll fuel next (lexeme :: found)

end Reader

/-- The lexemes of a text, in order. -/
def ofChars (cs : List Char) : List Lexeme :=
  let r : Reader := { rest := cs }
  r.readAll r.turns []

end Vintage.Lexeme
