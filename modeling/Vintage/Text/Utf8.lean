/-!
# UTF-8

Bytes are read as UTF-8 one after the other. What cannot be continued to a character is given up at
once, so a malformed stretch falls into the longest parts that a character could start with.

* `Utf8.encode`, `Utf8.size` — the bytes of some characters, and how many they are.
* `Utf8.startsChar` — the bytes that a character may start with.
* `Utf8.parts` — the characters, with the malformed parts marked.
* `Utf8.decode?` — the text of well-formed bytes.
* `Utf8.decodeLossy` — the text with U+FFFD for each malformed part.
-/

namespace Vintage.Text.Utf8

/-- The bytes of the characters. -/
def encode (cs : List Char) : List UInt8 := cs.flatMap String.utf8EncodeChar

/-- The number of bytes of the characters. -/
def size (cs : List Char) : Nat := cs.foldr (fun c bytes => c.utf8Size + bytes) 0

/-- The byte is the first one of a character, not one of the later ones. -/
def startsChar (byte : UInt8) : Bool := byte < 0x80 || 0xC0 ≤ byte

/-- A character of which more bytes are awaited. -/
structure Pending where
  /-- how many bytes are awaited after the next one -/
  later : Nat
  /-- the least value of the next byte -/
  low : Nat
  /-- the greatest value of the next byte -/
  high : Nat
  /-- the bits read -/
  bits : Nat
deriving DecidableEq, Repr

/-- Where the reader stands: the parts read, in reverse, and the character it is in. -/
structure State where
  /-- the characters read, with nothing for a malformed part -/
  parts : List (Option Char) := []
  pending : Option Pending := none
deriving DecidableEq, Repr

namespace State

/-- Reads the first byte of a character. -/
def start (s : State) (byte : UInt8) : State :=
  let b := byte.toNat
  let lead (later low high bits : Nat) : State :=
    { s with pending := some ⟨later, low, high, bits⟩ }
  if b < 0x80 then { parts := some (Char.ofNat b) :: s.parts }
  else if b < 0xC2 then { parts := none :: s.parts }
  else if b < 0xE0 then lead 0 0x80 0xBF (b - 0xC0)
  else if b = 0xE0 then lead 1 0xA0 0xBF 0
  else if b = 0xED then lead 1 0x80 0x9F 0xD
  else if b < 0xF0 then lead 1 0x80 0xBF (b - 0xE0)
  else if b = 0xF0 then lead 2 0x90 0xBF 0
  else if b < 0xF4 then lead 2 0x80 0xBF (b - 0xF0)
  else if b = 0xF4 then lead 2 0x80 0x8F 4
  else { parts := none :: s.parts }

/-- Gives up the character that the reader is in. -/
def giveUp (s : State) : State :=
  match s.pending with
  | some _ => { parts := none :: s.parts }
  | none => s

/-- Reads one byte. -/
def step (s : State) (byte : UInt8) : State :=
  match s.pending with
  | none => s.start byte
  | some p =>
    if p.low ≤ byte.toNat && byte.toNat ≤ p.high then
      let bits := 64 * p.bits + (byte.toNat - 0x80)
      match p.later with
      | 0 => { parts := some (Char.ofNat bits) :: s.parts }
      | later + 1 => { s with pending := some ⟨later, 0x80, 0xBF, bits⟩ }
    else s.giveUp.start byte

end State

/-- The characters that the bytes spell, with nothing for each malformed part. -/
def parts (bytes : List UInt8) : List (Option Char) :=
  (bytes.foldl State.step {}).giveUp.parts.reverse

/-- The text that the bytes spell, if they are well-formed. -/
def decode? (bytes : List UInt8) : Option String :=
  ((parts bytes).mapM fun part => part).map String.ofList

/-- The text that the bytes spell, with U+FFFD for each malformed part. -/
def decodeLossy (bytes : List UInt8) : String :=
  String.ofList ((parts bytes).map fun part => part.getD '\ufffd')

end Vintage.Text.Utf8
