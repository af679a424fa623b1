import Vintage.Text.Ascii
import Vintage.Text.Blank
import Vintage.Text.Split

/-!
# PHP versions

A version is `major.minor` with an optional patch number. Two orders are used.

* `Version.compare` — the strict order; a version without a patch stands at patch `0`.
* `Version.compareLoose` — the order on the components both versions give, so `7.0` is level
  with every `7.0.x`.
* `Version.parse`, `Version.text` — reading and writing.
-/

namespace Vintage

/-- A PHP version, `major.minor` or `major.minor.patch`, with 16-bit components. -/
structure Version where
  major : UInt16
  minor : UInt16
  patch : Option UInt16 := none
deriving DecidableEq, Repr

/-- Why a text is not a version. -/
inductive VersionError where
  /-- the text is not two or three dotted numbers below 65536 -/
  | invalid (text : String)
deriving DecidableEq, Repr

namespace VersionError

/-- The wording of a version error. -/
def message : VersionError → String
  | invalid text => "Invalid PHP version '" ++ text ++ "'"

end VersionError

namespace Version

/-- The components that the strict order compares. -/
def key (v : Version) : Nat × Nat × Nat :=
  (v.major.toNat, v.minor.toNat, (v.patch.getD 0).toNat)

/-- The strict order: lexicographic on the components, a missing patch counting as `0`. -/
def compare (v w : Version) : Ordering :=
  (Ord.compare v.key.1 w.key.1).then
    ((Ord.compare v.key.2.1 w.key.2.1).then (Ord.compare v.key.2.2 w.key.2.2))

/-- The two versions stand at the same place of the strict order. -/
def level (v w : Version) : Bool := v.key == w.key

/-- The loose order: the patches count only if both versions give one. -/
def compareLoose (v w : Version) : Ordering :=
  (Ord.compare v.major.toNat w.major.toNat).then
    ((Ord.compare v.minor.toNat w.minor.toNat).then
      (match v.patch, w.patch with
        | some p, some q => Ord.compare p.toNat q.toNat
        | _, _ => .eq))

/-- One component: a run of digits with a value below 65536. -/
def component? (cs : List Char) : Option UInt16 :=
  match Text.natural? cs with
  | some n => if n < 65536 then some (UInt16.ofNat n) else none
  | none => none

/-- The version that the characters spell, blanks not allowed. -/
def ofChars? (cs : List Char) : Option Version :=
  match Text.splitOn (· == '.') cs with
  | [a, b] =>
    match component? a, component? b with
    | some major, some minor => some { major, minor }
    | _, _ => none
  | [a, b, c] =>
    match component? a, component? b, component? c with
    | some major, some minor, some patch => some { major, minor, patch := some patch }
    | _, _, _ => none
  | _ => none

/-- Reads a version; blanks around it are ignored. -/
def parse (text : String) : Except VersionError Version :=
  match ofChars? (Text.trimChars text.toList) with
  | some v => .ok v
  | none => .error (.invalid text)

/-- The written form, without leading zeros. -/
def text (v : Version) : String :=
  match v.patch with
  | none => Nat.repr v.major.toNat ++ "." ++ Nat.repr v.minor.toNat
  | some p =>
    Nat.repr v.major.toNat ++ "." ++ Nat.repr v.minor.toNat ++ "." ++ Nat.repr p.toNat

end Version

end Vintage
