import Vintage.Listing.Item

/-!
# Directives of `declare` statements

* `Listing.directives?` — the directives in the parentheses after `declare`.
-/

namespace Vintage

/-- A directive `name=value` of a `declare` statement. -/
structure Directive where
  name : String
  position : Nat
  /-- the trimmed source text of the value -/
  value : String
  valuePosition : Option Nat
deriving DecidableEq, Repr

namespace Listing

/-- The directive that an item gives; without a name or an equal sign there is none. -/
def directive? (l : Listing) (item : Item) : Option Directive :=
  match l.firstIn? Token.isSignificant item.start item.stop with
  | none => none
  | some position =>
    (l.firstIn? (fun t => t.kind == .equal) position item.stop).map fun equal =>
      { name := l.significantTextOf position equal
        position
        value := Text.trim (l.textOf (equal + 1) item.stop)
        valuePosition := l.firstIn? Token.isSignificant (equal + 1) item.stop }

/-- The directives of the `declare` statement at a position. -/
def directives? (l : Listing) (i : Nat) : Option (List Directive) :=
  if l.kind? i == some .kwDeclare then
    (l.arguments? i).map fun items => items.filterMap l.directive?
  else none

end Listing

end Vintage
