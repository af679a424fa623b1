import Vintage.Listing
import Vintage.Text.Blank

/-!
# Lists in parentheses

* `Listing.items?` — the items between the commas of a list in parentheses.
* `Listing.arguments?` — the arguments of a call.
-/

namespace Vintage

/-- An item of a list: the tokens from `start` up to `stop`, and their trimmed text. -/
structure Item where
  start : Nat
  stop : Nat
  text : String
deriving DecidableEq, Repr

/-- The token opens a bracket whose contents belong to one item. -/
def TokenKind.opensGroup : TokenKind → Bool
  | .openParen | .openSquare | .openBrace => true
  | _ => false

namespace Listing

/-- The item from `start` up to `stop`. -/
def item (l : Listing) (start stop : Nat) : Item :=
  { start, stop, text := Text.trim (l.textOf start stop) }

/-- The items of the `count` tokens from index `i` on. The item at hand starts at `start`; tokens
before `resume` stand in brackets. `none` if a bracket is never closed. -/
def itemsFrom? (l : Listing) : (count i start resume : Nat) → Option (List Item)
  | 0, i, start, _ => some [l.item start i]
  | count + 1, i, start, resume =>
    if i < resume then l.itemsFrom? count (i + 1) start resume
    else
      match l.get? i with
      | none => none
      | some t =>
        if t.kind.opensGroup then
          match t.partner with
          | some closer => l.itemsFrom? count (i + 1) start (closer + 1)
          | none => none
        else if t.kind = .comma then
          (l.itemsFrom? count (i + 1) (i + 1) resume).map (l.item start i :: ·)
        else l.itemsFrom? count (i + 1) start resume

/-- Drops a last item without text: an empty list and a trailing comma leave one. -/
def dropBlankLast (items : List Item) : List Item :=
  if items.getLast?.any fun item => item.text.isEmpty then items.dropLast else items

/-- The items of the list that opens at a position. -/
def items? (l : Listing) (opener : Nat) : Option (List Item) :=
  match (l.get? opener).bind Token.partner with
  | none => none
  | some closer =>
    (l.itemsFrom? (closer - (opener + 1)) (opener + 1) (opener + 1) 0).map dropBlankLast

/-- The parenthesis that opens right after a position. -/
def openerAfter? (l : Listing) (i : Nat) : Option Nat :=
  (l.next? i).filter fun n => l.kind? n == some .openParen

/-- The arguments of the call of the name at a position. -/
def arguments? (l : Listing) (i : Nat) : Option (List Item) := (l.openerAfter? i).bind l.items?

/-- One argument of a call, counted from zero. -/
def argument? (l : Listing) (i n : Nat) : Option Item := (l.arguments? i).bind (·[n]?)

end Listing

end Vintage
