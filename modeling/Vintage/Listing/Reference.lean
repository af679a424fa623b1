import Vintage.Listing

/-!
# Interfaces of classes

* `Listing.interfaces` — the names after `implements`.
-/

namespace Vintage

/-- A name in a list after `implements`. -/
structure Reference where
  /-- the last piece of the name -/
  position : Nat
  /-- the name as written, layout left out -/
  name : String
deriving DecidableEq, Repr

/-- The name without its namespace. -/
def Reference.shortName (r : Reference) : String :=
  String.ofList (r.name.toList.reverse.takeWhile (· != '\\')).reverse

/-- The name has a namespace. -/
def Reference.isNamespaced (r : Reference) : Bool :=
  (r.name.toList.dropWhile (· == '\\')).contains '\\'

/-- The references in a list, `name` and `last` being what was read of the one at hand. -/
def Reference.listFrom : (name : String) → (last : Option Nat) → List (Token × Nat) →
    List Reference
  | name, last, [] => (last.map fun position => { position, name }).toList
  | name, last, (t, i) :: rest =>
    match t.kind with
    | .name => listFrom (name ++ t.text) (some i) rest
    | .nsSeparator | .kwNamespace => listFrom (name ++ t.text) last rest
    | .comma => (last.map fun position => { position, name }).toList ++ listFrom "" none rest
    | _ => listFrom name last rest

namespace Listing

/-- The tokens from `start` up to `stop` with their positions. -/
def stretchWithPositions (l : Listing) (start stop : Nat) : List (Token × Nat) :=
  (l.stretch start stop).zipIdx start

/-- The interfaces that the class or enumeration at a position implements. -/
def interfaces (l : Listing) (i : Nat) : List Reference :=
  match l.get? i with
  | none => []
  | some t =>
    if t.kind = .kwClass ∨ t.kind = .kwEnum then
      match t.scope with
      | none => []
      | some s =>
        match l.firstIn? (fun u => u.kind == .kwImplements) (i + 1) s.opener with
        | none => []
        | some start =>
          Reference.listFrom "" none (l.stretchWithPositions (start + 1) s.opener)
    else []

end Listing

end Vintage
