import Vintage.Listing

/-!
# Scopes around a token

* `ScopeKind` — what a block in braces belongs to.
* `Listing.scopeKind?` — the kind of the scope that a token owns.
* `Listing.enclosing?` — the innermost scope of given kinds around a token.
-/

namespace Vintage

/-- What a block in braces belongs to. -/
inductive ScopeKind where
  | namedClass
  | anonymousClass
  | interface
  | trait
  | enumeration
  | function
  | closure
  | namespaceBlock
  /-- a control structure such as `if`, a loop or `try` -/
  | block
deriving DecidableEq, Repr

namespace ScopeKind

/-- All kinds. -/
def all : List ScopeKind :=
  [namedClass, anonymousClass, interface, trait, enumeration, function, closure, namespaceBlock,
   block]

/-- The kinds that have members. -/
def withMembers : List ScopeKind := [namedClass, anonymousClass, interface, trait, enumeration]

/-- The label of a kind in listings. -/
def label : ScopeKind → String
  | namedClass => "Class"
  | anonymousClass => "AnonymousClass"
  | interface => "Interface"
  | trait => "Trait"
  | enumeration => "Enum"
  | function => "Function"
  | closure => "Closure"
  | namespaceBlock => "Namespace"
  | block => "Block"

/-- The kind with the given label. -/
def ofLabel? (s : String) : Option ScopeKind := all.find? (·.label == s)

end ScopeKind

/-- A scope with its kind. -/
structure EnclosingScope where
  kind : ScopeKind
  scope : Scope
deriving DecidableEq, Repr

namespace Listing

/-- A function with a name: the name may stand after `&`. -/
def namesFunction (l : Listing) (i : Nat) : Bool :=
  match l.next? i with
  | some n =>
    if l.kind? n == some .ampersand then l.kindAt? (l.next? n) == some .name
    else l.kind? n == some .name
  | none => false

/-- The kind of the scope that the token at a position may own. -/
def scopeKind? (l : Listing) (i : Nat) : Option ScopeKind :=
  match l.kind? i with
  | none => none
  | some .kwClass =>
    some (if l.kindAt? (l.previous? i) == some .kwNew then .anonymousClass else .namedClass)
  | some .kwInterface => some .interface
  | some .kwTrait => some .trait
  | some .kwEnum => some .enumeration
  | some .kwFunction => some (if l.namesFunction i then .function else .closure)
  | some .kwFn => some .closure
  | some .kwNamespace => some .namespaceBlock
  | some kind => if kind.ownsScope then some .block else none

/-- The scope of the owner at a position, if its kind is one of `kinds`. -/
def ownedScope? (l : Listing) (kinds : List ScopeKind) (owner : Nat) : Option EnclosingScope :=
  match l.scopeKind? owner with
  | none => none
  | some kind =>
    if kinds.contains kind then
      ((l.get? owner).bind Token.scope).map fun s =>
        { kind, scope := { s with owner } }
    else none

/-- The innermost scope around a position whose kind is one of `kinds`. -/
def enclosing? (l : Listing) (i : Nat) (kinds : List ScopeKind) : Option EnclosingScope :=
  match l.get? i with
  | none => none
  | some t => t.owners.reverse.findSome? (l.ownedScope? kinds)

end Listing

end Vintage
