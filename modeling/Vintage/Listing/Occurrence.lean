import Vintage.Listing

/-!
# Occurrences of names

* `Listing.occurrence?` — what stands around a name.
* `Listing.isGlobalCall` — the name is called as a global function.
* `Listing.isGlobalConstant` — the name is used as a global constant.
-/

namespace Vintage

/-- What stands around a name. -/
structure Context where
  /-- the name is being declared -/
  declaration : Bool := false
  /-- it stands after `->`, `?->` or `::` -/
  memberAccess : Bool := false
  /-- it is qualified with a namespace -/
  namespaced : Bool := false
  /-- it stands after a leading backslash -/
  fullyQualified : Bool := false
  /-- it stands after `new` -/
  instantiation : Bool := false
  /-- an argument list follows -/
  call : Bool := false
deriving DecidableEq, Repr

/-- The name is not global: it is declared, a member, in a namespace or instantiated. -/
def Context.isBound (c : Context) : Bool :=
  c.declaration || c.memberAccess || c.namespaced || c.instantiation

/-- A name with what stands around it. -/
structure Occurrence where
  position : Nat
  name : String
  context : Context
deriving DecidableEq, Repr

/-- Keywords that declare or import the name after them. -/
def TokenKind.declaresName : TokenKind → Bool
  | .kwFunction | .kwClass | .kwConst | .kwInterface | .kwTrait | .kwEnum | .kwUse | .kwNamespace
  | .kwGoto | .kwAs | .kwInsteadof => true
  | _ => false

/-- Tokens that a qualified name is made of. -/
def TokenKind.isNamePiece : TokenKind → Bool
  | .name | .kwNamespace | .nsSeparator => true
  | _ => false

/-- What stands before a name, its namespace left out. -/
structure Qualifier where
  namespaced : Bool := false
  fullyQualified : Bool := false
  /-- the significant token before the whole name -/
  before : Option Nat

namespace Listing

/-- The last significant token before a position whose kind is not accepted by `skip`. -/
def previousUnless? (l : Listing) (skip : TokenKind → Bool) (i : Nat) : Option Nat :=
  l.lastBefore? (fun t => t.isSignificant && !skip t.kind) i

/-- What qualifies the name at a position. -/
def qualifier (l : Listing) (i : Nat) : Qualifier :=
  match l.previous? i with
  | none => { before := none }
  | some p =>
    if l.kind? p == some .nsSeparator then
      match l.previous? p with
      | none => { fullyQualified := true, before := none }
      | some q =>
        if l.kind? q == some .name || l.kind? q == some .kwNamespace then
          { namespaced := true, before := l.previousUnless? TokenKind.isNamePiece q }
        else { fullyQualified := true, before := some q }
    else { before := some p }

/-- The significant token at an optional position declares the name after it. -/
def declares (l : Listing) (before : Option Nat) : Bool :=
  match l.kindAt? before with
  | some .ampersand => l.kindAt? (l.previousOf? before) == some .kwFunction
  | some kind => kind.declaresName
  | none => false

/-- Whether an argument list follows a position; `none` if it is never closed. -/
def followedByArguments? (l : Listing) (i : Nat) : Option Bool :=
  match (l.next? i).bind l.get? with
  | some t =>
    if t.kind = .openParen then (if t.partner.isSome then some true else none) else some false
  | none => some false

/-- The name at a position with what stands around it. There is none if the token is no name, or
if the name is called and its argument list is never closed. -/
def occurrence? (l : Listing) (i : Nat) : Option Occurrence :=
  match l.get? i with
  | none => none
  | some t =>
    if t.kind = .name then
      (l.followedByArguments? i).map fun call =>
        let q := l.qualifier i
        let kind := l.kindAt? q.before
        { position := i
          name := t.text
          context :=
            { declaration := l.declares q.before
              memberAccess := kind.any TokenKind.isMemberAccess
              namespaced := q.namespaced
              fullyQualified := q.fullyQualified
              instantiation := kind == some .kwNew
              call } }
    else none

/-- The name at a position is called as a global function. -/
def isGlobalCall (l : Listing) (i : Nat) : Bool :=
  match l.occurrence? i with
  | some o => o.context.call && !o.context.isBound
  | none => false

/-! ## Constants -/

/-- Tokens before which a name is no constant. -/
def excludesConstantBefore : TokenKind → Bool
  | .doubleColon | .nsSeparator | .variableName | .ellipsis | .openBrace => true
  | _ => false

/-- Keywords after which a name is a class. -/
def announcesClass : TokenKind → Bool
  | .kwExtends | .kwImplements | .kwInstanceof | .kwCatch => true
  | _ => false

/-- Tokens that lists of classes are made of. -/
def isListPiece : TokenKind → Bool
  | .name | .nsSeparator | .comma | .bitwiseOr => true
  | _ => false

/-- The position is in a list of classes after `extends` or `implements`, or in a `catch`. -/
def inClassList (l : Listing) (i : Nat) : Bool :=
  match (l.previousUnless? isListPiece i).bind l.get? with
  | none => false
  | some t =>
    match t.kind with
    | .kwImplements | .kwExtends | .kwCatch => true
    | .openParen => l.kindAt? t.parenOwner == some .kwCatch
    | _ => false

/-- Tokens between which and a colon a name is a label or the name of an argument. -/
def precedesLabel : TokenKind → Bool
  | .semicolon | .openBrace | .closeBrace | .openTag | .openParen | .comma => true
  | _ => false

/-- The owner of parentheses makes them a list of parameters or of captured variables. -/
def isFunctionLike (l : Listing) (owner : Option Nat) : Bool :=
  match l.kindAt? owner with
  | some .kwFunction | some .kwFn | some .kwUse => true
  | some .name =>
    let before := l.kindAt? (l.previousOf? owner)
    before == some .kwFunction || before == some .ampersand
  | _ => false

/-- The colon of a return type: it follows the parentheses of a function. -/
def isReturnColon (l : Listing) (colon : Option Nat) : Bool :=
  l.kindAt? colon == some .colon &&
    match (l.previousOf? colon).bind l.get? with
    | some t => t.kind == .closeParen && l.isFunctionLike t.parenOwner
    | none => false

/-- A return type follows the significant token at an optional position. -/
def announcesReturnType (l : Listing) (before : Option Nat) : Bool :=
  match l.kindAt? before with
  | some .colon => l.isReturnColon before
  | some .questionMark => l.isReturnColon (l.previousOf? before)
  | _ => false

/-- The name at a position, standing after `before`, is a class, a type, a label or the name of an
argument. -/
def isOtherName (l : Listing) (i : Nat) (before : Option Nat) : Bool :=
  let previous := l.kindAt? before
  let next := l.kindAt? (l.next? i)
  next.any excludesConstantBefore
    || previous.any announcesClass
    || ((previous == some .comma || previous == some .bitwiseOr) && l.inClassList i)
    || (next == some .colon && previous.all precedesLabel)
    || l.announcesReturnType before

/-- The token before a name and its leading backslash. -/
def beforeName? (l : Listing) (o : Occurrence) : Option Nat :=
  let p := l.previous? o.position
  if o.context.fullyQualified then l.previousOf? p else p

/-- The name at a position is used as a global constant. -/
def isGlobalConstant (l : Listing) (i : Nat) : Bool :=
  match l.occurrence? i with
  | some o => !(o.context.call || o.context.isBound || l.isOtherName i (l.beforeName? o))
  | none => false

end Listing

end Vintage
