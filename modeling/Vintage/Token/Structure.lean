import Vintage.Token.Basic

/-!
# Structure of a list of tokens

Four passes fill in what single tokens do not show.

* `settleNames` — keywords that serve as names become names.
* `Bracket.pairs` — which brackets belong together; the three kinds are matched independently.
* `Scope.findAll` — the blocks in braces that belong to a keyword.
* `surround` — the owners of the scopes around each token.
* `withStructure` — the four passes one after the other.
-/

namespace Vintage

/-! ## Keywords that are names -/

/-- The kinds of the last two significant tokens, the nearer one first. -/
structure Before where
  last : Option TokenKind := none
  lastButOne : Option TokenKind := none

/-- What stands before the token after one of the given kind. -/
def Before.push (b : Before) (kind : TokenKind) : Before :=
  if kind.isLayout then b else { last := some kind, lastButOne := b.last }

/-- A member is selected. -/
def Before.selectsMember (b : Before) : Bool := b.last.any TokenKind.isMemberAccess

/-- A function or constant is being declared. -/
def Before.declares (b : Before) : Bool :=
  match b.last with
  | some .kwFunction | some .kwConst => true
  | some .ampersand => b.lastButOne == some .kwFunction
  | _ => false

/-- The kind of a token of the given kind, `next` being the kind of the next significant token.
The word `enum` is a keyword only before a name. -/
def settledKind (b : Before) (next : Option TokenKind) (kind : TokenKind) : TokenKind :=
  if kind = .kwEnum then
    if next ≠ some .name ∨ b.selectsMember then .name else kind
  else if kind = .magicConstant then
    if b.selectsMember then .name else kind
  else if kind.isReserved && (b.selectsMember || b.declares) then .name
  else kind

/-- Keywords that serve as names become names, from left to right. -/
def settleFrom : Before → List Token → List Token
  | _, [] => []
  | b, t :: ts =>
    let next := (ts.find? Token.isSignificant).map Token.kind
    let kind := if t.kind.isReserved || t.kind == .magicConstant then settledKind b next t.kind
      else t.kind
    { t with kind } :: settleFrom (b.push kind) ts

/-- Keywords that serve as names become names. -/
def settleNames (ts : List Token) : List Token := settleFrom {} ts

/-! ## Brackets -/

/-- The kinds of brackets. -/
inductive Bracket where
  | round
  | square
  | curly
deriving DecidableEq, Repr

namespace Bracket

/-- The opening token. -/
def opener : Bracket → TokenKind
  | round => .openParen
  | square => .openSquare
  | curly => .openBrace

/-- The closing token. -/
def closer : Bracket → TokenKind
  | round => .closeParen
  | square => .closeSquare
  | curly => .closeBrace

/-- The pairs among the tokens from index `i` on, the closing index ascending. `opened` holds the
open brackets, the innermost first. A closing bracket without an open one pairs with nothing. -/
def pairsFrom (b : Bracket) : (i : Nat) → (opened : List Nat) → List Token → List (Nat × Nat)
  | _, _, [] => []
  | i, opened, t :: ts =>
    if t.kind = b.opener then b.pairsFrom (i + 1) (i :: opened) ts
    else if t.kind = b.closer then
      match opened with
      | [] => b.pairsFrom (i + 1) [] ts
      | o :: opened => (o, i) :: b.pairsFrom (i + 1) opened ts
    else b.pairsFrom (i + 1) opened ts

/-- The pairs of brackets of one kind. -/
def pairs (b : Bracket) (ts : List Token) : List (Nat × Nat) := b.pairsFrom 0 [] ts

end Bracket

/-- Records a pair at both of its tokens. -/
def link (ts : Array Token) (pair : Nat × Nat) : Array Token :=
  (ts.modify pair.1 fun t => { t with partner := some pair.2 }).modify pair.2
    fun t => { t with partner := some pair.1 }

/-- Records all pairs of brackets. -/
def linkBrackets (ts : Array Token) : Array Token :=
  (Bracket.round.pairs ts.toList ++ Bracket.square.pairs ts.toList
    ++ Bracket.curly.pairs ts.toList).foldl link ts

/-- The index of the last significant token before index `i`. -/
def significantBefore? (ts : Array Token) : Nat → Option Nat
  | 0 => none
  | i + 1 => if (ts[i]?).any Token.isSignificant then some i else significantBefore? ts i

/-- Names and keywords that parentheses may belong to. -/
def ownsParens : TokenKind → Bool
  | .name | .variableName | .kwFunction | .kwFn | .kwArray | .kwList | .kwIsset | .kwUnset
  | .kwEmpty | .kwEval | .kwExit | .kwIf | .kwElseIf | .kwWhile | .kwFor | .kwForeach | .kwSwitch
  | .kwMatch | .kwCatch | .kwDeclare | .kwUse | .kwClass | .kwStatic | .kwHaltCompiler => true
  | _ => false

/-- The owner of the parenthesis that opens at index `i`. -/
def parenOwnerAt? (ts : Array Token) (i : Nat) : Option Nat :=
  match significantBefore? ts i with
  | some p => if (ts[p]?).any fun t => ownsParens t.kind then some p else none
  | none => none

/-- Records the owners of all parentheses; a closing one has the owner of its partner. -/
def ownParens (ts : Array Token) : Array Token :=
  ts.mapIdx fun i t =>
    match t.kind, t.partner with
    | .openParen, _ => { t with parenOwner := parenOwnerAt? ts i }
    | .closeParen, some o => { t with parenOwner := parenOwnerAt? ts o }
    | _, _ => t

/-! ## Scopes -/

/-- Tokens that a search for the owner of a block does not go beyond. -/
def endsOwnerSearch : TokenKind → Bool
  | .semicolon | .openBrace | .closeBrace | .openParen | .openSquare | .openTag
  | .openTagWithEcho | .closeTag => true
  | _ => false

/-- The keyword that owns a block, searched backwards among the tokens before index `i`. Tokens
from index `resume` on are passed over: they stand in parentheses. A keyword in `taken` already
owns a block. -/
def scopeOwner? (ts : Array Token) (taken : List Nat) (resume : Nat) : Nat → Option Nat
  | 0 => none
  | i + 1 =>
    if resume ≤ i then scopeOwner? ts taken resume i
    else
      match ts[i]? with
      | none => none
      | some t =>
        if endsOwnerSearch t.kind then none
        else if t.kind = .closeParen then
          match t.partner with
          | some o => scopeOwner? ts taken o i
          | none => none
        else if t.kind.ownsScope && !taken.contains i then some i
        else scopeOwner? ts taken resume i

/-- The scopes whose blocks open among the given pairs of braces, in the order of the pairs.
`taken` holds the owners found before. -/
def Scope.findFrom (ts : Array Token) : (taken : List Nat) → List (Nat × Nat) → List Scope
  | _, [] => []
  | taken, (opener, closer) :: rest =>
    match scopeOwner? ts taken opener opener with
    | some owner => { owner, opener, closer } :: Scope.findFrom ts (owner :: taken) rest
    | none => Scope.findFrom ts taken rest

/-- The pairs of braces in the order in which they open. -/
def openedBraces (ts : Array Token) : List (Nat × Nat) :=
  (Bracket.curly.pairs ts.toList).mergeSort fun a b => a.1 ≤ b.1

/-- All scopes, in the order in which they open. -/
def Scope.findAll (ts : Array Token) : List Scope := Scope.findFrom ts [] (openedBraces ts)

/-- Records a scope at its three tokens. -/
def markScope (ts : Array Token) (s : Scope) : Array Token :=
  let mark := fun (t : Token) => { t with scope := some s }
  ((ts.modify s.owner mark).modify s.opener mark).modify s.closer mark

/-- Records all scopes. -/
def markScopes (ts : Array Token) : Array Token := (Scope.findAll ts).foldl markScope ts

/-! ## Owners around a token -/

/-- The scope that opens with the token at index `i`. -/
def opensScope? (i : Nat) (t : Token) : Option Scope :=
  if t.kind = .openBrace then t.scope.filter (·.opener == i) else none

/-- Records the owners of the scopes around each token. `opened` holds the scopes that are open at
index `i`, the innermost first. -/
def surroundFrom : (i : Nat) → (opened : List Scope) → List Token → List Token
  | _, _, [] => []
  | i, opened, t :: ts =>
    let opened := opened.dropWhile (·.closer ≤ i)
    { t with owners := (opened.map Scope.owner).reverse } ::
      surroundFrom (i + 1)
        (match opensScope? i t with
          | some s => s :: opened
          | none => opened) ts

/-- Records the owners of the scopes around each token. -/
def surround (ts : Array Token) : Array Token := (surroundFrom 0 [] ts.toList).toArray

/-! ## All passes -/

/-- The tokens with their structure. -/
def withStructure (ts : List Token) : Array Token :=
  surround (markScopes (ownParens (linkBrackets (settleNames ts).toArray)))

end Vintage
