import Vintage.Listing.Item
import Vintage.Text.Split

/-!
# Signatures of functions

* `TypeHint`, `TypeHint.names` — a written type and the names in it.
* `Listing.parameters?` — the parameters of a function.
* `Listing.returnType?` — the return type of a function.
-/

namespace Vintage

/-- A written type: the tokens from `start` up to `stop`, and their text without layout. -/
structure TypeHint where
  start : Nat
  stop : Nat
  text : String
deriving DecidableEq, Repr

/-- Characters that stand between the names of a type. -/
def TypeHint.isConnective (c : Char) : Bool :=
  c == '|' || c == '&' || c == '?' || c == '(' || c == ')'

/-- The names in a type, from left to right, in lower case and without leading backslashes. -/
def TypeHint.names (h : TypeHint) : List String :=
  ((Text.splitOn TypeHint.isConnective h.text.toList).map fun piece =>
    Text.lower (Text.dropBackslashes (Text.trim (String.ofList piece)))).filter (!·.isEmpty)

/-- A parameter of a function. -/
structure Parameter where
  /-- the name of the variable, `$` included -/
  name : String
  position : Nat
  type : Option TypeHint
  byReference : Bool
deriving DecidableEq, Repr

/-- Tokens that types are made of. -/
def TokenKind.isTypePiece : TokenKind → Bool
  | .name | .nsSeparator | .questionMark | .bitwiseOr | .kwArray | .kwCallable | .kwStatic
  | .openParen | .closeParen => true
  | _ => false

/-- What was found before the variable of a parameter. -/
structure ParameterHead where
  byReference : Bool := false
  /-- the first and the last token of the type -/
  type : Option (Nat × Nat) := none

/-- Takes a token of the type into account. -/
def ParameterHead.addType (h : ParameterHead) (i : Nat) : ParameterHead :=
  { h with type := some ((h.type.map (·.1)).getD i, i) }

namespace Listing

/-- The type written from `start` up to `stop`, layout at the ends left out. -/
def typeHint? (l : Listing) (start stop : Nat) : Option TypeHint :=
  match l.firstIn? Token.isSignificant start stop with
  | none => none
  | some first =>
    (l.lastBefore? Token.isSignificant stop).map fun last =>
      { start := first, stop := last + 1, text := l.significantTextOf first (last + 1) }

/-- The parenthesis that opens the parameters of the function at a position. -/
def parametersOpener? (l : Listing) (i : Nat) : Option Nat :=
  if l.kind? i == some .kwFunction || l.kind? i == some .kwFn then
    (l.firstFrom? (fun t => t.isSignificant && t.kind != .ampersand && t.kind != .name)
      (i + 1)).filter fun n => l.kind? n == some .openParen
  else none

/-- An `&` that belongs to the variable and not to the type. -/
def marksReference (l : Listing) (i : Nat) : Bool :=
  let next := l.kindAt? (l.next? i)
  next == some .variableName || next == some .ellipsis

/-- Reads the `count` tokens from index `i` on, up to the variable of a parameter. Tokens before
`resume` stand in an attribute. `none` if an attribute is not closed before the variable. -/
def headFrom? (l : Listing) : (count i resume : Nat) → ParameterHead → Option ParameterHead
  | 0, _, _, head => some head
  | count + 1, i, resume, head =>
    if i < resume then l.headFrom? count (i + 1) resume head
    else
      match l.get? i with
      | none => none
      | some t =>
        if t.kind = .attributeStart then
          match l.firstIn? (fun u => u.kind == .closeSquare) i (i + 1 + count) with
          | some closer => l.headFrom? count (i + 1) (closer + 1) head
          | none => none
        else if t.kind = .ampersand then
          l.headFrom? count (i + 1) resume
            (if l.marksReference i then { head with byReference := true } else head.addType i)
        else if t.kind.isTypePiece then l.headFrom? count (i + 1) resume (head.addType i)
        else l.headFrom? count (i + 1) resume head

/-- The parameter that an item declares; an item without a variable declares none. The outer
`none` is an item that cannot be read. -/
def parameter? (l : Listing) (item : Item) : Option (Option Parameter) :=
  match l.firstIn? (fun t => t.kind == .variableName) item.start item.stop with
  | none => some none
  | some position =>
    (l.headFrom? (position - item.start) item.start 0 {}).map fun head =>
      some
        { name := ((l.get? position).map Token.text).getD ""
          position
          type := head.type.bind fun (first, last) => l.typeHint? first (last + 1)
          byReference := head.byReference }

/-- The parameters that the items declare. -/
def parametersOf? (l : Listing) : List Item → Option (List Parameter)
  | [] => some []
  | item :: items =>
    match l.parameter? item, l.parametersOf? items with
    | some p, some ps => some (p.toList ++ ps)
    | _, _ => none

/-- The parameters of the function, method, closure or arrow function at a position. -/
def parameters? (l : Listing) (i : Nat) : Option (List Parameter) :=
  ((l.parametersOpener? i).bind l.items?).bind l.parametersOf?

/-- Tokens that a return type ends before. -/
def endsReturnType (t : Token) : Bool :=
  t.kind == .openBrace || t.kind == .semicolon || t.kind == .doubleArrow

/-- The partner of the bracket at a position. -/
def partner? (l : Listing) (i : Nat) : Option Nat := (l.get? i).bind Token.partner

/-- The significant token after the parameters and the captured variables that close at a
position. -/
def afterSignature? (l : Listing) (closer : Nat) : Option Nat :=
  match l.next? closer with
  | none => none
  | some n =>
    if l.kind? n == some .kwUse then ((l.next? n).bind l.partner?).bind l.next? else some n

/-- The return type of the function at a position. -/
def returnType? (l : Listing) (i : Nat) : Option TypeHint :=
  match ((l.parametersOpener? i).bind l.partner?).bind l.afterSignature? with
  | none => none
  | some colon =>
    if l.kind? colon == some .colon then
      (l.firstFrom? endsReturnType (colon + 1)).bind (l.typeHint? (colon + 1))
    else none

end Listing

end Vintage
