import Vintage.Listing.Reference
import Vintage.Listing.Scope
import Vintage.Listing.Signature
import Vintage.Listing.Occurrence
import Vintage.Check.Basic

/-!
# Readings that do not depend on spelling

Most of what is read off a listing depends on the kinds of its tokens and on its structure, not on
the texts of the tokens. Here the tokens are given other texts, whatever these are, and the
readings stay the same.

Results:
* `Listing.firstIn?_respell`, `Listing.lastBefore?_respell`: searches.
* `Listing.isGlobalCall_respell`, `Listing.isGlobalConstant_respell`: what stands around a name.
* `Listing.enclosing?_respell`: scopes around a token.
* `Listing.itemsFrom?_respell`: the items of a list, up to their texts.
* `Listing.headFrom?_respell`, `Listing.afterSignature?_respell`: signatures.
-/

namespace Vintage

/-- The token with the text that `spell` gives it. -/
def Token.respell (spell : Token → String) (t : Token) : Token := { t with text := spell t }

section Fields

variable (spell : Token → String) (t : Token)

@[simp] theorem Token.kind_respell : (t.respell spell).kind = t.kind := rfl

@[simp] theorem Token.text_respell : (t.respell spell).text = spell t := rfl

@[simp] theorem Token.partner_respell : (t.respell spell).partner = t.partner := rfl

@[simp] theorem Token.parenOwner_respell : (t.respell spell).parenOwner = t.parenOwner := rfl

end Fields

/-- The test does not look at the text of a token. -/
def Blind (p : Token → Bool) : Prop := ∀ (t : Token) (text : String), p { t with text } = p t

theorem blind_kind (q : TokenKind → Bool) : Blind fun t => q t.kind := fun _ _ => rfl

theorem blind_isSignificant : Blind Token.isSignificant := fun _ _ => rfl

namespace Listing

/-- The listing with the texts that `spell` gives its tokens. -/
def respell (spell : Token → String) (l : Listing) : Listing where
  tokens := l.tokens.map (Token.respell spell)

variable (spell : Token → String) (l : Listing)

theorem size_respell : (l.respell spell).size = l.size := Array.size_map

theorem get?_respell (i : Nat) :
    (l.respell spell).get? i = (l.get? i).map (Token.respell spell) := Array.getElem?_map

theorem bind_get?_respell (o : Option Nat) :
    o.bind (l.respell spell).get? = (o.bind l.get?).map (Token.respell spell) := by
  cases o with
  | none => rfl
  | some i => exact l.get?_respell spell i

theorem any_get?_respell {p : Token → Bool} (hp : Blind p) (i : Nat) :
    ((l.respell spell).get? i).any p = (l.get? i).any p := by
  rw [get?_respell, Option.any_map]
  congr 1
  funext t
  exact hp t _

@[simp] theorem kind?_respell : (l.respell spell).kind? = l.kind? := by
  funext i
  rw [kind?, get?_respell, Option.map_map]
  rfl

@[simp] theorem kindAt?_respell : (l.respell spell).kindAt? = l.kindAt? := by
  funext o
  rw [kindAt?, kind?_respell, kindAt?]

@[simp] theorem partner?_respell : (l.respell spell).partner? = l.partner? := by
  funext i
  rw [partner?, get?_respell, partner?]
  cases l.get? i <;> rfl

@[simp] theorem place_respell : (l.respell spell).place = l.place := by
  funext i
  rw [place, get?_respell, place]
  cases l.get? i <;> rfl

/-! ## Searches -/

theorem lastBelow?_respell {p : Token → Bool} (hp : Blind p) :
    (l.respell spell).lastBelow? p = l.lastBelow? p := by
  funext i
  induction i with
  | zero => rfl
  | succ i ih => rw [lastBelow?, lastBelow?, any_get?_respell spell l hp, ih]

theorem lastBefore?_respell {p : Token → Bool} (hp : Blind p) :
    (l.respell spell).lastBefore? p = l.lastBefore? p := by
  funext i
  rw [lastBefore?, lastBefore?, lastBelow?_respell spell l hp, size_respell]

theorem firstAmong?_respell {p : Token → Bool} (hp : Blind p) (count i : Nat) :
    (l.respell spell).firstAmong? p count i = l.firstAmong? p count i := by
  induction count generalizing i with
  | zero => rfl
  | succ count ih => rw [firstAmong?, firstAmong?, any_get?_respell spell l hp, ih]

theorem firstIn?_respell {p : Token → Bool} (hp : Blind p) :
    (l.respell spell).firstIn? p = l.firstIn? p := by
  funext start stop
  rw [firstIn?, firstIn?, firstAmong?_respell spell l hp, size_respell]

theorem firstFrom?_respell {p : Token → Bool} (hp : Blind p) :
    (l.respell spell).firstFrom? p = l.firstFrom? p := by
  funext start
  rw [firstFrom?, firstFrom?, firstIn?_respell spell l hp, size_respell]

@[simp] theorem previous?_respell : (l.respell spell).previous? = l.previous? :=
  l.lastBefore?_respell spell blind_isSignificant

@[simp] theorem next?_respell : (l.respell spell).next? = l.next? := by
  funext i
  rw [next?, next?, firstFrom?_respell spell l blind_isSignificant]

@[simp] theorem previousOf?_respell : (l.respell spell).previousOf? = l.previousOf? := by
  funext o
  rw [previousOf?, previousOf?, previous?_respell]

@[simp] theorem previousUnless?_respell (skip : TokenKind → Bool) :
    (l.respell spell).previousUnless? skip = l.previousUnless? skip :=
  l.lastBefore?_respell spell (blind_kind fun k => !k.isLayout && !skip k)

theorem stretch_respell (start stop : Nat) :
    (l.respell spell).stretch start stop = (l.stretch start stop).map (Token.respell spell) := by
  rw [stretch, respell, ← Array.map_extract, Array.toList_map, stretch]

@[simp] theorem positionsOf_respell : (l.respell spell).positionsOf = l.positionsOf := by
  funext kinds
  rw [positionsOf, respell, Array.toList_map, List.zipIdx_map, List.filter_map, List.map_map]
  rfl

/-! ## Names -/

@[simp] theorem qualifier_respell : (l.respell spell).qualifier = l.qualifier := by
  funext i
  simp only [qualifier, previous?_respell, kind?_respell, previousUnless?_respell]

@[simp] theorem declares_respell : (l.respell spell).declares = l.declares := by
  funext before
  simp only [declares, kindAt?_respell, previousOf?_respell]

@[simp] theorem followedByArguments?_respell :
    (l.respell spell).followedByArguments? = l.followedByArguments? := by
  funext i
  rw [followedByArguments?, next?_respell, bind_get?_respell, followedByArguments?]
  cases (l.next? i).bind l.get? <;> rfl

/-- A name keeps what stands around it. -/
theorem occurrence?_respell (i : Nat) :
    (l.respell spell).occurrence? i = (l.occurrence? i).map fun o =>
      { o with name := ((l.get? i).map spell).getD "" } := by
  rw [occurrence?, get?_respell, occurrence?]
  cases l.get? i with
  | none => rfl
  | some t =>
    simp only [Option.map_some, Token.kind_respell, followedByArguments?_respell,
      qualifier_respell, kindAt?_respell, declares_respell]
    split
    · rw [Option.map_map]
      rfl
    · rfl

@[simp] theorem isGlobalCall_respell : (l.respell spell).isGlobalCall = l.isGlobalCall := by
  funext i
  rw [isGlobalCall, occurrence?_respell, isGlobalCall]
  cases l.occurrence? i <;> rfl

@[simp] theorem inClassList_respell : (l.respell spell).inClassList = l.inClassList := by
  funext i
  rw [inClassList, previousUnless?_respell, bind_get?_respell, inClassList]
  cases (l.previousUnless? isListPiece i).bind l.get? with
  | none => rfl
  | some t =>
    simp only [Option.map_some, Token.kind_respell, Token.parenOwner_respell, kindAt?_respell]

@[simp] theorem isFunctionLike_respell : (l.respell spell).isFunctionLike = l.isFunctionLike := by
  funext owner
  simp only [isFunctionLike, kindAt?_respell, previousOf?_respell]

@[simp] theorem isReturnColon_respell : (l.respell spell).isReturnColon = l.isReturnColon := by
  funext colon
  rw [isReturnColon, kindAt?_respell, previousOf?_respell, bind_get?_respell,
    isFunctionLike_respell, isReturnColon]
  cases (l.previousOf? colon).bind l.get? <;> rfl

@[simp] theorem announcesReturnType_respell :
    (l.respell spell).announcesReturnType = l.announcesReturnType := by
  funext before
  simp only [announcesReturnType, kindAt?_respell, isReturnColon_respell, previousOf?_respell]

@[simp] theorem isOtherName_respell : (l.respell spell).isOtherName = l.isOtherName := by
  funext i before
  simp only [isOtherName, kindAt?_respell, next?_respell, inClassList_respell,
    announcesReturnType_respell]

@[simp] theorem isGlobalConstant_respell :
    (l.respell spell).isGlobalConstant = l.isGlobalConstant := by
  funext i
  rw [isGlobalConstant, occurrence?_respell, isGlobalConstant]
  cases l.occurrence? i with
  | none => rfl
  | some o =>
    simp only [Option.map_some, beforeName?, previous?_respell, previousOf?_respell,
      isOtherName_respell]

/-! ## Scopes -/

@[simp] theorem namesFunction_respell : (l.respell spell).namesFunction = l.namesFunction := by
  funext i
  simp only [namesFunction, next?_respell, kind?_respell, kindAt?_respell]

@[simp] theorem scopeKind?_respell : (l.respell spell).scopeKind? = l.scopeKind? := by
  funext i
  simp only [scopeKind?, kind?_respell, previous?_respell, kindAt?_respell, namesFunction_respell]

@[simp] theorem ownedScope?_respell : (l.respell spell).ownedScope? = l.ownedScope? := by
  funext kinds owner
  rw [ownedScope?, scopeKind?_respell, get?_respell, ownedScope?]
  cases l.get? owner <;> rfl

@[simp] theorem enclosing?_respell : (l.respell spell).enclosing? = l.enclosing? := by
  funext i kinds
  rw [enclosing?, get?_respell, ownedScope?_respell, enclosing?]
  cases l.get? i <;> rfl

/-! ## Lists -/

/-- The item with the text that its tokens have in the listing. -/
def reread (l : Listing) (item : Item) : Item := l.item item.start item.stop

/-- The parameter that an item declares is read off its tokens, not off its text. -/
theorem parameter?_reread (l l' : Listing) (item : Item) :
    l.parameter? (l'.reread item) = l.parameter? item := by
  simp only [parameter?, reread, Listing.item]

/-- The items of a list have the same boundaries. -/
theorem itemsFrom?_respell (count i start resume : Nat) :
    (l.respell spell).itemsFrom? count i start resume =
      (l.itemsFrom? count i start resume).map (List.map (l.respell spell).reread) := by
  induction count generalizing i start resume with
  | zero => rfl
  | succ count ih =>
    rw [itemsFrom?, itemsFrom?, get?_respell]
    split
    · exact ih _ _ _
    · cases l.get? i with
      | none => rfl
      | some t =>
        simp only [Option.map_some, Token.respell]
        split
        · cases t.partner with
          | none => rfl
          | some closer => exact ih _ _ _
        · split
          · rw [ih, Option.map_map, Option.map_map]
            rfl
          · exact ih _ _ _

@[simp] theorem openerAfter?_respell : (l.respell spell).openerAfter? = l.openerAfter? := by
  funext i
  simp only [openerAfter?, next?_respell, kind?_respell]

/-! ## Signatures -/

@[simp] theorem parametersOpener?_respell :
    (l.respell spell).parametersOpener? = l.parametersOpener? := by
  funext i
  have hblind : Blind fun t => t.isSignificant && t.kind != .ampersand && t.kind != .name :=
    blind_kind fun k => !k.isLayout && k != .ampersand && k != .name
  simp only [parametersOpener?, kind?_respell, firstFrom?_respell spell l hblind]

@[simp] theorem marksReference_respell : (l.respell spell).marksReference = l.marksReference := by
  funext i
  simp only [marksReference, next?_respell, kindAt?_respell]

@[simp] theorem headFrom?_respell : (l.respell spell).headFrom? = l.headFrom? := by
  funext count i resume head
  have hblind : Blind fun t => t.kind == .closeSquare := blind_kind (· == .closeSquare)
  induction count generalizing i resume head with
  | zero => rfl
  | succ count ih =>
    rw [headFrom?, headFrom?, get?_respell, firstIn?_respell spell l hblind,
      marksReference_respell]
    simp only [ih]
    cases l.get? i <;> rfl

@[simp] theorem afterSignature?_respell :
    (l.respell spell).afterSignature? = l.afterSignature? := by
  funext closer
  simp only [afterSignature?, next?_respell, kind?_respell, partner?_respell]

end Listing

end Vintage
