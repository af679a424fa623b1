import Mathlib.Data.List.Forall2
import Vintage.Listing.Reference
import Vintage.Listing.Scope
import Vintage.Proofs.BlankItems
import Vintage.Proofs.Layout.Embedding

/-!
# Readings of a listing without layout

What is read off a listing at a token does not change, up to the numbers of the tokens, when the
layout is left out.

Results:
* `Thins.occurrence?`, `Thins.isGlobalCall`, `Thins.isGlobalConstant`: names.
* `Thins.interfaces`: implemented interfaces.
* `Thins.enclosing?`: scopes around a token.
* `Thins.itemsFrom?`: the items of a list have the same boundaries.
* `Thins.parameter?`, `Thins.returnType?`: signatures.
-/

namespace Vintage

/-! ## Tests of tokens -/

theorem selects_unless (skip : TokenKind → Bool) :
    Selects fun t => t.isSignificant && !skip t.kind where
  reindex _ _ := rfl
  significant _ h := (Bool.and_eq_true_iff.1 h).1

/-- A test for one kind that no layout has. -/
theorem selects_beq (kind : TokenKind) (h : kind.isLayout = false) :
    Selects fun t => t.kind == kind :=
  selects_kind (q := (· == kind)) fun k hk => by rwa [eq_of_beq hk]

namespace Thins

variable {pos : Nat → Nat} {l' l : Listing}

theorem listing_get? (h : Thins pos l'.tokens l.tokens) (k : Nat) :
    l.get? (pos k) = (l'.get? k).map (Token.reindex pos) := h.get? k

theorem bind_get? (h : Thins pos l'.tokens l.tokens) (o : Option Nat) :
    (o.map pos).bind l.get? = (o.bind l'.get?).map (Token.reindex pos) := by
  cases o with
  | none => rfl
  | some k => exact h.get? k

/-! ## Names -/

/-- A qualifier, renumbered. -/
def moveQualifier (pos : Nat → Nat) (q : Qualifier) : Qualifier :=
  { q with before := q.before.map pos }

theorem qualifier (h : Thins pos l'.tokens l.tokens) (k : Nat) :
    l.qualifier (pos k) = moveQualifier pos (l'.qualifier k) := by
  unfold Listing.qualifier
  rw [h.previous?]
  cases l'.previous? k with
  | none => rfl
  | some p =>
    simp only [Option.map_some, h.kind?, h.previous?]
    split
    · cases l'.previous? p with
      | none => rfl
      | some q =>
        simp only [Option.map_some, h.kind?]
        split
        · rw [Listing.previousUnless?,
            h.lastBefore? (selects_unless _) (Splits.before h.strictMono q)]
          rfl
        · rfl
    · rfl

theorem declares (h : Thins pos l'.tokens l.tokens) (o : Option Nat) :
    l.declares (o.map pos) = l'.declares o := by
  unfold Listing.declares
  rw [h.kindAt?, h.previousOf?, h.kindAt?]

theorem followedByArguments? (h : Thins pos l'.tokens l.tokens) (k : Nat) :
    l.followedByArguments? (pos k) = l'.followedByArguments? k := by
  unfold Listing.followedByArguments?
  rw [h.next?, h.bind_get?]
  cases (l'.next? k).bind l'.get? with
  | none => rfl
  | some t => simp only [Option.map_some, Token.reindex, Option.isSome_map]

/-- An occurrence, renumbered. -/
def moveOccurrence (pos : Nat → Nat) (o : Occurrence) : Occurrence :=
  { o with position := pos o.position }

theorem occurrence? (h : Thins pos l'.tokens l.tokens) (k : Nat) :
    l.occurrence? (pos k) = (l'.occurrence? k).map (moveOccurrence pos) := by
  unfold Listing.occurrence?
  rw [h.listing_get?]
  cases l'.get? k with
  | none => rfl
  | some t =>
    simp only [Option.map_some, h.followedByArguments?, h.qualifier, moveQualifier, h.declares,
      h.kindAt?, Token.reindex]
    split
    · rw [Option.map_map]
      rfl
    · rfl

theorem isGlobalCall (h : Thins pos l'.tokens l.tokens) (k : Nat) :
    l.isGlobalCall (pos k) = l'.isGlobalCall k := by
  unfold Listing.isGlobalCall
  rw [h.occurrence?]
  cases l'.occurrence? k <;> rfl

theorem inClassList (h : Thins pos l'.tokens l.tokens) (k : Nat) :
    l.inClassList (pos k) = l'.inClassList k := by
  unfold Listing.inClassList
  rw [Listing.previousUnless?, h.lastBefore? (selects_unless _) (Splits.before h.strictMono k),
    h.bind_get?, Listing.previousUnless?]
  cases (l'.lastBefore? _ k).bind l'.get? with
  | none => rfl
  | some t => simp only [Option.map_some, Token.reindex, h.kindAt?]

theorem isFunctionLike (h : Thins pos l'.tokens l.tokens) (o : Option Nat) :
    l.isFunctionLike (o.map pos) = l'.isFunctionLike o := by
  unfold Listing.isFunctionLike
  rw [h.kindAt?, h.previousOf?, h.kindAt?]

theorem isReturnColon (h : Thins pos l'.tokens l.tokens) (o : Option Nat) :
    l.isReturnColon (o.map pos) = l'.isReturnColon o := by
  unfold Listing.isReturnColon
  rw [h.kindAt?, h.previousOf?, h.bind_get?]
  cases (l'.previousOf? o).bind l'.get? with
  | none => rfl
  | some t => simp only [Option.map_some, Token.reindex, h.isFunctionLike]

theorem announcesReturnType (h : Thins pos l'.tokens l.tokens) (o : Option Nat) :
    l.announcesReturnType (o.map pos) = l'.announcesReturnType o := by
  unfold Listing.announcesReturnType
  rw [h.kindAt?, h.isReturnColon, h.previousOf?, h.isReturnColon]

theorem isOtherName (h : Thins pos l'.tokens l.tokens) (k : Nat) (before : Option Nat) :
    l.isOtherName (pos k) (before.map pos) = l'.isOtherName k before := by
  unfold Listing.isOtherName
  simp only [h.kindAt?, h.next?, h.inClassList, h.announcesReturnType]

theorem beforeName? (h : Thins pos l'.tokens l.tokens) (o : Occurrence) :
    l.beforeName? (moveOccurrence pos o) = (l'.beforeName? o).map pos := by
  unfold Listing.beforeName? moveOccurrence
  simp only [h.previous?, h.previousOf?]
  split <;> rfl

theorem isGlobalConstant (h : Thins pos l'.tokens l.tokens) (k : Nat) :
    l.isGlobalConstant (pos k) = l'.isGlobalConstant k := by
  unfold Listing.isGlobalConstant
  rw [h.occurrence?]
  cases l'.occurrence? k with
  | none => rfl
  | some o =>
    simp only [Option.map_some, h.beforeName?, h.isOtherName]
    rfl

/-! ## Interfaces -/

/-- A reference, renumbered. -/
def moveReference (pos : Nat → Nat) (r : Reference) : Reference :=
  { r with position := pos r.position }

end Thins

/-- Layout in a list of names is passed over. -/
theorem Reference.listFrom_filter (name : String) (last : Option Nat) (es : List (Token × Nat)) :
    Reference.listFrom name last (es.filter fun e => e.1.isSignificant) =
      Reference.listFrom name last es := by
  induction es generalizing name last with
  | nil => rfl
  | cons e es ih =>
    obtain ⟨t, i⟩ := e
    by_cases ht : t.isSignificant = true
    · rw [List.filter_cons_of_pos (by exact ht), Reference.listFrom, Reference.listFrom]
      simp only [ih]
    · have hlayout := Token.isLayout_of_not_significant (Bool.eq_false_iff.2 ht)
      rw [List.filter_cons_of_neg (by exact ht), ih, Reference.listFrom]
      revert hlayout
      cases t.kind <;> first | exact fun _ => rfl | exact nofun

/-- The references read off renumbered tokens are renumbered. -/
theorem Reference.listFrom_move (pos : Nat → Nat) (name : String) (last : Option Nat)
    (es : List (Token × Nat)) :
    Reference.listFrom name (last.map pos) (es.map (Thins.move pos)) =
      (Reference.listFrom name last es).map (Thins.moveReference pos) := by
  have flush (name : String) (last : Option Nat) :
      ((last.map pos).map fun position => ({ position, name } : Reference)).toList =
        (last.map fun position => ({ position, name } : Reference)).toList.map
          (Thins.moveReference pos) := by
    cases last <;> rfl
  induction es generalizing name last with
  | nil => exact flush name last
  | cons e es ih =>
    obtain ⟨t, i⟩ := e
    rw [List.map_cons, Thins.move, Reference.listFrom, Reference.listFrom]
    simp only [Token.reindex]
    split
    · exact ih _ (some i)
    · exact ih _ last
    · exact ih _ last
    · rw [flush, List.map_append, ← ih "" none]
      rfl
    · exact ih _ last

namespace Thins

variable {pos : Nat → Nat} {l' l : Listing}

/-- The interfaces that a class implements are the same. -/
theorem interfaces (h : Thins pos l'.tokens l.tokens) (k : Nat) :
    l.interfaces (pos k) = (l'.interfaces k).map (moveReference pos) := by
  unfold Listing.interfaces
  rw [h.listing_get?]
  cases l'.get? k with
  | none => rfl
  | some t =>
    simp only [Option.map_some, Token.reindex]
    split
    · cases t.scope with
      | none => rfl
      | some s =>
        have hopener := Splits.before h.strictMono s.opener
        simp only [Option.map_some, Scope.reindex]
        rw [h.firstIn? (selects_beq .kwImplements rfl) (Splits.after h.strictMono k) hopener]
        cases l'.firstIn? (fun u => u.kind == .kwImplements) (k + 1) s.opener with
        | none => rfl
        | some start =>
          simp only [Option.map_some, Listing.stretchWithPositions,
            Listing.stretchWithPositions_eq]
          have hmove := Reference.listFrom_move pos "" none
            ((l'.window (s.opener - (start + 1)) (start + 1)).filter fun e => e.1.isSignificant)
          rw [← Reference.listFrom_filter, h.filter_window selects_isSignificant
            (Splits.after h.strictMono start) hopener]
          rwa [Reference.listFrom_filter] at hmove
    · rfl

/-! ## Scopes -/

theorem namesFunction (h : Thins pos l'.tokens l.tokens) (k : Nat) :
    l.namesFunction (pos k) = l'.namesFunction k := by
  unfold Listing.namesFunction
  rw [h.next?]
  cases l'.next? k with
  | none => rfl
  | some n => simp only [Option.map_some, h.kind?, h.next?, h.kindAt?]

theorem scopeKind? (h : Thins pos l'.tokens l.tokens) (k : Nat) :
    l.scopeKind? (pos k) = l'.scopeKind? k := by
  unfold Listing.scopeKind?
  rw [h.kind?, h.previous?, h.kindAt?, h.namesFunction]

/-- A scope with its kind, renumbered. -/
def moveScope (pos : Nat → Nat) (e : EnclosingScope) : EnclosingScope :=
  { e with scope := e.scope.reindex pos }

theorem ownedScope? (h : Thins pos l'.tokens l.tokens) (kinds : List ScopeKind) (k : Nat) :
    l.ownedScope? kinds (pos k) = (l'.ownedScope? kinds k).map (moveScope pos) := by
  unfold Listing.ownedScope?
  rw [h.scopeKind?, h.listing_get?]
  cases l'.scopeKind? k with
  | none => rfl
  | some kind =>
    simp only
    split
    · cases l'.get? k with
      | none => rfl
      | some t =>
        simp only [Option.map_some, Option.bind_some, Token.reindex, Option.map_map]
        rfl
    · rfl

/-- The innermost scopes of given kinds correspond. -/
theorem enclosing? (h : Thins pos l'.tokens l.tokens) (k : Nat) (kinds : List ScopeKind) :
    l.enclosing? (pos k) kinds = (l'.enclosing? k kinds).map (moveScope pos) := by
  unfold Listing.enclosing?
  rw [h.listing_get?]
  cases l'.get? k with
  | none => rfl
  | some t =>
    simp only [Option.map_some, Token.reindex, ← List.map_reverse, List.findSome?_map,
      List.map_findSome?]
    congr 1
    funext owner
    exact h.ownedScope? kinds owner

end Thins

/-! ## Items -/

/-- The two items have the same boundaries. -/
structure Item.Matches (pos : Nat → Nat) (item item' : Item) : Prop where
  start : Splits pos item.start item'.start
  stop : Splits pos item.stop item'.stop

/-- The two readings of a list fail both, or their items match. -/
abbrev ItemsMatch (pos : Nat → Nat) : Option (List Item) → Option (List Item) → Prop :=
  Option.Rel (List.Forall₂ (Item.Matches pos))

/-- Readings that go on from related results in the same way. -/
theorem bind_eq_of_rel {α β γ δ : Type} {R : α → β → Prop} {o : Option α} {o' : Option β}
    (h : Option.Rel R o o') {f : α → Option γ} {g : β → Option δ} {m : δ → γ}
    (hf : ∀ {a b}, R a b → f a = (g b).map m) : o.bind f = (o'.bind g).map m := by
  cases h with
  | some h => exact hf h
  | none => rfl

theorem Item.Matches.getElem? {pos : Nat → Nat} {items items' : List Item}
    (h : List.Forall₂ (Item.Matches pos) items items') (n : Nat) :
    Option.Rel (Item.Matches pos) items[n]? items'[n]? := by
  induction h generalizing n with
  | nil => exact .none
  | cons hitem _ ih =>
    cases n with
    | zero => exact .some hitem
    | succ n => exact ih n

/-- Two readings of a list fail both, or both succeed. -/
theorem itemsMatch_cases {pos : Nat → Nat} {o o' : Option (List Item)} (h : ItemsMatch pos o o') :
    (o = none ∧ o' = none) ∨
      ∃ items items', o = some items ∧ o' = some items' ∧
        List.Forall₂ (Item.Matches pos) items items' := by
  cases h with
  | some h => exact Or.inr ⟨_, _, rfl, rfl, h⟩
  | none => exact Or.inl ⟨rfl, rfl⟩

theorem Item.Matches.getLast? {pos : Nat → Nat} {items items' : List Item}
    (h : List.Forall₂ (Item.Matches pos) items items') (hne : items ≠ []) :
    ∃ last last', items.getLast? = some last ∧ items'.getLast? = some last' ∧
      last.Matches pos last' := by
  have hrel := Item.Matches.getElem? h (items.length - 1)
  rw [← List.getLast?_eq_getElem?, h.length_eq, ← List.getLast?_eq_getElem?,
    List.getLast?_eq_some_getLast hne] at hrel
  cases hlast' : items'.getLast? with
  | none => rw [hlast'] at hrel; cases hrel
  | some last' =>
    rw [hlast'] at hrel
    cases hrel with
    | some hmatches => exact ⟨_, last', List.getLast?_eq_some_getLast hne, rfl, hmatches⟩

theorem not_item_piece_of_layout {kind : TokenKind} (h : kind.isLayout = true) :
    kind.opensGroup = false ∧ kind ≠ .comma := by
  cases kind <;> first | decide | cases h

namespace Thins

variable {pos : Nat → Nat} {l' l : Listing}

/-- Layout belongs to the item that it stands in. -/
theorem itemsFrom?_layout {i : Nat} {t : Token} (ht : l.tokens[i]? = some t)
    (hlayout : t.isSignificant = false) (n start resume : Nat) :
    l.itemsFrom? (n + 1) i start resume = l.itemsFrom? n (i + 1) start resume := by
  obtain ⟨hopens, hcomma⟩ := not_item_piece_of_layout (Token.isLayout_of_not_significant hlayout)
  rw [Listing.itemsFrom?, Listing.get?, ht]
  simp only [hopens, hcomma, Bool.false_eq_true, if_false, ite_self]

theorem itemsFrom? (h : Thins pos l'.tokens l.tokens) {n i n' i' : Nat} (hi : Splits pos i i')
    (hn : Splits pos (i + n) (i' + n')) {start start' resume resume' : Nat}
    (hstart : Splits pos start start') (hresume : Splits pos resume resume') :
    ItemsMatch pos (l.itemsFrom? n i start resume) (l'.itemsFrom? n' i' start' resume') := by
  refine h.walkUp (motive := fun n i n' i' => ∀ start start' resume resume',
    Splits pos start start' → Splits pos resume resume' →
      ItemsMatch pos (l.itemsFrom? n i start resume) (l'.itemsFrom? n' i' start' resume'))
    ?_ ?_ ?_ hi hn start start' resume resume' hstart hresume
  · intro i i' hi start start' resume resume' hstart _
    exact .some (.cons ⟨hstart, hi⟩ .nil)
  · intro n i n' i' t ht hlayout _ ih start start' resume resume' hstart hresume
    rw [itemsFrom?_layout ht hlayout]
    exact ih start start' resume resume' hstart hresume
  · intro n n' i' _ ih start start' resume resume' hstart hresume
    rw [Listing.itemsFrom?, Listing.itemsFrom?, h.listing_get?]
    simp only [← hresume i']
    split
    · exact ih start start' resume resume' hstart hresume
    · cases l'.get? i' with
      | none => exact .none
      | some t =>
        simp only [Option.map_some, Token.reindex]
        split
        · cases t.partner with
          | none => exact .none
          | some closer =>
            exact ih start start' _ _ hstart (Splits.after h.strictMono closer)
        · split
          · have hnext := Splits.after h.strictMono i'
            have hrest := ih _ _ resume resume' hnext hresume
            revert hrest
            generalize l.itemsFrom? n (pos i' + 1) (pos i' + 1) resume = rest
            generalize l'.itemsFrom? n' (i' + 1) (i' + 1) resume' = rest'
            rintro (hrest | -)
            · exact .some (.cons ⟨hstart, Splits.before h.strictMono i'⟩ hrest)
            · exact .none
          · exact ih start start' resume resume' hstart hresume

/-- The items of a list match. -/
theorem allItems? (h : Thins pos l'.tokens l.tokens) (k : Nat) :
    ItemsMatch pos (l.allItems? (pos k)) (l'.allItems? k) := by
  unfold Listing.allItems?
  rw [h.listing_get?]
  cases l'.get? k with
  | none => exact .none
  | some t =>
    simp only [Option.map_some, Option.bind_some, Token.reindex]
    cases t.partner with
    | none => exact .none
    | some closer =>
      have hopen := Splits.after h.strictMono k
      refine h.itemsFrom? hopen ?_ hopen (Splits.zero pos)
      rw [show pos k + 1 + (pos closer - (pos k + 1)) = max (pos k + 1) (pos closer) by omega,
        show k + 1 + (closer - (k + 1)) = max (k + 1) closer by omega]
      exact hopen.max (Splits.before h.strictMono closer)

theorem filter_kind? (h : Thins pos l'.tokens l.tokens) (o : Option Nat) (kind : TokenKind) :
    ((o.map pos).filter fun n => l.kind? n == some kind) =
      (o.filter fun n => l'.kind? n == some kind).map pos := by
  cases o with
  | none => rfl
  | some n =>
    rw [Option.map_some, Option.filter_some, Option.filter_some, h.kind?]
    split <;> rfl

theorem openerAfter? (h : Thins pos l'.tokens l.tokens) (k : Nat) :
    l.openerAfter? (pos k) = (l'.openerAfter? k).map pos := by
  unfold Listing.openerAfter?
  rw [h.next?, h.filter_kind?]

/-! ## Signatures -/

/-- A written type, renumbered; its last token stays its last token. -/
def moveType (pos : Nat → Nat) (type : TypeHint) : TypeHint :=
  { type with start := pos type.start, stop := pos (type.stop - 1) + 1 }

theorem typeHint? (h : Thins pos l'.tokens l.tokens) {a b a' b' : Nat} (ha : Splits pos a a')
    (hb : Splits pos b b') : l.typeHint? a b = (l'.typeHint? a' b').map (moveType pos) := by
  unfold Listing.typeHint?
  rw [h.firstIn? selects_isSignificant ha hb]
  cases l'.firstIn? Token.isSignificant a' b' with
  | none => rfl
  | some first =>
    simp only [Option.map_some]
    rw [h.lastBefore? selects_isSignificant hb]
    cases l'.lastBefore? Token.isSignificant b' with
    | none => rfl
    | some last =>
      simp only [Option.map_some, moveType]
      rw [h.significantTextOf (Splits.before h.strictMono first) (Splits.after h.strictMono last)]
      rfl

theorem selects_parametersOpener :
    Selects fun t => t.isSignificant && t.kind != .ampersand && t.kind != .name where
  reindex _ _ := rfl
  significant _ ht := (Bool.and_eq_true_iff.1 (Bool.and_eq_true_iff.1 ht).1).1

theorem parametersOpener? (h : Thins pos l'.tokens l.tokens) (k : Nat) :
    l.parametersOpener? (pos k) = (l'.parametersOpener? k).map pos := by
  unfold Listing.parametersOpener?
  rw [h.kind?]
  split
  · rw [h.firstFrom? selects_parametersOpener (Splits.after h.strictMono k), h.filter_kind?]
  · rfl

theorem marksReference (h : Thins pos l'.tokens l.tokens) (k : Nat) :
    l.marksReference (pos k) = l'.marksReference k := by
  unfold Listing.marksReference
  rw [h.next?, h.kindAt?]

/-- What was found before a variable, renumbered. -/
def moveHead (pos : Nat → Nat) (head : ParameterHead) : ParameterHead :=
  { head with type := head.type.map (Prod.map pos pos) }

theorem addType_moveHead (head : ParameterHead) (k : Nat) :
    (moveHead pos head).addType (pos k) = moveHead pos (head.addType k) := by
  obtain ⟨byReference, type⟩ := head
  cases type <;> rfl

theorem not_head_piece_of_layout {kind : TokenKind} (h : kind.isLayout = true) :
    kind ≠ .attributeStart ∧ kind ≠ .ampersand ∧ kind.isTypePiece = false := by
  cases kind <;> first | decide | cases h

theorem headFrom?_layout {i : Nat} {t : Token} (ht : l.tokens[i]? = some t)
    (hlayout : t.isSignificant = false) (n resume : Nat) (head : ParameterHead) :
    l.headFrom? (n + 1) i resume head = l.headFrom? n (i + 1) resume head := by
  obtain ⟨hattribute, hampersand, htype⟩ :=
    not_head_piece_of_layout (Token.isLayout_of_not_significant hlayout)
  rw [Listing.headFrom?, Listing.get?, ht]
  simp only [hattribute, hampersand, htype, Bool.false_eq_true, if_false, ite_self]

theorem headFrom? (h : Thins pos l'.tokens l.tokens) {n i n' i' : Nat} (hi : Splits pos i i')
    (hn : Splits pos (i + n) (i' + n')) {resume resume' : Nat} (hresume : Splits pos resume resume')
    (head : ParameterHead) :
    l.headFrom? n i resume (moveHead pos head) =
      (l'.headFrom? n' i' resume' head).map (moveHead pos) := by
  refine h.walkUp (motive := fun n i n' i' => ∀ resume resume' head, Splits pos resume resume' →
    l.headFrom? n i resume (moveHead pos head) =
      (l'.headFrom? n' i' resume' head).map (moveHead pos)) ?_ ?_ ?_ hi hn resume resume' head
    hresume
  · intro i i' _ resume resume' head _
    rfl
  · intro n i n' i' t ht hlayout _ ih resume resume' head hresume
    rw [headFrom?_layout ht hlayout]
    exact ih resume resume' head hresume
  · intro n n' i' hn ih resume resume' head hresume
    rw [Listing.headFrom?, Listing.headFrom?, h.listing_get?]
    simp only [← hresume i']
    split
    · exact ih resume resume' head hresume
    · cases l'.get? i' with
      | none => rfl
      | some t =>
        have hstop : Splits pos (pos i' + 1 + n) (i' + 1 + n') := by
          rwa [show pos i' + 1 + n = pos i' + (n + 1) by omega,
            show i' + 1 + n' = i' + (n' + 1) by omega]
        simp only [Option.map_some, Token.reindex, h.marksReference,
          h.firstIn? (selects_beq .closeSquare rfl) (Splits.before h.strictMono i') hstop]
        split
        · cases l'.firstIn? (fun u => u.kind == .closeSquare) i' (i' + 1 + n') with
          | none => rfl
          | some closer => exact ih _ _ head (Splits.after h.strictMono closer)
        · split
          · split
            · exact ih resume resume' { head with byReference := true } hresume
            · rw [addType_moveHead]
              exact ih resume resume' (head.addType i') hresume
          · split
            · rw [addType_moveHead]
              exact ih resume resume' (head.addType i') hresume
            · exact ih resume resume' head hresume

/-- A parameter, renumbered. -/
def moveParameter (pos : Nat → Nat) (p : Parameter) : Parameter :=
  { p with position := pos p.position, type := p.type.map (moveType pos) }

/-- Items that match declare the same parameter. -/
theorem parameter? (h : Thins pos l'.tokens l.tokens) {item item' : Item}
    (hitem : item.Matches pos item') :
    l.parameter? item = (l'.parameter? item').map (Option.map (moveParameter pos)) := by
  unfold Listing.parameter?
  rw [h.firstIn? (selects_beq .variableName rfl) hitem.start hitem.stop]
  cases hfirst : l'.firstIn? (fun t => t.kind == .variableName) item'.start item'.stop with
  | none => rfl
  | some position =>
    have hle := (Listing.firstIn?_eq_some hfirst).1
    have hle' : item.start ≤ pos position := by
      have := hitem.start position
      omega
    have hstop : Splits pos (item.start + (pos position - item.start))
        (item'.start + (position - item'.start)) := by
      rw [show item.start + (pos position - item.start) = pos position by omega,
        show item'.start + (position - item'.start) = position by omega]
      exact Splits.before h.strictMono position
    have hhead : l.headFrom? (pos position - item.start) item.start 0 {} =
        (l'.headFrom? (position - item'.start) item'.start 0 {}).map (moveHead pos) :=
      h.headFrom? hitem.start hstop (Splits.zero pos) {}
    simp only [Option.map_some, hhead, h.listing_get?, Option.map_map]
    congr 1
    funext head
    obtain ⟨byReference, type⟩ := head
    cases type with
    | none => rfl
    | some span =>
      have htype := h.typeHint? (Splits.before h.strictMono span.1)
        (Splits.after h.strictMono span.2)
      simp only [Function.comp_apply, moveHead, Option.map_some, Option.bind_some, Prod.map_fst,
        Prod.map_snd, htype, moveParameter]
      rfl

theorem parametersOf? (h : Thins pos l'.tokens l.tokens) {items items' : List Item}
    (hitems : List.Forall₂ (Item.Matches pos) items items') :
    l.parametersOf? items = (l'.parametersOf? items').map (List.map (moveParameter pos)) := by
  induction hitems with
  | nil => rfl
  | cons hitem _ ih =>
    rw [Listing.parametersOf?, Listing.parametersOf?, h.parameter? hitem, ih]
    cases l'.parameter? _ with
    | none => rfl
    | some p =>
      cases l'.parametersOf? _ with
      | none => rfl
      | some ps =>
        simp only [Option.map_some, List.map_append]
        cases p <;> rfl

/-- The parameters of a function are the same. -/
theorem parameters? (h : Thins pos l'.tokens l.tokens) (hl' : l'.NamesVariables)
    (hl : l.NamesVariables) (k : Nat) :
    l.parameters? (pos k) = (l'.parameters? k).map (List.map (moveParameter pos)) := by
  rw [Listing.parameters?_eq hl, Listing.parameters?_eq hl', h.parametersOpener?]
  cases l'.parametersOpener? k with
  | none => rfl
  | some opener =>
    rw [Option.map_some, Option.bind_some, Option.bind_some]
    exact bind_eq_of_rel (h.allItems? opener) h.parametersOf?

theorem partner? (h : Thins pos l'.tokens l.tokens) (k : Nat) :
    l.partner? (pos k) = (l'.partner? k).map pos := by
  unfold Listing.partner?
  rw [h.listing_get?]
  cases l'.get? k <;> rfl

theorem afterSignature? (h : Thins pos l'.tokens l.tokens) (k : Nat) :
    l.afterSignature? (pos k) = (l'.afterSignature? k).map pos := by
  unfold Listing.afterSignature?
  rw [h.next?]
  cases l'.next? k with
  | none => rfl
  | some n =>
    simp only [Option.map_some, h.kind?, h.next?]
    split
    · cases l'.next? n with
      | none => rfl
      | some opener =>
        simp only [Option.map_some, Option.bind_some, h.partner?]
        cases l'.partner? opener with
        | none => rfl
        | some closer => exact h.next? closer
    · rfl

theorem selects_endsReturnType : Selects Listing.endsReturnType :=
  selects_kind (q := fun k => k == .openBrace || k == .semicolon || k == .doubleArrow)
    fun k hk => by cases k <;> first | rfl | cases hk

/-- The return type of a function is the same. -/
theorem returnType? (h : Thins pos l'.tokens l.tokens) (k : Nat) :
    l.returnType? (pos k) = (l'.returnType? k).map (moveType pos) := by
  have hcolon : ((l.parametersOpener? (pos k)).bind l.partner?).bind l.afterSignature? =
      (((l'.parametersOpener? k).bind l'.partner?).bind l'.afterSignature?).map pos := by
    rw [h.parametersOpener?]
    cases l'.parametersOpener? k with
    | none => rfl
    | some opener =>
      simp only [Option.map_some, Option.bind_some, h.partner?]
      cases l'.partner? opener with
      | none => rfl
      | some closer => exact h.afterSignature? closer
  unfold Listing.returnType?
  rw [hcolon]
  cases ((l'.parametersOpener? k).bind l'.partner?).bind l'.afterSignature? with
  | none => rfl
  | some colon =>
    have hafter := Splits.after h.strictMono colon
    simp only [Option.map_some, h.kind?, h.firstFrom? selects_endsReturnType hafter]
    split
    · cases l'.firstFrom? Listing.endsReturnType (colon + 1) with
      | none => rfl
      | some stop => exact h.typeHint? hafter (Splits.before h.strictMono stop)
    · rfl

end Thins

end Vintage
