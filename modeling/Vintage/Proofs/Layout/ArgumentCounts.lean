import Vintage.Proofs.Layout.Readings
import Vintage.Proofs.Layout.Removal
import Vintage.Proofs.ListItems

/-!
# Numbers of arguments and layout

The arguments of a call are the items between its commas, without a last one that is blank. Blank
is a matter of text, not of meaning: white space is blank and a comment is not. So layout has a say
in the number of arguments in one place only, the last item. If it has comments and nothing else to
it, then it counts as an argument, and it does not when the layout is left out.

Results:
* `Listing.Covers.isEmpty_kept_iff`: an item is blank once layout is left out iff it holds nothing
  but layout and blank tokens.
* `Listing.arguments?_length_without_layout`: when the number of arguments changes.
-/

namespace Vintage.Listing

/-- The position lies between `opener` and `closer` and holds layout. -/
def layoutBetween (l : Listing) (opener closer i : Nat) : Bool :=
  opener < i && i < closer && (l.get? i).any Token.isLayout

/-- The tokens from `start` up to `stop` are comments and blank tokens, comments among them. -/
structure OnlyComments (l : Listing) (start stop : Nat) : Prop where
  comment : ∃ j t, start ≤ j ∧ j < stop ∧ l.get? j = some t ∧ t.kind.isComment = true
  blank : ∀ j t, start ≤ j → j < stop → l.get? j = some t → t.kind.isComment = false → t.Blank

section Lists

variable {l : Listing} {opener closer : Nat}

theorem dropsLayout_layoutBetween (l : Listing) (opener closer : Nat) :
    l.DropsLayout (l.layoutBetween opener closer) := by
  intro i hi
  obtain ⟨t, ht, hlayout⟩ := (Option.any_eq_true _ _).1 (Bool.and_eq_true_iff.1 hi).2
  exact ⟨t, ht, by rw [Token.isSignificant, show t.kind.isLayout = true from hlayout]; rfl⟩

/-- Nothing is dropped before the list. -/
theorem keptAt_layoutBetween {i : Nat} (hi : i ≤ opener) :
    keptAt (l.layoutBetween opener closer) i = i := by
  refine Nat.nth_of_forall fun j hj => ?_
  rw [layoutBetween, decide_eq_false (by omega)]
  rfl

theorem layoutBetween_eq_false_iff {i : Nat} {t : Token} (ho : opener < i) (hc : i < closer)
    (ht : l.get? i = some t) :
    l.layoutBetween opener closer i = false ↔ t.kind.isLayout = false := by
  rw [layoutBetween, decide_eq_true ho, decide_eq_true hc, ht]
  rfl

theorem Tiles.bounds {stop start : Nat} {items : List Item} (h : l.Tiles stop start items)
    {item : Item} (hmem : item ∈ items) : start ≤ item.start ∧ item.stop ≤ stop := by
  induction h with
  | last => rw [List.mem_singleton.1 hmem]; exact ⟨Nat.le_refl _, Nat.le_refl _⟩
  | cons hstart hstop _ _ ih =>
    rcases List.mem_cons.1 hmem with rfl | hmem
    · exact ⟨Nat.le_refl _, Nat.le_of_lt hstop⟩
    · have := ih hmem
      omega

theorem length_dropBlankLast {items : List Item} {last : Item} (h : items.getLast? = some last) :
    (dropBlankLast items).length = items.length - if last.text.isEmpty = true then 1 else 0 := by
  unfold dropBlankLast
  rw [h, Option.any_some]
  split
  · exact List.length_dropLast
  · rfl

theorem length_dropBlankLast_eq_iff {items items' : List Item} {last last' : Item}
    (h : items.getLast? = some last) (h' : items'.getLast? = some last')
    (hlength : items'.length = items.length) :
    (dropBlankLast items').length = (dropBlankLast items).length ↔
      (last'.text.isEmpty = true ↔ last.text.isEmpty = true) := by
  have hpos : 0 < items.length := List.length_pos_of_ne_nil (by rintro rfl; cases h)
  rw [length_dropBlankLast h, length_dropBlankLast h']
  split <;> split <;> simp_all <;> omega

/-- A list of layout has one item. -/
theorem itemsFrom?_of_layout {n i : Nat} (h : ∀ j, i ≤ j → j < i + n →
    ∃ t, l.get? j = some t ∧ t.isSignificant = false) (start resume : Nat) :
    l.itemsFrom? n i start resume = some [l.item start (i + n)] := by
  induction n generalizing i with
  | zero => rfl
  | succ n ih =>
    obtain ⟨t, ht, hlayout⟩ := h i (Nat.le_refl _) (by omega)
    rw [Thins.itemsFrom?_layout ht hlayout, ih fun j hj hj' => h j (by omega) (by omega),
      show i + 1 + n = i + (n + 1) by omega]

end Lists

/-! ## Blank items -/

/-- An item is blank without the dropped tokens iff the tokens that are kept are. -/
theorem Covers.isEmpty_kept_iff {l l' : Listing} {drop : Nat → Bool} (hdrop : l.DropsLayout drop)
    (h : Thins (keptAt drop) l'.tokens l.tokens) {item item' : Item}
    (hmatches : item.Matches (keptAt drop) item') (hcovers : l'.Covers item') :
    item'.text.isEmpty = true ↔ ∀ j t, item.start ≤ j → j < item.stop → l.get? j = some t →
      drop j = false → t.Blank := by
  have hstart (k : Nat) : item'.start ≤ k ↔ item.start ≤ keptAt drop k := by
    rw [← Nat.not_lt, ← Nat.not_lt, hmatches.start k]
  rw [hcovers.isEmpty_iff]
  constructor
  · intro hblank j t hlow hhigh ht hj
    rw [← keptAt_rank hj] at hlow hhigh ht
    rw [h.listing_get?] at ht
    obtain ⟨t', ht', rfl⟩ := Option.map_eq_some_iff.1 ht
    exact hblank _ t' ((hstart _).2 hlow) ((hmatches.stop _).2 hhigh) ht'
  · intro hblank k t' hlow hhigh ht'
    refine hblank _ (t'.reindex (keptAt drop)) ((hstart k).1 hlow) ((hmatches.stop k).1 hhigh) ?_
      (hdrop.keep_keptAt k)
    rw [h.listing_get?, ht', Option.map_some]

section Texts

variable {ts : List Token} (hts : IsLexed ts) {opener closer : Nat} {item : Item}
include hts

/-- An item is blank without layout, but not with it, iff it consists of comments. -/
theorem onlyComments_iff (hcovers : (ofTokens ts).Covers item) (hlow : opener < item.start)
    (hhigh : item.stop ≤ closer) :
    ((∀ j t, item.start ≤ j → j < item.stop → (ofTokens ts).get? j = some t →
        (ofTokens ts).layoutBetween opener closer j = false → t.Blank) ∧
      ¬ item.text.isEmpty = true) ↔ (ofTokens ts).OnlyComments item.start item.stop := by
  rw [hcovers.isEmpty_iff]
  -- what is kept of the item is what is no layout
  have hkeep {j : Nat} {t : Token} (hj : item.start ≤ j) (hj' : j < item.stop)
      (ht : (ofTokens ts).get? j = some t) :
      (ofTokens ts).layoutBetween opener closer j = false ↔ t.kind.isLayout = false :=
    layoutBetween_eq_false_iff (by omega) (by omega) ht
  constructor
  · rintro ⟨hkept, hsome⟩
    have hblank : ∀ j t, item.start ≤ j → j < item.stop → (ofTokens ts).get? j = some t →
        t.kind.isComment = false → t.Blank := by
      intro j t hj hj' ht hcomment
      cases hlayout : t.kind.isLayout with
      | false => exact hkept j t hj hj' ht ((hkeep hj hj' ht).2 hlayout)
      | true =>
        refine blank_of_whitespace hts ht ((TokenKind.isLayout_iff.1 hlayout).resolve_right ?_)
        rw [hcomment]
        exact Bool.false_ne_true
    refine ⟨?_, hblank⟩
    by_contra hnone
    refine hsome fun j t hj hj' ht => hblank j t hj hj' ht (Bool.eq_false_iff.2 fun hcomment => ?_)
    exact hnone ⟨j, t, hj, hj', ht, hcomment⟩
  · rintro ⟨⟨j, t, hj, hj', ht, hcomment⟩, hblank⟩
    refine ⟨fun j t hj hj' ht hkept => ?_, fun hall => ?_⟩
    · have hlayout := (hkeep hj hj' ht).1 hkept
      refine hblank j t hj hj' ht (Bool.eq_false_iff.2 fun hcomment => ?_)
      rw [TokenKind.isLayout_iff.2 (Or.inr hcomment)] at hlayout
      cases hlayout
    · exact not_blank_of_comment hts ht hcomment (hall j t hj hj' ht)

end Texts

/-! ## Numbers of arguments -/

theorem openerAfter?_eq_some {l : Listing} {i opener : Nat} (h : l.openerAfter? i = some opener) :
    i < opener ∧ l.kind? opener = some .openParen := by
  obtain ⟨hnext, hkind⟩ := Option.filter_eq_some_iff.1 h
  exact ⟨(firstIn?_eq_some hnext).1, eq_of_beq hkind⟩

theorem arguments?_eq_allItems? {l : Listing} {i opener : Nat}
    (h : l.openerAfter? i = some opener) :
    l.arguments? i = (l.allItems? opener).map dropBlankLast := by
  rw [arguments?, h, Option.bind_some, items?_eq]

section Counts

variable {ts : List Token} (hts : IsLexed ts) {i opener closer : Nat}
include hts

theorem thins_layoutBetween (opener closer : Nat) :
    Thins (keptAt ((ofTokens ts).layoutBetween opener closer))
      ((ofTokens ts).without ((ofTokens ts).layoutBetween opener closer)).tokens
      (ofTokens ts).tokens :=
  thins_without hts.bare ((ofTokens ts).dropsLayout_layoutBetween opener closer)

/-- The call keeps its opening parenthesis. -/
theorem openerAfter?_without_layout (h : (ofTokens ts).openerAfter? i = some opener) :
    ((ofTokens ts).without ((ofTokens ts).layoutBetween opener closer)).openerAfter? i =
      some opener := by
  have hthins := thins_layoutBetween hts opener closer
  have hsame := hthins.openerAfter? i
  rw [keptAt_layoutBetween (Nat.le_of_lt (openerAfter?_eq_some h).1), h] at hsame
  obtain ⟨o, ho, heq⟩ := Option.map_eq_some_iff.1 hsame.symm
  rw [ho, Option.some.injEq]
  exact hthins.strictMono.injective (heq.trans (keptAt_layoutBetween (Nat.le_refl _)).symm)

/-- The items of a list, with and without its layout. -/
theorem allItems?_without_layout (opener closer : Nat) :
    ItemsMatch (keptAt ((ofTokens ts).layoutBetween opener closer))
      ((ofTokens ts).allItems? opener)
      (((ofTokens ts).without ((ofTokens ts).layoutBetween opener closer)).allItems? opener) := by
  have hsame := (thins_layoutBetween hts opener closer).allItems? opener
  rwa [keptAt_layoutBetween (Nat.le_refl _)] at hsame

theorem tiles_allItems? (hopener : (ofTokens ts).kind? opener = some .openParen)
    (hcloser : (ofTokens ts).partner? opener = some closer) {items : List Item}
    (hitems : (ofTokens ts).allItems? opener = some items) :
    (ofTokens ts).Tiles closer (opener + 1) items :=
  ((reading_allItems? hts.bare hopener hcloser).tiles hitems (Nat.le_refl _)
    (lt_of_partner? hts.bare (b := .round) hopener hcloser).1).1

/-- The last item of a list is blank with or without layout, unless it consists of comments. -/
theorem isEmpty_last_iff (hopener : (ofTokens ts).kind? opener = some .openParen)
    (hcloser : (ofTokens ts).partner? opener = some closer) {items items' : List Item}
    {last last' : Item} (hitems : (ofTokens ts).allItems? opener = some items)
    (hitems' : ((ofTokens ts).without
      ((ofTokens ts).layoutBetween opener closer)).allItems? opener = some items')
    (hlast : last ∈ items) (hlast' : last' ∈ items')
    (hmatches : last.Matches (keptAt ((ofTokens ts).layoutBetween opener closer)) last') :
    (last'.text.isEmpty = true ↔ last.text.isEmpty = true) ↔
      ¬ (ofTokens ts).OnlyComments last.start last.stop := by
  have htiles := tiles_allItems? hts hopener hcloser hitems
  have hcovers := allItems?_covers hitems last hlast
  have hcovers' := allItems?_covers hitems' last' hlast'
  have hkept := Covers.isEmpty_kept_iff ((ofTokens ts).dropsLayout_layoutBetween opener closer)
    (thins_layoutBetween hts opener closer) hmatches hcovers'
  rw [← onlyComments_iff hts hcovers (htiles.bounds hlast).1 (htiles.bounds hlast).2, ← hkept,
    not_and, not_not]
  have hmono (h : last.text.isEmpty = true) : last'.text.isEmpty = true :=
    hkept.2 fun j t hj hj' ht _ => hcovers.isEmpty_iff.1 h j t hj hj' ht
  exact ⟨Iff.mp, fun h => ⟨h, hmono⟩⟩

/-- A list of layout is without arguments iff none of it is a comment. -/
theorem arguments?_of_layout (hopener : (ofTokens ts).openerAfter? i = some opener)
    (hcloser : (ofTokens ts).partner? opener = some closer)
    (hlayout : ∀ j, opener < j → j < closer →
      ((ofTokens ts).get? j).any Token.isSignificant = false) :
    (ofTokens ts).arguments? i = some [] ↔
      ∀ j, opener < j → j < closer → ((ofTokens ts).kind? j).any TokenKind.isComment = false := by
  obtain ⟨hlt, hkind⟩ := lt_of_partner? hts.bare (b := .round)
    (openerAfter?_eq_some hopener).2 hcloser
  have htoken {j : Nat} (hj : opener < j) (hj' : j < closer) :
      ∃ t, (ofTokens ts).get? j = some t ∧ t.isSignificant = false := by
    have hsize : j < (ofTokens ts).tokens.size := Nat.lt_trans hj' (lt_size_of_kind? hkind)
    have hj := hlayout j hj hj'
    rw [get?, Array.getElem?_eq_getElem hsize] at hj ⊢
    exact ⟨_, rfl, hj⟩
  have hall : (ofTokens ts).allItems? opener =
      some [(ofTokens ts).item (opener + 1) closer] := by
    rw [partner?] at hcloser
    rw [allItems?, hcloser]
    have hitems := itemsFrom?_of_layout (n := closer - (opener + 1)) (i := opener + 1)
      (fun j hj hj' => htoken hj (by omega)) (opener + 1) 0
    rwa [show opener + 1 + (closer - (opener + 1)) = closer by omega] at hitems
  have hcovers := allItems?_covers hall _ List.mem_cons_self
  have hblank : (ofTokens ts).arguments? i = some [] ↔
      ((ofTokens ts).item (opener + 1) closer).text.isEmpty = true := by
    rw [arguments?_eq_allItems? hopener, hall, Option.map_some, dropBlankLast,
      List.getLast?_singleton, Option.any_some]
    split
    · rename_i h
      exact ⟨fun _ => h, fun _ => rfl⟩
    · rename_i h
      exact ⟨fun heq => absurd (Option.some.inj heq) (List.cons_ne_nil _ _), fun h' => absurd h' h⟩
  rw [hblank, hcovers.isEmpty_iff]
  constructor
  · intro hblank j hj hj'
    obtain ⟨t, ht, -⟩ := htoken hj hj'
    rw [kind?, ht, Option.map_some, Option.any_some]
    exact Bool.eq_false_iff.2 fun hcomment =>
      not_blank_of_comment hts ht hcomment (hblank j t hj hj' ht)
  · intro hnone j t hj hj' ht
    have hcomment := hnone j hj hj'
    rw [kind?, ht, Option.map_some, Option.any_some] at hcomment
    obtain ⟨u, hu, hsignificant⟩ := htoken hj hj'
    obtain rfl := Option.some.inj (hu.symm.trans ht)
    refine blank_of_whitespace hts ht ((TokenKind.isLayout_iff.1 ?_).resolve_right ?_)
    · exact Token.isLayout_of_not_significant hsignificant
    · rw [hcomment]
      exact Bool.false_ne_true

end Counts

/-- Leaving out the layout in the parentheses of a call keeps the number of its arguments, unless
the last item of the list consists of comments: such an item is an argument, and without layout it
is none. In particular, a list without a significant token has no argument iff it has no
comment. -/
theorem arguments?_length_without_layout {ts : List Token} (hts : IsLexed ts)
    {i opener closer : Nat}
    (hopener : (ofTokens ts).openerAfter? i = some opener)
    (hcloser : (ofTokens ts).partner? opener = some closer) :
    ((((ofTokens ts).without ((ofTokens ts).layoutBetween opener closer)).arguments? i).map
        List.length = ((ofTokens ts).arguments? i).map List.length ↔
      ∀ items last, (ofTokens ts).allItems? opener = some items → items.getLast? = some last →
        ¬ (ofTokens ts).OnlyComments last.start last.stop) ∧
    ((∀ j, opener < j → j < closer → ((ofTokens ts).get? j).any Token.isSignificant = false) →
      ((ofTokens ts).arguments? i = some [] ↔
        ∀ j, opener < j → j < closer →
          ((ofTokens ts).kind? j).any TokenKind.isComment = false)) := by
  refine ⟨?_, arguments?_of_layout hts hopener hcloser⟩
  have hkind := (openerAfter?_eq_some hopener).2
  have hmatch := allItems?_without_layout hts opener closer
  rw [arguments?_eq_allItems? hopener,
    arguments?_eq_allItems? (openerAfter?_without_layout hts hopener), Option.map_map,
    Option.map_map]
  rcases itemsMatch_cases hmatch with ⟨hnone, hnone'⟩ | ⟨items, items', hitems, hitems', hall⟩
  · rw [hnone, hnone']
    exact ⟨fun _ => nofun, fun _ => rfl⟩
  · obtain ⟨last, last', hlast, hlast', hmatches⟩ :=
      Item.Matches.getLast? hall (tiles_allItems? hts hkind hcloser hitems).ne_nil
    have hblank := isEmpty_last_iff hts hkind hcloser hitems hitems' (List.mem_of_getLast? hlast)
      (List.mem_of_getLast? hlast') hmatches
    rw [hitems, hitems', Option.map_some, Option.map_some, Option.some.injEq, Function.comp_apply,
      Function.comp_apply, length_dropBlankLast_eq_iff hlast hlast' hall.length_eq.symm, hblank]
    constructor
    · intro h items₁ last₁ hitems₁ hlast₁
      obtain rfl := Option.some.inj hitems₁
      obtain rfl := Option.some.inj (hlast.symm.trans hlast₁)
      exact h
    · exact fun h => h items last rfl hlast

theorem arguments?_length_without_layout_call :
    let l := ofText "<?php f(/* a */ 1, $b /* c */);"
    l.openerAfter? 2 = some 3 ∧ l.partner? 3 = some 12 ∧
      ((l.without (l.layoutBetween 3 12)).arguments? 2).map List.length =
        (l.arguments? 2).map List.length := by
  intro l
  obtain ⟨hopener, hcloser, hitems, hvariable⟩ : l.openerAfter? 2 = some 3 ∧
      l.partner? 3 = some 12 ∧
      l.allItems? 3 = some [⟨4, 7, "/* a */ 1"⟩, ⟨8, 12, "$b /* c */"⟩] ∧
      (l.get? 9).any (fun t => t.kind == .variableName && t.text == "$b") = true := by
    decide +kernel
  refine ⟨hopener, hcloser,
    (arguments?_length_without_layout (isLexed_tokens _) hopener hcloser).1.2 ?_⟩
  intro items last hsome hlast honly
  obtain rfl := Option.some.inj (hitems.symm.trans hsome)
  obtain rfl := Option.some.inj hlast
  obtain ⟨t, ht, hsame⟩ := (Option.any_eq_true _ _).1 hvariable
  obtain ⟨hkind, htext⟩ := Bool.and_eq_true_iff.1 hsame
  have hblank := honly.blank 9 t (by decide) (by decide) ht (by rw [eq_of_beq hkind]; rfl)
  rw [Token.Blank, eq_of_beq htext] at hblank
  exact absurd (hblank '$' (by decide)) (by decide)

/-- A comment alone in the parentheses is an argument, and so is one after the last comma. -/
theorem comments_as_arguments :
    let lone := ofText "<?php f(/* c */);"
    let last := ofText "<?php f(1, /* c */);"
    (lone.openerAfter? 2 = some 3 ∧ lone.partner? 3 = some 5 ∧
        (∀ j < 5, 3 < j → (lone.get? j).any Token.isSignificant = false) ∧
        (lone.arguments? 2).map List.length = some 1 ∧
        ((lone.without (lone.layoutBetween 3 5)).arguments? 2).map List.length = some 0) ∧
      last.openerAfter? 2 = some 3 ∧ last.partner? 3 = some 8 ∧
        (last.arguments? 2).map List.length = some 2 ∧
        ((last.without (last.layoutBetween 3 8)).arguments? 2).map List.length = some 1 := by
  decide +kernel

end Vintage.Listing
