import Vintage.Proofs.BlankItems
import Vintage.Proofs.NestedBrackets
import Vintage.Proofs.LexemeTexts

/-!
# Items of a list in parentheses

The items of a list are found by one walk through its tokens. The walk jumps from an opening bracket
behind its partner, so it depends on the recorded partners, and these may cross each other or lie
behind the end of the list. Whatever they are, the walk moves forward, and its items tile the list.

Results:
* `Listing.Meets`: the tokens that the walk meets.
* `Listing.reading_itemsFrom?`: what the walk does at each token that it meets.
* `Listing.Reading.eq_none_iff`, `Listing.Reading.tiles`: when there are items, and where they lie.
* `Listing.Spells.meets_iff`: the walk meets the tokens of a well-nested list that are in no inner
  brackets.
* `Listing.items?_readInItems`: all of it, for the tokens of any text.
-/

namespace Vintage

namespace Listing

/-! ## The walk through a list -/

/-- Where the walk goes on after the token at a position: behind the partner of an opening bracket,
and otherwise at the next token. After a bracket that is never closed it does not go on. -/
def following? (l : Listing) (i : Nat) : Option Nat :=
  if (l.kind? i).any TokenKind.opensGroup then (l.partner? i).map (· + 1) else some (i + 1)

/-- The walk from position `i` on, up to position `stop`, meets the token at position `j`. -/
inductive Meets (l : Listing) (stop : Nat) : (i j : Nat) → Prop
  | here {i : Nat} (h : i < stop) : Meets l stop i i
  | later {i k j : Nat} (h : i < stop) (hk : l.following? i = some k) (hj : Meets l stop k j) :
      Meets l stop i j

/-- What is read from position `i` up to position `stop`, if the item at hand starts at `start`. -/
inductive Reading (l : Listing) (stop : Nat) : (i start : Nat) → Option (List Item) → Prop
  | done (start : Nat) : Reading l stop stop start (some [l.item start stop])
  | unclosed {i : Nat} (start : Nat) (h : i < stop) (hnone : l.following? i = none) :
      Reading l stop i start none
  | comma {i : Nat} (start : Nat) {read : Option (List Item)} (h : i < stop)
      (hcomma : l.kind? i = some .comma) (hread : Reading l stop (i + 1) (i + 1) read) :
      Reading l stop i start (read.map (l.item start i :: ·))
  | pass {i start k : Nat} {read : Option (List Item)} (h : i < stop)
      (hcomma : l.kind? i ≠ some .comma) (hk : l.following? i = some k) (hforward : i < k)
      (hread : Reading l stop (min k stop) start read) : Reading l stop i start read

section Walk

variable {l : Listing} {stop i j : Nat}

theorem following?_eq_none_iff :
    l.following? i = none ↔
      (l.kind? i).any TokenKind.opensGroup = true ∧ l.partner? i = none := by
  unfold following?
  split
  · rename_i h
    rw [Option.map_eq_none_iff, and_iff_right h]
  · rename_i h
    exact ⟨nofun, fun hopens => absurd hopens.1 h⟩

theorem following?_of_not_opens (h : (l.kind? i).any TokenKind.opensGroup = false) :
    l.following? i = some (i + 1) := by
  rw [following?, h]
  rfl

theorem following?_comma (h : l.kind? i = some .comma) : l.following? i = some (i + 1) := by
  apply following?_of_not_opens
  rw [h]
  rfl

theorem Meets.lt (h : l.Meets stop i j) : i < stop ∧ j < stop := by
  induction h with
  | here h => exact ⟨h, h⟩
  | later h _ _ ih => exact ⟨h, ih.2⟩

theorem meets_iff_of_following (h : i < stop) {k : Nat} (hk : l.following? i = some k) :
    l.Meets stop i j ↔ j = i ∨ l.Meets stop k j := by
  constructor
  · intro hmeets
    cases hmeets with
    | here => exact Or.inl rfl
    | later _ hk' hj =>
      obtain rfl := Option.some.inj (hk.symm.trans hk')
      exact Or.inr hj
  · rintro (rfl | hj)
    · exact .here h
    · exact .later h hk hj

/-- Behind the end there is nothing to meet. -/
theorem meets_min : l.Meets stop (min i stop) j ↔ l.Meets stop i j := by
  by_cases h : i ≤ stop
  · rw [Nat.min_eq_left h]
  · rw [Nat.min_eq_right (by omega)]
    constructor
    · intro hmeets
      exact absurd hmeets.lt.1 (Nat.lt_irrefl _)
    · intro hmeets
      exact absurd hmeets.lt.1 (by omega)

/-! ## The items are read by the walk -/

/-- What lies behind has no say. -/
theorem itemsFrom?_resume {n i resume : Nat} (start : Nat) (h : resume ≤ i) :
    l.itemsFrom? n i start resume = l.itemsFrom? n i start 0 := by
  induction n generalizing i start with
  | zero => rfl
  | succ n ih =>
    have hi : ¬ i < resume := by omega
    rw [itemsFrom?, itemsFrom?, if_neg hi, if_neg (Nat.not_lt_zero i),
      ih start (by omega), ih (i + 1) (by omega)]

theorem itemsFrom?_skip {d i resume : Nat} (n start : Nat) (h : i + d ≤ resume) :
    l.itemsFrom? (d + n) i start resume = l.itemsFrom? n (i + d) start resume := by
  induction d generalizing i with
  | zero => rw [Nat.zero_add, Nat.add_zero]
  | succ d ih =>
    rw [show d + 1 + n = d + n + 1 by omega, itemsFrom?, if_pos (by omega), ih (by omega),
      show i + 1 + d = i + (d + 1) by omega]

/-- A jump, not beyond the end. -/
theorem itemsFrom?_jump {k : Nat} (start : Nat) (hi : i < k) (h : i < stop) :
    l.itemsFrom? (stop - (i + 1)) (i + 1) start k =
      l.itemsFrom? (stop - min k stop) (min k stop) start 0 := by
  have hle : i + 1 + (min k stop - (i + 1)) ≤ k := by omega
  have hskip := itemsFrom?_skip (l := l) (stop - min k stop) start hle
  rw [show min k stop - (i + 1) + (stop - min k stop) = stop - (i + 1) by omega,
    show i + 1 + (min k stop - (i + 1)) = min k stop by omega] at hskip
  rw [hskip]
  by_cases hk : k ≤ stop
  · rw [Nat.min_eq_left hk, itemsFrom?_resume start (Nat.le_refl k)]
  · rw [Nat.min_eq_right (by omega), Nat.sub_self]
    rfl

/-- What the walk does at each token. -/
theorem reading_itemsFrom? (hforward : ∀ i k, l.following? i = some k → i < k)
    (hstop : stop ≤ l.size) {i : Nat} (start : Nat) (hi : i ≤ stop) :
    l.Reading stop i start (l.itemsFrom? (stop - i) i start 0) := by
  induction hn : stop - i using Nat.strongRecOn generalizing i start with
  | ind n ih =>
    cases n with
    | zero =>
      obtain rfl : i = stop := by omega
      exact .done start
    | succ n =>
      have hlt : i < stop := by omega
      obtain ⟨t, ht, hkind⟩ := exists_get? (Nat.lt_of_lt_of_le hlt hstop)
      have hpartner : l.partner? i = t.partner := by rw [partner?, ht, Option.bind_some]
      obtain rfl : n = stop - (i + 1) := by omega
      rw [itemsFrom?, if_neg (Nat.not_lt_zero i), ht]
      simp only
      by_cases hopens : t.kind.opensGroup = true
      · have hnext : l.following? i = t.partner.map (· + 1) := by
          rw [following?, hkind, Option.any_some, if_pos hopens, hpartner]
        rw [if_pos hopens]
        cases hclose : t.partner with
        | none => exact .unclosed start hlt (by rw [hnext, hclose, Option.map_none])
        | some closer =>
          rw [hclose, Option.map_some] at hnext
          have hforward := hforward i _ hnext
          simp only
          rw [itemsFrom?_jump start hforward hlt]
          refine .pass hlt ?_ hnext hforward (ih _ (by omega) _ (by omega) rfl)
          intro hcomma
          rw [Option.some.inj (hkind.symm.trans hcomma)] at hopens
          cases hopens
      · have hnext : l.following? i = some (i + 1) := by
          apply following?_of_not_opens
          rw [hkind, Option.any_some]
          exact Bool.not_eq_true _ ▸ hopens
        rw [if_neg hopens]
        split
        · rename_i hcomma
          exact .comma start hlt (hkind.trans (congrArg some hcomma))
            (ih _ (by omega) _ (by omega) rfl)
        · rename_i hcomma
          have hread := ih (stop - (i + 1)) (by omega) start (show i + 1 ≤ stop by omega) rfl
          refine .pass hlt ?_ hnext (Nat.lt_succ_self i) ?_
          · rw [hkind]
            exact fun he => hcomma (Option.some.inj he)
          · rwa [Nat.min_eq_left (by omega)]

end Walk

/-! ## Where the items lie -/

/-- The items tile the tokens from `start` up to `stop`: each but the last ends at a comma, and the
next one starts right after it. -/
inductive Tiles (l : Listing) (stop : Nat) : (start : Nat) → List Item → Prop
  | last {start : Nat} (h : start ≤ stop) : Tiles l stop start [l.item start stop]
  | cons {start c : Nat} {items : List Item} (hstart : start ≤ c) (hstop : c < stop)
      (hcomma : l.kind? c = some .comma) (hrest : Tiles l stop (c + 1) items) :
      Tiles l stop start (l.item start c :: items)

/-- The ends of all items but the last. -/
def separators (items : List Item) : List Nat := items.dropLast.map Item.stop

/-- The items are all the items that were found, without the last one if its text is blank. -/
def LeaveBlankOut (found items : List Item) : Prop :=
  (∃ last, found = items ++ [last] ∧ last.text = "") ∨
    found = items ∧ ∀ last, found.getLast? = some last → last.text ≠ ""

theorem leaveBlankOut_dropBlankLast (found : List Item) :
    LeaveBlankOut found (dropBlankLast found) := by
  unfold dropBlankLast
  split
  · rename_i h
    obtain ⟨last, hlast, hblank⟩ := (Option.any_eq_true _ _).1 h
    obtain ⟨init, rfl⟩ := List.getLast?_eq_some_iff.1 hlast
    exact Or.inl ⟨last, by rw [List.dropLast_concat], String.isEmpty_iff.1 hblank⟩
  · rename_i h
    refine Or.inr ⟨rfl, fun last hlast hblank => h ?_⟩
    rw [hlast, Option.any_some, hblank]
    rfl

section Reading

variable {l : Listing} {stop i start : Nat} {read : Option (List Item)}

theorem Tiles.ne_nil {items : List Item} (h : l.Tiles stop start items) : items ≠ [] := by
  cases h <;> exact List.cons_ne_nil _ _

/-- An item starts where the first one does, or after a comma. -/
theorem Tiles.start_of_mem {items : List Item} (h : l.Tiles stop start items) {item : Item}
    (hmem : item ∈ items) :
    item.start = start ∨
      ∃ c, start ≤ c ∧ c < stop ∧ l.kind? c = some .comma ∧ item.start = c + 1 := by
  induction h with
  | last => exact Or.inl (List.mem_singleton.1 hmem ▸ rfl)
  | @cons start c items hstart hstop hcomma _ ih =>
    rcases List.mem_cons.1 hmem with rfl | hmem
    · exact Or.inl rfl
    · rcases ih hmem with heq | ⟨d, hd, hd', hkind, heq⟩
      · exact Or.inr ⟨c, hstart, hstop, hcomma, heq⟩
      · exact Or.inr ⟨d, by omega, hd', hkind, heq⟩

/-- No two items start at the same place. -/
theorem Tiles.eq_of_start {items : List Item} (h : l.Tiles stop start items) {item item' : Item}
    (hmem : item ∈ items) (hmem' : item' ∈ items) (heq : item.start = item'.start) :
    item = item' := by
  induction h with
  | last => rw [List.mem_singleton.1 hmem, List.mem_singleton.1 hmem']
  | @cons start c items hstart hstop hcomma hrest ih =>
    have hlater {item : Item} (hmem : item ∈ items) : start < item.start := by
      rcases hrest.start_of_mem hmem with heq | ⟨d, hd, -, -, heq⟩ <;> omega
    rcases List.mem_cons.1 hmem with rfl | hmem <;> rcases List.mem_cons.1 hmem' with rfl | hmem'
    · rfl
    · exact absurd (Nat.lt_of_lt_of_eq (hlater hmem') heq.symm) (Nat.lt_irrefl start)
    · exact absurd (Nat.lt_of_lt_of_eq (hlater hmem) heq) (Nat.lt_irrefl start)
    · exact ih hmem hmem'

/-- There are no items iff the walk meets a bracket that is never closed. -/
theorem Reading.eq_none_iff (h : l.Reading stop i start read) :
    read = none ↔ ∃ j, l.Meets stop i j ∧ l.following? j = none := by
  induction h with
  | done =>
    constructor
    · exact nofun
    · rintro ⟨j, hj, -⟩
      exact absurd hj.lt.1 (Nat.lt_irrefl _)
  | unclosed _ h hnone => exact ⟨fun _ => ⟨_, .here h, hnone⟩, fun _ => rfl⟩
  | comma _ h hcomma _ ih =>
    have hk := following?_comma hcomma
    rw [Option.map_eq_none_iff, ih]
    simp only [meets_iff_of_following h hk, or_and_right, exists_or, exists_eq_left, hk]
    exact ⟨Or.inr, fun h => h.resolve_left nofun⟩
  | pass h _ hk _ _ ih =>
    rw [ih]
    simp only [meets_iff_of_following h hk, or_and_right, exists_or, exists_eq_left, hk, meets_min]
    exact ⟨Or.inr, fun h => h.resolve_left nofun⟩

/-- The items tile what is read, and they are separated by the commas that the walk meets. -/
theorem Reading.tiles (h : l.Reading stop i start read) {items : List Item}
    (hitems : read = some items) (hstart : start ≤ i) (hi : i ≤ stop) :
    l.Tiles stop start items ∧
      ∀ c, c ∈ separators items ↔ l.Meets stop i c ∧ l.kind? c = some .comma := by
  induction h generalizing items with
  | done =>
    cases hitems
    refine ⟨.last hstart, fun c => ⟨nofun, fun hc => ?_⟩⟩
    exact absurd hc.1.lt.1 (Nat.lt_irrefl _)
  | unclosed => cases hitems
  | @comma i start read h hcomma _ ih =>
    obtain ⟨rest, hrest, rfl⟩ := Option.map_eq_some_iff.1 hitems
    obtain ⟨htiles, hseparators⟩ := ih hrest (Nat.le_refl _) h
    refine ⟨.cons hstart h hcomma htiles, fun c => ?_⟩
    rw [separators, List.dropLast_cons_of_ne_nil htiles.ne_nil, List.map_cons, List.mem_cons,
      ← separators, hseparators, meets_iff_of_following h (following?_comma hcomma)]
    constructor
    · rintro (rfl | ⟨hmeets, hc⟩)
      · exact ⟨Or.inl rfl, hcomma⟩
      · exact ⟨Or.inr hmeets, hc⟩
    · rintro ⟨rfl | hmeets, hc⟩
      · exact Or.inl rfl
      · exact Or.inr ⟨hmeets, hc⟩
  | @pass i start k read h hne hk hforward _ ih =>
    obtain ⟨htiles, hseparators⟩ := ih hitems (by omega) (Nat.min_le_right _ _)
    refine ⟨htiles, fun c => ?_⟩
    rw [hseparators, meets_min, meets_iff_of_following h hk]
    constructor
    · rintro ⟨hmeets, hc⟩
      exact ⟨Or.inr hmeets, hc⟩
    · rintro ⟨rfl | hmeets, hc⟩
      · exact absurd hc hne
      · exact ⟨hmeets, hc⟩

end Reading

/-! ## Well-nested lists -/

section Nested

variable {ts : List Token} (hts : ∀ t ∈ ts, t.Bare)
include hts

theorem lt_of_following? {i k : Nat} (h : (ofTokens ts).following? i = some k) : i < k := by
  unfold following? at h
  split at h
  · rename_i hopens
    obtain ⟨closer, hcloser, rfl⟩ := Option.map_eq_some_iff.1 h
    obtain ⟨kind, hkind, hopens⟩ := (Option.any_eq_true _ _).1 hopens
    obtain ⟨b, rfl⟩ := TokenKind.opensGroup_iff.1 hopens
    exact Nat.lt_succ_of_lt (lt_of_partner? hts hkind hcloser).1
  · cases h
    exact Nat.lt_succ_self i

/-- The walk through a well-nested stretch meets the tokens that are in no brackets of the stretch,
closing brackets apart. -/
theorem Spells.meets_iff {p : TokenKind → Prop} {ks : List TokenKind} (hks : Nested p ks)
    {i stop : Nat} (h : (ofTokens ts).Spells i ks) (hstop : i + ks.length = stop) (c : Nat) :
    (ofTokens ts).Meets stop i c ↔ i ≤ c ∧ c < stop ∧
      ¬ ∃ o e, (ofTokens ts).partner? o = some e ∧ i ≤ o ∧ o < c ∧ c ≤ e := by
  induction hks generalizing i with
  | nil =>
    rw [List.length_nil] at hstop
    constructor
    · intro hmeets
      exact absurd hmeets.lt.1 (by omega)
    · rintro ⟨hic, hc, -⟩
      omega
  | @plain p k ks hbracket _ _ ih =>
    obtain ⟨hk, hks⟩ := spells_cons.1 h
    rw [List.length_cons] at hstop
    have hnext : (ofTokens ts).following? i = some (i + 1) := by
      apply following?_of_not_opens
      rw [hk]
      exact TokenKind.opensGroup_of_not_bracket hbracket
    rw [meets_iff_of_following (by omega) hnext, ih hks (by omega)]
    constructor
    · rintro (rfl | ⟨hic, hc, hfree⟩)
      · exact ⟨Nat.le_refl _, by omega, by rintro ⟨o, e, -, hio, hoc, -⟩; omega⟩
      · refine ⟨by omega, hc, ?_⟩
        rintro ⟨o, e, ho, hio, hoc, hce⟩
        refine hfree ⟨o, e, ho, Nat.lt_of_le_of_ne hio ?_, hoc, hce⟩
        rintro rfl
        obtain ⟨b, hb⟩ := opener_of_partner? hts ho (by omega)
        exact (TokenKind.ne_of_not_bracket hbracket b).1 (Option.some.inj (hk.symm.trans hb))
    · rintro ⟨hic, hc, hfree⟩
      refine (Nat.eq_or_lt_of_le hic).imp Eq.symm fun hlt => ⟨hlt, hc, ?_⟩
      rintro ⟨o, e, ho, hio, hoc, hce⟩
      exact hfree ⟨o, e, ho, by omega, hoc, hce⟩
  | @group p b inner rest hinner _ _ ih =>
    have hpartner := h.partner?_group hts hinner
    obtain ⟨hk, hks⟩ := spells_cons.1 h
    obtain ⟨hin, hks⟩ := spells_append.1 hks
    obtain ⟨hcloser, hout⟩ := spells_cons.1 hks
    simp only [List.length_cons, List.length_append] at hstop
    have hnext : (ofTokens ts).following? i = some (i + 1 + inner.length + 1) := by
      rw [following?, hk, Option.any_some, if_pos (TokenKind.opensGroup_iff.2 ⟨b, rfl⟩), hpartner]
      rfl
    rw [meets_iff_of_following (by omega) hnext, ih hout (by omega)]
    constructor
    · rintro (rfl | ⟨hic, hc, hfree⟩)
      · exact ⟨Nat.le_refl _, by omega, by rintro ⟨o, e, -, hio, hoc, -⟩; omega⟩
      · refine ⟨by omega, hc, ?_⟩
        rintro ⟨o, e, ho, hio, hoc, hce⟩
        refine hfree ⟨o, e, ho, Nat.le_of_not_lt fun hlt => ?_, hoc, hce⟩
        -- brackets that open in the group are closed in it
        obtain ⟨b', hb'⟩ := opener_of_partner? hts ho (by omega)
        rcases Nat.eq_or_lt_of_le hio with rfl | hio
        · obtain rfl := Option.some.inj (hpartner.symm.trans ho)
          omega
        · rcases Nat.eq_or_lt_of_le (Nat.le_of_lt_succ hlt) with rfl | hlt
          · exact absurd (Option.some.inj (hb'.symm.trans hcloser)) (b'.opener_ne_closer b)
          · obtain ⟨e', he', -, hlt'⟩ := hin.exists_partner hts hinner hio hlt hb'
            obtain rfl := Option.some.inj (he'.symm.trans ho)
            omega
    · rintro ⟨hic, hc, hfree⟩
      refine (Nat.eq_or_lt_of_le hic).imp Eq.symm fun hlt => ⟨?_, hc, ?_⟩
      · refine Nat.lt_of_not_le fun hle => hfree ⟨i, _, hpartner, Nat.le_refl i, hlt, hle⟩
      · rintro ⟨o, e, ho, hio, hoc, hce⟩
        exact hfree ⟨o, e, ho, by omega, hoc, hce⟩

/-- The walk through a well-nested stretch meets no bracket that is never closed. -/
theorem Spells.following?_ne_none {p : TokenKind → Prop} {ks : List TokenKind} (hks : Nested p ks)
    {i j : Nat} (h : (ofTokens ts).Spells i ks) (hij : i ≤ j) (hj : j < i + ks.length) :
    (ofTokens ts).following? j ≠ none := by
  intro hnone
  obtain ⟨hopens, hpartner⟩ := following?_eq_none_iff.1 hnone
  obtain ⟨kind, hkind, hopens⟩ := (Option.any_eq_true _ _).1 hopens
  obtain ⟨b, rfl⟩ := TokenKind.opensGroup_iff.1 hopens
  obtain ⟨e, he, -⟩ := h.exists_partner hts hks hij hj hkind
  rw [hpartner] at he
  cases he

end Nested

/-! ## The items of a list -/

/-- A comma between two parentheses, but in no brackets between them. -/
def SeparatesBetween (l : Listing) (opener closer c : Nat) : Prop :=
  opener < c ∧ c < closer ∧ l.kind? c = some .comma ∧
    ¬ ∃ o e, l.partner? o = some e ∧ opener < o ∧ o < c ∧ c < e ∧ e < closer

/-- In a well-nested list the walk meets exactly the commas in no inner brackets. -/
theorem Spells.separates_iff {ts : List Token} (hts : ∀ t ∈ ts, t.Bare) {p : TokenKind → Prop}
    {ks : List TokenKind} (hks : Nested p ks) {opener closer : Nat}
    (h : (ofTokens ts).Spells (opener + 1) ks) (hstop : opener + 1 + ks.length = closer) (c : Nat) :
    (ofTokens ts).Meets closer (opener + 1) c ∧ (ofTokens ts).kind? c = some .comma ↔
      (ofTokens ts).SeparatesBetween opener closer c := by
  rw [h.meets_iff hts hks hstop]
  constructor
  · rintro ⟨⟨hlow, hhigh, hfree⟩, hcomma⟩
    refine ⟨hlow, hhigh, hcomma, ?_⟩
    rintro ⟨o, e, ho, hlow', hoc, hce, -⟩
    exact hfree ⟨o, e, ho, hlow', hoc, Nat.le_of_lt hce⟩
  · rintro ⟨hlow, hhigh, hcomma, hfree⟩
    refine ⟨⟨hlow, hhigh, ?_⟩, hcomma⟩
    rintro ⟨o, e, ho, hlow', hoc, hce⟩
    obtain ⟨b, hb⟩ := opener_of_partner? hts ho (by omega)
    obtain ⟨e', he', -, hlt⟩ := h.exists_partner hts hks hlow' (by omega) hb
    obtain rfl := Option.some.inj (he'.symm.trans ho)
    refine hfree ⟨o, e', ho, hlow', hoc, Nat.lt_of_le_of_ne hce ?_, by omega⟩
    rintro rfl
    have hclose := (lt_of_partner? hts hb ho).2
    have hbracket := b.isBracket_closer
    rw [Option.some.inj (hclose.symm.trans hcomma)] at hbracket
    cases hbracket

/-- How the list between two parentheses is read. -/
structure ReadInItems (l : Listing) (opener closer : Nat) : Prop where
  /-- the walk moves forward with each step -/
  forward : ∀ i k, l.Meets closer (opener + 1) i → l.following? i = some k → i < k
  /-- there are no items iff the walk meets a bracket that is never closed -/
  unread : l.items? opener = none ↔ ∃ i, l.Meets closer (opener + 1) i ∧
    (l.kind? i).any TokenKind.opensGroup = true ∧ l.partner? i = none
  /-- the items tile the list, a blank last one apart -/
  tiled : ∀ items, l.items? opener = some items → ∃ found, LeaveBlankOut found items ∧
    l.Tiles closer (opener + 1) found ∧
    (∀ c, c ∈ separators found ↔ l.Meets closer (opener + 1) c ∧ l.kind? c = some .comma) ∧
    (Nested (fun _ => True) ((l.stretch (opener + 1) closer).map Token.kind) →
      ∀ c, c ∈ separators found ↔ l.SeparatesBetween opener closer c)
  /-- a well-nested list has items -/
  nested : Nested (fun _ => True) ((l.stretch (opener + 1) closer).map Token.kind) →
    l.items? opener ≠ none

/-- All items of a list, the last one included, are read by the walk. -/
theorem reading_allItems? {ts : List Token} (hts : ∀ t ∈ ts, t.Bare) {opener closer : Nat}
    (hopener : (ofTokens ts).kind? opener = some .openParen)
    (hcloser : (ofTokens ts).partner? opener = some closer) :
    (ofTokens ts).Reading closer (opener + 1) (opener + 1) ((ofTokens ts).allItems? opener) := by
  obtain ⟨hlt, hkind⟩ := lt_of_partner? hts (b := .round) hopener hcloser
  have hall : (ofTokens ts).allItems? opener =
      (ofTokens ts).itemsFrom? (closer - (opener + 1)) (opener + 1) (opener + 1) 0 := by
    rw [partner?] at hcloser
    rw [allItems?, hcloser]
  rw [hall]
  exact reading_itemsFrom? (fun i k => lt_of_following? hts) (Nat.le_of_lt (lt_size_of_kind? hkind))
    (opener + 1) hlt

/-- Every closed list in the listing of a text is read in items. The walk through it moves forward;
it fails exactly at a bracket that is never closed and stands in no other brackets, as far as the
walk can see; otherwise its items tile the list from one parenthesis to the other, and a blank last
item is left out. In a well-nested list the separating commas are those in no inner brackets. -/
theorem items?_readInItems (cs : List Char) (lexemes : List Lexeme) {opener closer : Nat}
    (hopener : (ofLexemes cs lexemes).kind? opener = some .openParen)
    (hcloser : (ofLexemes cs lexemes).partner? opener = some closer) :
    (ofLexemes cs lexemes).ReadInItems opener closer := by
  have hts : ∀ t ∈ (Source.ofChars cs).tokens lexemes, t.Bare := Source.tokens_bare _ _
  have hlt := lt_of_partner? hts (b := .round) hopener hcloser
  have hstop : closer ≤ (ofLexemes cs lexemes).size := Nat.le_of_lt (lt_size_of_kind? hlt.2)
  have hread := reading_allItems? hts hopener hcloser
  obtain ⟨hspells, hlength⟩ := spells_stretch (i := opener + 1) hstop
  have hunread : (ofLexemes cs lexemes).items? opener = none ↔
      ∃ i, (ofLexemes cs lexemes).Meets closer (opener + 1) i ∧
        (ofLexemes cs lexemes).following? i = none := by
    rw [items?_eq, Option.map_eq_none_iff]
    exact hread.eq_none_iff
  refine ⟨fun i k _ => lt_of_following? hts, ?_, ?_, ?_⟩
  · simpa only [following?_eq_none_iff] using hunread
  · intro items hitems
    rw [items?_eq] at hitems
    obtain ⟨found, hfound, rfl⟩ := Option.map_eq_some_iff.1 hitems
    obtain ⟨htiles, hseparators⟩ := hread.tiles hfound (Nat.le_refl _) hlt.1
    refine ⟨found, leaveBlankOut_dropBlankLast found, htiles, hseparators, fun hnested c => ?_⟩
    rw [hseparators]
    exact hspells.separates_iff hts hnested (by omega) c
  · intro hnested hnone
    obtain ⟨i, hi, hunclosed⟩ := hunread.1 hnone
    obtain ⟨hle, hlt, -⟩ := (hspells.meets_iff hts hnested (by omega) i).1 hi
    exact hspells.following?_ne_none hts hnested hle (by omega) hunclosed

/-- The call `f(a,[b,c],)` has a comma in inner brackets and one before a blank item. -/
theorem items?_readInItems_trailing :
    let cs := "<?php f(a,[b,c],)".toList
    let lexemes : List Lexeme := [⟨.openTag, 0, 5⟩, ⟨.whitespace, 5, 1⟩, ⟨.identifier, 6, 1⟩,
      ⟨.openParen, 7, 1⟩, ⟨.identifier, 8, 1⟩, ⟨.comma, 9, 1⟩, ⟨.openSquare, 10, 1⟩,
      ⟨.identifier, 11, 1⟩, ⟨.comma, 12, 1⟩, ⟨.identifier, 13, 1⟩, ⟨.closeSquare, 14, 1⟩,
      ⟨.comma, 15, 1⟩, ⟨.closeParen, 16, 1⟩]
    let l := ofLexemes cs lexemes
    Lexeme.ofChars cs = lexemes ∧ l.kind? 3 = some .openParen ∧ l.partner? 3 = some 12 ∧
      Nested (fun _ => True) ((l.stretch 4 12).map Token.kind) ∧ l.ReadInItems 3 12 ∧
      (l.items? 3).map (List.map Item.text) = some ["a", "[b,c]"] := by
  intro cs lexemes l
  have hkind : l.kind? 3 = some .openParen := by decide +kernel
  have hpartner : l.partner? 3 = some 12 := by decide +kernel
  have hnested : Nested (fun _ => True)
      [.name, .comma, .openSquare, .name, .comma, .name, .closeSquare, .comma] := by
    have hinner : Nested (fun _ => True) [.name, .comma, .name] :=
      .of_forall fun k hk => ⟨by revert k; decide, trivial⟩
    exact .plain rfl trivial (.plain rfl trivial
      (.group .square hinner (.plain rfl trivial .nil)))
  have hkinds : (l.stretch 4 12).map Token.kind =
      [.name, .comma, .openSquare, .name, .comma, .name, .closeSquare, .comma] := by
    decide +kernel
  exact ⟨by decide +kernel, hkind, hpartner, hkinds ▸ hnested,
    items?_readInItems cs lexemes hkind hpartner, by decide +kernel⟩

end Listing

end Vintage
