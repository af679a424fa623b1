import Vintage.Proofs.Nesting
import Vintage.Proofs.SettledKinds

/-!
# Linked brackets

Tokens need not be well nested: brackets may cross, and any number of them may be left open or
never have been opened. The partners that are recorded make sense all the same. They are found with
one stack for each kind, and a closing bracket after an opening one either finds that one closed, or
closes it, or closes a bracket that was opened after it.

Results:
* `Bracket.closed_or_inner`: what a closing bracket does to an opening one before it.
* `Bracket.exists_pair_between`: all brackets of a kind between two partners are paired there.
* `significantBefore?_eq_some_iff`: the search for the owner of a parenthesis.
* `linked_wellLinked`: what the recorded partners and owners have in common, whatever the tokens.
-/

namespace Vintage

namespace Bracket

/-! ## The stack of one kind -/

/-- The token at the position opens brackets of the kind. -/
abbrev OpensAt (b : Bracket) (ts : List Token) (i : Nat) : Prop :=
  ts[i]?.map Token.kind = some b.opener

/-- The token at the position closes brackets of the kind. -/
abbrev ClosesAt (b : Bracket) (ts : List Token) (i : Nat) : Prop :=
  ts[i]?.map Token.kind = some b.closer

theorem not_opensAt_of_closesAt {b : Bracket} {ts : List Token} {i : Nat} (h : b.ClosesAt ts i) :
    ¬ b.OpensAt ts i := by
  intro ho
  exact b.opener_ne_closer b (Option.some.inj (ho.symm.trans h))

/-- The invariant is that the stack descends and stays below `i`: the bracket on top was opened
after all others that are open. -/
theorem closed_or_inner_of_opened (b : Bracket) {all ts : List Token} {i : Nat} {opened : List Nat}
    (hts : all.drop i = ts) (hopened : opened.Pairwise (· > ·)) (hi : ∀ o ∈ opened, o < i)
    {o c : Nat} (ho : o ∈ opened ∨ i ≤ o ∧ b.OpensAt all o) (hic : i ≤ c) (hc : b.ClosesAt all c)
    (hoc : o < c) :
    (∃ c' ≤ c, (o, c') ∈ b.pairsFrom i opened ts) ∨
      ∃ m, o < m ∧ (m, c) ∈ b.pairsFrom i opened ts := by
  induction ts generalizing i opened with
  | nil =>
    have hlength := List.drop_eq_nil_iff.1 hts
    rw [ClosesAt, List.getElem?_eq_none (by omega)] at hc
    cases hc
  | cons t ts ih =>
    obtain ⟨ht, hts'⟩ := drop_succ_of_drop hts
    have hkind : all[i]?.map Token.kind = some t.kind := by rw [ht, Option.map_some]
    have hi' : ∀ o ∈ opened, o < i + 1 := fun o ho => Nat.lt_succ_of_lt (hi o ho)
    by_cases hopen : t.kind = b.opener
    · have hne : c ≠ i := by
        rintro rfl
        exact not_opensAt_of_closesAt hc (hkind.trans (congrArg some hopen))
      rw [Nests.pairsFrom_open hopen]
      refine ih hts' (List.pairwise_cons.2 ⟨hi, hopened⟩) ?_ ?_ (by omega)
      · exact List.forall_mem_cons.2 ⟨Nat.lt_succ_self i, hi'⟩
      · by_cases hoi : o = i
        · exact Or.inl (List.mem_cons.2 (Or.inl hoi))
        · exact ho.imp (List.mem_cons_of_mem i) fun h => ⟨by omega, h.2⟩
    · -- a bracket that opens later opens after this token
      have hlater : i ≤ o ∧ b.OpensAt all o → i + 1 ≤ o ∧ b.OpensAt all o := by
        rintro ⟨hio, ho⟩
        refine ⟨Nat.lt_of_le_of_ne hio ?_, ho⟩
        rintro rfl
        exact hopen (Option.some.inj (hkind.symm.trans ho))
      by_cases hclose : t.kind = b.closer
      · cases opened with
        | nil =>
          have ho' := hlater (ho.resolve_left List.not_mem_nil)
          rw [Nests.pairsFrom_close_nil hclose]
          exact ih hts' List.Pairwise.nil (by simp) (Or.inr ho') (by omega)
        | cons top opened =>
          obtain ⟨hbelow, hrest⟩ := List.pairwise_cons.1 hopened
          obtain ⟨-, hi''⟩ := List.forall_mem_cons.1 hi'
          rw [Nests.pairsFrom_close hclose]
          by_cases htop : o = top
          · exact Or.inl ⟨i, hic, List.mem_cons.2 (Or.inl (by rw [htop]))⟩
          have ho' : o ∈ opened ∨ i + 1 ≤ o ∧ b.OpensAt all o :=
            ho.imp (fun h => (List.mem_cons.1 h).resolve_left htop) hlater
          by_cases hci : c = i
          · -- the token closes the bracket on top, which was opened after `o`
            have hmem : o ∈ opened := ho'.resolve_right fun h => by omega
            exact Or.inr ⟨top, hbelow o hmem, List.mem_cons.2 (Or.inl (by rw [hci]))⟩
          · rcases ih hts' hrest hi'' ho' (by omega) with ⟨c', hc', hp⟩ | ⟨m, hm, hp⟩
            · exact Or.inl ⟨c', hc', List.mem_cons_of_mem _ hp⟩
            · exact Or.inr ⟨m, hm, List.mem_cons_of_mem _ hp⟩
      · have hne : c ≠ i := by
          rintro rfl
          exact hclose (Option.some.inj (hkind.symm.trans hc))
        rw [Nests.pairsFrom_skip hopen hclose]
        exact ih hts' hopened hi' (ho.imp_right hlater) (by omega)

/-- A closing bracket after an opening one: the opening one is closed by then, or the closing one
ends a bracket that was opened later. -/
theorem closed_or_inner (b : Bracket) {ts : List Token} {o c : Nat} (ho : b.OpensAt ts o)
    (hc : b.ClosesAt ts c) (hoc : o < c) :
    (∃ c' ≤ c, (o, c') ∈ b.pairs ts) ∨ ∃ m, o < m ∧ (m, c) ∈ b.pairs ts :=
  b.closed_or_inner_of_opened rfl List.Pairwise.nil (by simp) (Or.inr ⟨Nat.zero_le o, ho⟩)
    (Nat.zero_le c) hc hoc

/-- Two different pairs of one kind share no position. -/
theorem eq_of_mem_pairs (b : Bracket) {ts : List Token} {p q : Nat × Nat} (hp : p ∈ b.pairs ts)
    (hq : q ∈ b.pairs ts) (h : ¬ Separate p q) : p = q :=
  Classical.byContradiction fun hne => h ((b.pairs_separate ts).forall hp hq hne)

/-- Every bracket of a kind between two partners is in a pair. -/
theorem exists_pair_of_between (b : Bracket) {ts : List Token} {o c k : Nat}
    (hp : (o, c) ∈ b.pairs ts) (hok : o < k) (hkc : k < c)
    (hk : b.OpensAt ts k ∨ b.ClosesAt ts k) : ∃ q ∈ b.pairs ts, q.1 = k ∨ q.2 = k := by
  obtain ⟨-, ho, hc⟩ := b.kind_of_mem_pairs hp
  rcases hk with hk | hk
  · rcases b.closed_or_inner hk hc hkc with ⟨c', -, hq⟩ | ⟨m, hm, hq⟩
    · exact ⟨_, hq, Or.inl rfl⟩
    · -- the closing bracket would end two brackets
      obtain ⟨rfl, -⟩ := Prod.mk.inj (b.eq_of_mem_pairs hq hp fun h => h.2.2.2 rfl)
      omega
  · rcases b.closed_or_inner ho hk hok with ⟨c', hc', hq⟩ | ⟨m, -, hq⟩
    · obtain ⟨-, rfl⟩ := Prod.mk.inj (b.eq_of_mem_pairs hq hp fun h => h.1 rfl)
      omega
    · exact ⟨_, hq, Or.inr rfl⟩

/-- Every bracket of a kind between two partners has its own partner between them. -/
theorem exists_pair_between (b : Bracket) {ts : List Token} {o c k : Nat}
    (hp : (o, c) ∈ b.pairs ts) (hok : o < k) (hkc : k < c)
    (hk : b.OpensAt ts k ∨ b.ClosesAt ts k) :
    ∃ m, o < m ∧ m < c ∧ ((k, m) ∈ b.pairs ts ∨ (m, k) ∈ b.pairs ts) := by
  obtain ⟨⟨x, y⟩, hq, hxy⟩ := b.exists_pair_of_between hp hok hkc hk
  obtain ⟨hlt, -, -⟩ := b.kind_of_mem_pairs hq
  have hne : (x, y) ≠ (o, c) := by
    rintro ⟨⟩
    rcases hxy with rfl | rfl <;> simp at hok hkc
  have hapart := (b.pairs_apart ts).forall hq hp hne
  unfold Apart at hapart
  simp only at hapart hxy hlt
  rcases hxy with rfl | rfl
  · exact ⟨y, by omega, by omega, Or.inl hq⟩
  · exact ⟨x, by omega, by omega, Or.inr hq⟩

end Bracket

/-! ## Owners of parentheses -/

theorem significantBefore?_eq_lastBelow? (ts : Array Token) (i : Nat) :
    significantBefore? ts i = (Listing.mk ts).lastBelow? Token.isSignificant i := by
  induction i with
  | zero => rfl
  | succ i ih =>
    rw [significantBefore?, Listing.lastBelow?, ih]
    rfl

/-- Position `p` holds the last significant token before position `i`. -/
structure IsPrevious (ts : List Token) (p i : Nat) : Prop where
  lt : p < i
  significant : ts[p]?.any Token.isSignificant = true
  layout : ∀ k, p < k → k < i → ts[k]?.any Token.isSignificant = false

theorem significantBefore?_eq_some_iff {ts : Array Token} {i p : Nat} :
    significantBefore? ts i = some p ↔ IsPrevious ts.toList p i := by
  rw [significantBefore?_eq_lastBelow?, Listing.lastBelow?_eq_some_iff]
  simp only [Listing.get?, ← Array.getElem?_toList]
  constructor
  · rintro ⟨hlt, hsignificant, hlayout⟩
    exact ⟨hlt, hsignificant, hlayout⟩
  · intro h
    exact ⟨h.lt, h.significant, h.layout⟩

/-- The owner of a parenthesis is the last significant token before it, if that may own one. -/
theorem parenOwnerAt?_eq_some_iff {ts : Array Token} {i p : Nat} :
    parenOwnerAt? ts i = some p ↔
      IsPrevious ts.toList p i ∧ ts.toList[p]?.any (fun t => ownsParens t.kind) = true := by
  rw [← significantBefore?_eq_some_iff, Array.getElem?_toList, parenOwnerAt?]
  cases significantBefore? ts i with
  | none => simp
  | some q =>
    simp only [Option.ite_none_right_eq_some, Option.some.injEq]
    constructor
    · rintro ⟨howns, rfl⟩
      exact ⟨rfl, howns⟩
    · rintro ⟨rfl, howns⟩
      exact ⟨howns, rfl⟩

/-- Recording partners does not change what depends on the kinds of tokens alone. -/
theorem any_linkBrackets (ts : List Token) (f : TokenKind → Bool) (k : Nat) :
    (linkBrackets ts.toArray).toList[k]?.any (fun t => f t.kind) =
      ts[k]?.any fun t => f t.kind := by
  rw [Array.getElem?_toList, linkBrackets_getElem?, Option.any_map, List.getElem?_toArray]

theorem isPrevious_linkBrackets {ts : List Token} {p i : Nat} :
    IsPrevious (linkBrackets ts.toArray).toList p i ↔ IsPrevious ts p i := by
  have hany (k : Nat) : (linkBrackets ts.toArray).toList[k]?.any Token.isSignificant =
      ts[k]?.any Token.isSignificant := any_linkBrackets ts (fun kind => !kind.isLayout) k
  constructor
  · intro h
    exact ⟨h.lt, hany p ▸ h.significant, fun k hp hi => hany k ▸ h.layout k hp hi⟩
  · intro h
    exact ⟨h.lt, hany p ▸ h.significant, fun k hp hi => (hany k).trans (h.layout k hp hi)⟩

/-! ## What is recorded -/

/-- A bracket of the kind opens at position `o`, and one closes at the later position `c`. -/
structure Bracket.Spans (b : Bracket) (ts : List Token) (o c : Nat) : Prop where
  lt : o < c
  opens : b.OpensAt ts o
  closes : b.ClosesAt ts c

/-- The partners and owners in `marked` fit the brackets of the tokens `ts`. -/
structure WellLinked (ts : List Token) (marked : Array Token) : Prop where
  /-- the tokens have the kinds that they had -/
  kinds : marked.toList.map Token.kind = ts.map Token.kind
  symmetric : ∀ i j, partnerOf marked i = some j ↔ partnerOf marked j = some i
  /-- one of two partners opens brackets of a kind, and the other, later one closes them -/
  paired : ∀ i j, partnerOf marked i = some j → ∃ b : Bracket, b.Spans ts i j ∨ b.Spans ts j i
  /-- a bracket between two partners of its kind has its own partner between them -/
  between : ∀ (b : Bracket) (o c k : Nat), b.Spans ts o c → partnerOf marked o = some c →
    o < k → k < c → b.OpensAt ts k ∨ b.ClosesAt ts k →
    ∃ m, partnerOf marked k = some m ∧ o < m ∧ m < c
  /-- no bracket is left open before one of its kind that was never opened -/
  leftover : ∀ (b : Bracket) (o c : Nat), b.Spans ts o c → partnerOf marked o = none →
    partnerOf marked c ≠ none
  /-- two parentheses have the same owner: the last significant token before the opening one, if
  that may own parentheses, and none if not -/
  owner : ∀ o c, Bracket.round.OpensAt ts o → partnerOf marked o = some c →
    ownerOf marked c = ownerOf marked o ∧
      ∀ p, ownerOf marked o = some p ↔
        IsPrevious ts p o ∧ ts[p]?.any (fun t => ownsParens t.kind) = true

theorem Bracket.spans_of_mem_pairs {b : Bracket} {ts : List Token} {o c : Nat}
    (h : (o, c) ∈ b.pairs ts) : b.Spans ts o c :=
  ⟨(b.kind_of_mem_pairs h).1, (b.kind_of_mem_pairs h).2.1, (b.kind_of_mem_pairs h).2.2⟩

theorem getElem?_linked (ts : List Token) (i : Nat) :
    (linked ts)[i]? = (linkBrackets ts.toArray)[i]?.map fun t =>
      { t with parenOwner := parenOwnerOf? (linkBrackets ts.toArray) i t } :=
  ownParens_getElem? _ i

theorem kind_linked (ts : List Token) (i : Nat) :
    (linked ts)[i]?.map Token.kind = ts[i]?.map Token.kind := by
  rw [getElem?_linked, linkBrackets_getElem?, Option.map_map, Option.map_map, List.getElem?_toArray]
  rfl

section Partners

variable {ts : List Token} (hts : ∀ t ∈ ts, t.partner = none)
include hts

theorem partnerOf_linked {i j : Nat} :
    partnerOf (linked ts) i = some j ↔
      ∃ b : Bracket, (i, j) ∈ b.pairs ts ∨ (j, i) ∈ b.pairs ts := by
  rw [← partnerOf_linkBrackets hts, partnerOf, getElem?_linked, partnerOf]
  cases (linkBrackets ts.toArray)[i]? <;> rfl

theorem partnerOf_linked_comm {i j : Nat} :
    partnerOf (linked ts) i = some j ↔ partnerOf (linked ts) j = some i := by
  simp only [partnerOf_linked hts, or_comm]

/-- Partners of which one opens brackets of a kind are a pair of the kind. -/
theorem mem_pairs_of_partnerOf {b : Bracket} {o c : Nat} (ho : b.OpensAt ts o)
    (h : partnerOf (linked ts) o = some c) : (o, c) ∈ b.pairs ts := by
  obtain ⟨b', hpair | hpair⟩ := (partnerOf_linked hts).1 h
  · have hkind := (Bracket.spans_of_mem_pairs hpair).opens
    rwa [Bracket.opener_inj (Option.some.inj (ho.symm.trans hkind))]
  · have hkind := (Bracket.spans_of_mem_pairs hpair).closes
    exact absurd (Option.some.inj (ho.symm.trans hkind)) (b.opener_ne_closer b')

end Partners

theorem parenOwnerOf?_open {ts : Array Token} {k : Nat} {t : Token} (h : t.kind = .openParen) :
    parenOwnerOf? ts k t = parenOwnerAt? ts k := by
  simp only [parenOwnerOf?, h]

theorem parenOwnerOf?_close {ts : Array Token} {k o : Nat} {t : Token} (h : t.kind = .closeParen)
    (ho : t.partner = some o) : parenOwnerOf? ts k t = parenOwnerAt? ts o := by
  simp only [parenOwnerOf?, h, ho]

theorem ownerOf_open {ts : List Token} {o : Nat} (ho : Bracket.round.OpensAt ts o) :
    ownerOf (linked ts) o = parenOwnerAt? (linkBrackets ts.toArray) o := by
  rw [Bracket.OpensAt, ← kind_linked, getElem?_linked, Option.map_map] at ho
  obtain ⟨t, ht, hkind⟩ := Option.map_eq_some_iff.1 ho
  rw [ownerOf, getElem?_linked, ht, Option.map_some, Option.bind_some]
  exact parenOwnerOf?_open (t := t) hkind

theorem ownerOf_close {ts : List Token} {o c : Nat} (hc : Bracket.round.ClosesAt ts c)
    (h : partnerOf (linked ts) c = some o) :
    ownerOf (linked ts) c = parenOwnerAt? (linkBrackets ts.toArray) o := by
  rw [Bracket.ClosesAt, ← kind_linked, getElem?_linked, Option.map_map] at hc
  obtain ⟨t, ht, hkind⟩ := Option.map_eq_some_iff.1 hc
  rw [partnerOf, getElem?_linked, ht, Option.map_some, Option.bind_some] at h
  rw [ownerOf, getElem?_linked, ht, Option.map_some, Option.bind_some]
  exact parenOwnerOf?_close (t := t) hkind h

/-- The owner at an opening parenthesis. -/
theorem ownerOf_open_eq_some_iff {ts : List Token} {o p : Nat} (ho : Bracket.round.OpensAt ts o) :
    ownerOf (linked ts) o = some p ↔
      IsPrevious ts p o ∧ ts[p]?.any (fun t => ownsParens t.kind) = true := by
  rw [ownerOf_open ho, parenOwnerAt?_eq_some_iff, isPrevious_linkBrackets,
    any_linkBrackets ts ownsParens]

/-- The partners and owners that are recorded in tokens without any, whatever brackets there are:
partners are an opening bracket and a later closing one of its kind, between them every bracket of
the kind has its partner between them too, no bracket is left open before one of its kind that was
never opened, and two parentheses have the same owner, which is the last significant token before
them. -/
theorem linked_wellLinked {ts : List Token} (hts : ∀ t ∈ ts, t.partner = none) :
    WellLinked ts (linked ts) where
  kinds := by
    apply List.ext_getElem?
    intro i
    rw [List.getElem?_map, List.getElem?_map, Array.getElem?_toList, kind_linked]
  symmetric i j := partnerOf_linked_comm hts
  paired i j h := by
    obtain ⟨b, hpair⟩ := (partnerOf_linked hts).1 h
    exact ⟨b, hpair.imp Bracket.spans_of_mem_pairs Bracket.spans_of_mem_pairs⟩
  between b o c k hspan h hok hkc hk := by
    have hpair := mem_pairs_of_partnerOf hts hspan.opens h
    obtain ⟨m, hom, hmc, hm⟩ := b.exists_pair_between hpair hok hkc hk
    exact ⟨m, (partnerOf_linked hts).2 ⟨b, hm⟩, hom, hmc⟩
  leftover b o c hspan hnone := by
    rcases b.closed_or_inner hspan.opens hspan.closes hspan.lt with ⟨c', -, hpair⟩ | ⟨m, -, hpair⟩
    · rw [(partnerOf_linked hts).2 ⟨b, Or.inl hpair⟩] at hnone
      cases hnone
    · rw [(partnerOf_linked hts).2 ⟨b, Or.inr hpair⟩]
      exact Option.some_ne_none m
  owner o c ho h := by
    have hspan := Bracket.spans_of_mem_pairs (mem_pairs_of_partnerOf hts ho h)
    refine ⟨?_, fun p => ownerOf_open_eq_some_iff ho⟩
    rw [ownerOf_close hspan.closes ((partnerOf_linked_comm hts).1 h), ownerOf_open ho]

/-- In `f ([)](` and a stray closing brace the brackets cross, and the last parenthesis is left
open. -/
theorem linked_wellLinked_crossing :
    let token (kind : TokenKind) (text : String) : Token := { kind, text, line := 1, column := 1 }
    let ts := [token .name "f", token .whitespace " ", token .openParen "(",
      token .openSquare "[", token .closeParen ")", token .closeSquare "]", token .openParen "(",
      token .closeBrace "\x7d"]
    (∀ t ∈ ts, t.partner = none) ∧ WellLinked ts (linked ts) ∧
      partnerOf (linked ts) 2 = some 4 ∧ partnerOf (linked ts) 5 = some 3 ∧
      partnerOf (linked ts) 6 = none ∧ ownerOf (linked ts) 4 = some 0 := by
  intro token ts
  have hts : ∀ t ∈ ts, t.partner = none := by decide
  have hlinked := linked_wellLinked hts
  have hround : partnerOf (linked ts) 2 = some 4 := by decide
  obtain ⟨hsame, howner⟩ := hlinked.owner 2 4 rfl hround
  have hprevious : IsPrevious ts 0 2 := by
    refine ⟨by decide, by decide, fun k hk hk' => ?_⟩
    obtain rfl : k = 1 := by omega
    decide
  refine ⟨hts, hlinked, hround, (hlinked.symmetric 3 5).1 (by decide), by decide, ?_⟩
  rw [hsame, howner]
  exact ⟨hprevious, by decide⟩

end Vintage
