import Vintage.Proofs.Layout.Passes

/-!
# Kinds in a listing

Keywords that serve as names become names, from left to right. So the kind of a token in a listing
depends on the kinds that the two significant tokens before it have in the listing, and on the kind
that the significant token after it had at first.

Results:
* `Listing.previous?_eq_some_iff`: the nearest significant token before a position.
* `Listing.before_succ`: what stands before a position, step by step.
* `Listing.getElem?_settleNames`, `Listing.kind?_ofTokens`: the kind of a token, by what stands
  around it.
-/

namespace Vintage

namespace Listing

/-! ## What stands before a position -/

theorem lastBelow?_eq_some_iff {l : Listing} {p : Token → Bool} {n j : Nat} :
    l.lastBelow? p n = some j ↔
      j < n ∧ (l.get? j).any p = true ∧ ∀ k, j < k → k < n → (l.get? k).any p = false := by
  induction n with
  | zero => simp [lastBelow?]
  | succ n ih =>
    rw [lastBelow?]
    split
    · rename_i hn
      rw [Option.some.injEq]
      constructor
      · rintro rfl
        exact ⟨Nat.lt_succ_self n, hn, fun k _ _ => by omega⟩
      · rintro ⟨hj, -, hafter⟩
        by_contra hne
        rw [hafter n (by omega) (Nat.lt_succ_self n)] at hn
        cases hn
    · rename_i hn
      rw [ih]
      constructor
      · rintro ⟨hj, hp, hafter⟩
        refine ⟨by omega, hp, fun k hjk hk => ?_⟩
        rcases Nat.lt_succ_iff_lt_or_eq.1 hk with hk | rfl
        · exact hafter k hjk hk
        · simpa using hn
      · rintro ⟨hj, hp, hafter⟩
        have hne : j ≠ n := by
          rintro rfl
          exact hn hp
        exact ⟨by omega, hp, fun k hjk hk => hafter k hjk (by omega)⟩

variable {l : Listing}

theorem any_get?_of_size_le {i : Nat} (h : l.size ≤ i) (p : Token → Bool) :
    (l.get? i).any p = false := by
  rw [get?, Array.getElem?_eq_none h]
  rfl

theorem lastBefore?_eq_some_iff {p : Token → Bool} {i j : Nat} :
    l.lastBefore? p i = some j ↔ j < i ∧ (l.get? j).any p = true ∧
      ∀ k, j < k → k < i → (l.get? k).any p = false := by
  rw [lastBefore?, lastBelow?_eq_some_iff]
  constructor
  · rintro ⟨hj, hp, hafter⟩
    refine ⟨by omega, hp, fun k hjk hk => ?_⟩
    by_cases hsize : k < l.size
    · exact hafter k hjk (by omega)
    · exact any_get?_of_size_le (by omega) _
  · rintro ⟨hj, hp, hafter⟩
    have hsize : j < l.size := by
      by_contra hge
      rw [any_get?_of_size_le (by omega)] at hp
      cases hp
    exact ⟨by omega, hp, fun k hjk hk => hafter k hjk (by omega)⟩

/-- The nearest significant token before a position has only layout after it. -/
theorem previous?_eq_some_iff {i p : Nat} :
    l.previous? i = some p ↔ p < i ∧ (l.get? p).any Token.isSignificant = true ∧
      ∀ k, p < k → k < i → (l.get? k).any Token.isSignificant = false :=
  lastBefore?_eq_some_iff

/-- The kinds of the last two significant tokens before a position. -/
def before (l : Listing) (i : Nat) : Before where
  last := l.kindAt? (l.previous? i)
  lastButOne := l.kindAt? (l.previousOf? (l.previous? i))

theorem before_zero (l : Listing) : l.before 0 = {} := by
  rw [before, previous?, lastBefore?, Nat.zero_min]
  rfl

theorem previous?_succ {i : Nat} {kind : TokenKind} (h : l.kind? i = some kind) :
    l.previous? (i + 1) = if kind.isLayout then l.previous? i else some i := by
  obtain ⟨t, ht, rfl⟩ := Option.map_eq_some_iff.1 h
  have hi : i < l.size := (Array.getElem?_eq_some_iff.1 ht).1
  rw [previous?, previous?, lastBefore?, lastBefore?, Nat.min_eq_left hi, lastBelow?, ht,
    Nat.min_eq_left (Nat.le_of_lt hi), Option.any_some, Token.isSignificant]
  cases t.kind.isLayout <;> rfl

/-- A step over a token takes its kind into account unless it is layout. -/
theorem before_succ {i : Nat} {kind : TokenKind} (h : l.kind? i = some kind) :
    l.before (i + 1) = (l.before i).push kind := by
  rw [before, previous?_succ h, Before.push]
  cases kind.isLayout with
  | true => rfl
  | false => exact congrArg (Before.mk · _) h

/-! ## The kind of a token -/

section Settled

variable {ts : List Token} (hl : ∀ i, l.kind? i = (settleNames ts)[i]?.map Token.kind)
include hl

/-- From a position on, names are settled by what stands before it in a listing with the settled
kinds. -/
theorem drop_settleNames {i : Nat} (hi : i ≤ ts.length) :
    (settleNames ts).drop i = settleFrom (l.before i) (ts.drop i) := by
  induction i with
  | zero => rw [before_zero]; rfl
  | succ i ih =>
    -- the kind at `i` heads what is settled from `i` on, and is what `before` takes in next
    have hdrop := ih (by omega)
    rw [List.drop_eq_getElem_cons (show i < ts.length by omega), settleFrom_cons] at hdrop
    have hkind : l.kind? i = some (settledAt (l.before i) ts[i] (ts.drop (i + 1))) := by
      rw [hl, ← List.head?_drop, hdrop]
      rfl
    rw [before_succ hkind, ← List.tail_drop, hdrop]
    rfl

/-- Each token gets a kind by what stands before it in the listing and by what stood after it at
first. -/
theorem getElem?_settleNames (i : Nat) :
    (settleNames ts)[i]? = ts[i]?.map fun t =>
      { t with kind := settledAt (l.before i) t (ts.drop (i + 1)) } := by
  by_cases hi : i < ts.length
  · rw [← List.head?_drop, drop_settleNames hl (Nat.le_of_lt hi), List.drop_eq_getElem_cons hi,
      settleFrom_cons, List.getElem?_eq_getElem hi]
    rfl
  · rw [List.getElem?_eq_none (by rw [settleNames, length_settleFrom]; omega),
      List.getElem?_eq_none (by omega)]
    rfl

end Settled

variable {ts : List Token} (hts : ∀ t ∈ ts, t.scope = none)
include hts

/-- After the names are settled no kind changes any more. -/
theorem kind?_eq_settleNames (i : Nat) :
    (ofTokens ts).kind? i = (settleNames ts)[i]?.map Token.kind := by
  rw [kind?, get?_ofTokens hts, linked, ownParens_getElem?, linkBrackets_getElem?,
    List.getElem?_toArray, Option.map_map, Option.map_map, Option.map_map]
  rfl

/-- The kind of a token of a listing, by what stands before it in the listing and by what stood
after it at first. -/
theorem kind?_ofTokens (i : Nat) :
    (ofTokens ts).kind? i = ts[i]?.map fun t =>
      settledAt ((ofTokens ts).before i) t (ts.drop (i + 1)) := by
  rw [kind?_eq_settleNames hts, getElem?_settleNames (kind?_eq_settleNames hts), Option.map_map]
  rfl

/-- Layout stays layout, and everything else significant. -/
theorem any_isSignificant_ofTokens (i : Nat) :
    ((ofTokens ts).get? i).any Token.isSignificant = ts[i]?.any Token.isSignificant := by
  have hlayout (o : Option Token) :
      o.any Token.isSignificant = (o.map Token.kind).any fun kind => !kind.isLayout := by
    cases o <;> rfl
  have hkind := kind?_ofTokens hts i
  rw [kind?] at hkind
  rw [hlayout, hlayout, hkind]
  cases ts[i]? with
  | none => rfl
  | some t => exact congrArg (! ·) (isLayout_settledAt _ t _)

end Listing

end Vintage
