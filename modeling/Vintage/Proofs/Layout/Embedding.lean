import Mathlib.Order.Monotone.Basic
import Vintage.Listing

/-!
# Listings with and without layout

The tokens of one array stand in another one, in the same order, and all that stands between them
there is layout. What is read off the two arrays is then the same up to the numbers of the tokens.

Results:
* `Thins`: one array is the other one without some of its layout.
* `Embeds`: one array is the other one without all of its layout.
* `Thins.walkUp`, `Thins.walkDown`: the inductions for walks over both arrays side by side.
* `Thins.firstIn?`, `Thins.lastBefore?`: a search for a significant token finds the same token.
* `Thins.filter_window`: the significant tokens of a stretch are the same.
-/

namespace Vintage

/-! ## Renumbering -/

/-- The scope with its tokens renumbered. -/
def Scope.reindex (pos : Nat → Nat) (s : Scope) : Scope where
  owner := pos s.owner
  opener := pos s.opener
  closer := pos s.closer

/-- The token with the tokens it refers to renumbered. -/
def Token.reindex (pos : Nat → Nat) (t : Token) : Token :=
  { t with
    partner := t.partner.map pos
    parenOwner := t.parenOwner.map pos
    scope := t.scope.map (Scope.reindex pos)
    owners := t.owners.map pos }

theorem Token.isLayout_of_not_significant {t : Token} (h : t.isSignificant = false) :
    t.kind.isLayout = true := by
  simpa [Token.isSignificant] using h

/-- The test accepts significant tokens only and does not look at references. -/
structure Selects (p : Token → Bool) : Prop where
  reindex : ∀ pos t, p (t.reindex pos) = p t
  significant : ∀ t, p t = true → t.isSignificant = true

theorem Selects.false_of_layout {p : Token → Bool} (hp : Selects p) {t : Token}
    (ht : t.isSignificant = false) : p t = false := by
  cases h : p t with
  | false => rfl
  | true =>
    rw [hp.significant t h] at ht
    cases ht

theorem selects_isSignificant : Selects Token.isSignificant where
  reindex _ _ := rfl
  significant _ h := h

/-- A test of kinds that no layout has. -/
theorem selects_kind {q : TokenKind → Bool} (hq : ∀ k, q k = true → k.isLayout = false) :
    Selects fun t => q t.kind where
  reindex _ _ := rfl
  significant t h := by
    rw [Token.isSignificant, hq _ h]
    rfl

/-! ## Boundaries -/

/-- Of the positions that `pos` gives, those of the numbers below `a'` are the ones below `a`. -/
def Splits (pos : Nat → Nat) (a a' : Nat) : Prop := ∀ k, k < a' ↔ pos k < a

namespace Splits

variable {pos : Nat → Nat} {a b a' b' i i' : Nat}

theorem zero (pos : Nat → Nat) : Splits pos 0 0 := fun _ => by omega

theorem before (h : StrictMono pos) (k : Nat) : Splits pos (pos k) k := fun _ => h.lt_iff_lt.symm

theorem after (h : StrictMono pos) (k : Nat) : Splits pos (pos k + 1) (k + 1) := fun j => by
  rw [Nat.lt_succ_iff, Nat.lt_succ_iff, h.le_iff_le]

theorem unique (h : Splits pos a a') (h' : Splits pos a b') : a' = b' := by
  have h₁ := (h a').trans (h' a').symm
  have h₂ := (h b').trans (h' b').symm
  omega

theorem min (ha : Splits pos a a') (hb : Splits pos b b') :
    Splits pos (min a b) (min a' b') := fun k => by
  rw [Nat.lt_min, Nat.lt_min, ha k, hb k]

theorem max (ha : Splits pos a a') (hb : Splits pos b b') :
    Splits pos (max a b) (max a' b') := fun k => by
  have h₁ := ha k
  have h₂ := hb k
  omega

/-- A boundary that is the place of a token is the place of the first token after it. -/
theorem eq_of_image (h : StrictMono pos) (hi : Splits pos i i') {k : Nat} (hk : pos k = i) :
    k = i' := by
  subst hk
  exact (before h k).unique hi

/-- A boundary moves over a token, or over layout. -/
theorem step (h : StrictMono pos) (hi : Splits pos i i') :
    (i = pos i' ∧ Splits pos (i + 1) (i' + 1)) ∨ ((∀ k, pos k ≠ i) ∧ Splits pos (i + 1) i') := by
  by_cases himage : ∃ k, pos k = i
  · obtain ⟨k, hk⟩ := himage
    obtain rfl := hi.eq_of_image h hk
    subst hk
    exact Or.inl ⟨rfl, after h k⟩
  · have hne : ∀ k, pos k ≠ i := fun k hk => himage ⟨k, hk⟩
    refine Or.inr ⟨hne, fun k => ?_⟩
    have := hne k
    rw [hi k]
    omega

end Splits

/-! ## The relation -/

/-- The tokens of `ts'` stand in `ts` at the places that `pos` gives, and all other tokens of `ts`
are layout. -/
structure Thins (pos : Nat → Nat) (ts' ts : Array Token) : Prop where
  strictMono : StrictMono pos
  size : pos ts'.size = ts.size
  get? : ∀ k : Nat, ts[pos k]? = ts'[k]?.map (Token.reindex pos)
  layout : ∀ i : Nat, (∀ k, pos k ≠ i) → ∃ t : Token, ts[i]? = some t ∧ t.isSignificant = false

/-- The tokens of `ts'` are the significant tokens of `ts`; they stand there at the places that `pos`
gives. -/
structure Embeds (pos : Nat → Nat) (ts' ts : Array Token) : Prop extends Thins pos ts' ts where
  significant : ∀ (k : Nat) (t : Token), ts'[k]? = some t → t.isSignificant = true

namespace Thins

variable {pos : Nat → Nat} {ts' ts : Array Token}

theorem splits_size (h : Thins pos ts' ts) : Splits pos ts.size ts'.size := by
  rw [← h.size]
  exact Splits.before h.strictMono _

/-- The induction for a walk upwards over the `n` tokens from index `i` on, side by side with the
`n'` tokens from index `i'` on. -/
theorem walkUp (h : Thins pos ts' ts) {motive : (n i n' i' : Nat) → Prop}
    (stop : ∀ i i', Splits pos i i' → motive 0 i 0 i')
    (layout : ∀ (n i n' i' : Nat) (t : Token), ts[i]? = some t → t.isSignificant = false →
      Splits pos (i + 1) i' → motive n (i + 1) n' i' → motive (n + 1) i n' i')
    (token : ∀ n n' i', Splits pos (pos i' + (n + 1)) (i' + (n' + 1)) →
      motive n (pos i' + 1) n' (i' + 1) → motive (n + 1) (pos i') (n' + 1) i')
    {n i n' i' : Nat} (hi : Splits pos i i') (hn : Splits pos (i + n) (i' + n')) :
    motive n i n' i' := by
  induction n generalizing i n' i' with
  | zero =>
    have : i' = i' + n' := hi.unique hn
    obtain rfl : n' = 0 := by omega
    exact stop i i' hi
  | succ n ih =>
    rcases hi.step h.strictMono with ⟨rfl, hi⟩ | ⟨hne, hi⟩
    · -- the token at `i'` is one of those walked over
      have hlt : i' < i' + n' := (hn i').2 (by omega)
      obtain ⟨m, rfl⟩ : ∃ m, n' = m + 1 := ⟨n' - 1, by omega⟩
      refine token n m i' hn (ih hi ?_)
      rwa [show pos i' + 1 + n = pos i' + (n + 1) by omega,
        show i' + 1 + m = i' + (m + 1) by omega]
    · obtain ⟨t, ht, hlayout⟩ := h.layout i hne
      refine layout n i n' i' t ht hlayout hi (ih hi ?_)
      rwa [show i + 1 + n = i + (n + 1) by omega]

/-- The induction for a walk downwards from index `i`, side by side with one from index `i'`. -/
theorem walkDown (h : Thins pos ts' ts) {motive : (i i' : Nat) → Prop} (stop : motive 0 0)
    (layout : ∀ (i i' : Nat) (t : Token), ts[i]? = some t → t.isSignificant = false → motive i i' →
      motive (i + 1) i')
    (token : ∀ k, motive (pos k) k → motive (pos k + 1) (k + 1))
    {i i' : Nat} (hi : Splits pos i i') : motive i i' := by
  induction i generalizing i' with
  | zero =>
    obtain rfl : i' = 0 := hi.unique (Splits.zero pos)
    exact stop
  | succ i ih =>
    by_cases himage : ∃ k, pos k = i
    · obtain ⟨k, rfl⟩ := himage
      obtain rfl : i' = k + 1 := hi.unique (Splits.after h.strictMono k)
      exact token k (ih (Splits.before h.strictMono k))
    · have hne : ∀ k, pos k ≠ i := fun k hk => himage ⟨k, hk⟩
      obtain ⟨t, ht, hlayout⟩ := h.layout i hne
      refine layout i i' t ht hlayout (ih fun k => ?_)
      have := hne k
      rw [hi k]
      omega

/-- A test gives the same answer for a token and its copy. -/
theorem any_get? (h : Thins pos ts' ts) {p : Token → Bool} (hp : Selects p) (k : Nat) :
    ts[pos k]?.any p = ts'[k]?.any p := by
  rw [h.get?]
  cases ts'[k]? with
  | none => rfl
  | some t => exact hp.reindex pos t

theorem any_layout {p : Token → Bool} (hp : Selects p) {i : Nat} {t : Token}
    (ht : ts[i]? = some t) (hlayout : t.isSignificant = false) : ts[i]?.any p = false := by
  rw [ht]
  exact hp.false_of_layout hlayout

end Thins

/-! ## Searches -/

namespace Thins

variable {pos : Nat → Nat} {l' l : Listing} {p : Token → Bool}

theorem kind? (h : Thins pos l'.tokens l.tokens) (k : Nat) : l.kind? (pos k) = l'.kind? k := by
  rw [Listing.kind?, Listing.kind?, Listing.get?, Listing.get?, h.get?, Option.map_map]
  rfl

theorem kindAt? (h : Thins pos l'.tokens l.tokens) (o : Option Nat) :
    l.kindAt? (o.map pos) = l'.kindAt? o := by
  cases o with
  | none => rfl
  | some k => exact h.kind? k

theorem lastBelow? (h : Thins pos l'.tokens l.tokens) (hp : Selects p) {i i' : Nat}
    (hi : Splits pos i i') : l.lastBelow? p i = (l'.lastBelow? p i').map pos := by
  refine h.walkDown (motive := fun i i' => l.lastBelow? p i = (l'.lastBelow? p i').map pos)
    rfl ?_ ?_ hi
  · intro i i' t ht hlayout ih
    rw [Listing.lastBelow?, Listing.get?, any_layout hp ht hlayout]
    exact ih
  · intro k ih
    rw [Listing.lastBelow?, Listing.lastBelow?, Listing.get?, Listing.get?, h.any_get? hp]
    split
    · rfl
    · exact ih

theorem lastBefore? (h : Thins pos l'.tokens l.tokens) (hp : Selects p) {i i' : Nat}
    (hi : Splits pos i i') : l.lastBefore? p i = (l'.lastBefore? p i').map pos :=
  h.lastBelow? hp (hi.min h.splits_size)

theorem firstAmong? (h : Thins pos l'.tokens l.tokens) (hp : Selects p) {n i n' i' : Nat}
    (hi : Splits pos i i') (hn : Splits pos (i + n) (i' + n')) :
    l.firstAmong? p n i = (l'.firstAmong? p n' i').map pos := by
  refine h.walkUp
    (motive := fun n i n' i' => l.firstAmong? p n i = (l'.firstAmong? p n' i').map pos) ?_ ?_ ?_
    hi hn
  · intro i i' _
    rfl
  · intro n i n' i' t ht hlayout _ ih
    rw [Listing.firstAmong?, Listing.get?, any_layout hp ht hlayout]
    exact ih
  · intro n n' i' _ ih
    rw [Listing.firstAmong?, Listing.firstAmong?, Listing.get?, Listing.get?, h.any_get? hp]
    split
    · rfl
    · exact ih

theorem firstIn? (h : Thins pos l'.tokens l.tokens) (hp : Selects p) {a b a' b' : Nat}
    (ha : Splits pos a a') (hb : Splits pos b b') :
    l.firstIn? p a b = (l'.firstIn? p a' b').map pos := by
  have hstop := ha.max (hb.min h.splits_size)
  refine h.firstAmong? hp ha ?_
  rwa [show a + (min b l.size - a) = max a (min b l.tokens.size) by simp only [Listing.size]; omega,
    show a' + (min b' l'.size - a') = max a' (min b' l'.tokens.size) by
      simp only [Listing.size]; omega]

theorem firstFrom? (h : Thins pos l'.tokens l.tokens) (hp : Selects p) {a a' : Nat}
    (ha : Splits pos a a') : l.firstFrom? p a = (l'.firstFrom? p a').map pos :=
  h.firstIn? hp ha h.splits_size

theorem next? (h : Thins pos l'.tokens l.tokens) (k : Nat) :
    l.next? (pos k) = (l'.next? k).map pos :=
  h.firstFrom? selects_isSignificant (Splits.after h.strictMono k)

theorem previous? (h : Thins pos l'.tokens l.tokens) (k : Nat) :
    l.previous? (pos k) = (l'.previous? k).map pos :=
  h.lastBefore? selects_isSignificant (Splits.before h.strictMono k)

theorem previousOf? (h : Thins pos l'.tokens l.tokens) (o : Option Nat) :
    l.previousOf? (o.map pos) = (l'.previousOf? o).map pos := by
  cases o with
  | none => rfl
  | some k => exact h.previous? k

end Thins

/-! ## Stretches -/

/-- The `n` tokens from index `i` on. -/
def segment (ts : Array Token) (n i : Nat) : List Token := (ts.toList.drop i).take n

theorem segment_zero (ts : Array Token) (i : Nat) : segment ts 0 i = [] := List.take_zero

theorem segment_of_size_le {ts : Array Token} {i : Nat} (h : ts.size ≤ i) (n : Nat) :
    segment ts n i = [] := by
  rw [segment, List.drop_eq_nil_of_le h, List.take_nil]

theorem segment_of_none {ts : Array Token} {i : Nat} (h : ts[i]? = none) (n : Nat) :
    segment ts n i = [] :=
  segment_of_size_le (Array.getElem?_eq_none_iff.1 h) n

theorem segment_of_some {ts : Array Token} {i : Nat} {t : Token} (h : ts[i]? = some t) (n : Nat) :
    segment ts (n + 1) i = t :: segment ts n (i + 1) := by
  obtain ⟨hlt, rfl⟩ := Array.getElem?_eq_some_iff.1 h
  rw [segment, List.drop_eq_getElem_cons hlt]
  rfl

theorem segment_all (ts : Array Token) : segment ts ts.size 0 = ts.toList := by
  rw [segment, List.drop_zero, ← Array.length_toList, List.take_length]

namespace Listing

/-- The `n` tokens from index `i` on, with their positions. -/
def window (l : Listing) (n i : Nat) : List (Token × Nat) := (segment l.tokens n i).zipIdx i

theorem window_succ (l : Listing) (n i : Nat) :
    l.window (n + 1) i = ((l.get? i).map fun t => (t, i)).toList ++ l.window n (i + 1) := by
  unfold window get?
  cases ht : l.tokens[i]? with
  | none =>
    have hle := Array.getElem?_eq_none_iff.1 ht
    rw [segment_of_none ht, segment_of_size_le (by omega)]
    rfl
  | some t =>
    rw [segment_of_some ht]
    rfl

theorem stretchWithPositions_eq (l : Listing) (a b : Nat) :
    (l.stretch a b).zipIdx a = l.window (b - a) a := by
  unfold stretch window segment
  rw [Array.toList_extract, List.extract_eq_take_drop]

theorem stretch_eq (l : Listing) (a b : Nat) :
    l.stretch a b = (l.window (b - a) a).map Prod.fst := by
  rw [← stretchWithPositions_eq, List.zipIdx_map_fst]

theorem zipIdx_eq_window (l : Listing) : l.tokens.toList.zipIdx = l.window l.size 0 := by
  rw [window, size, segment_all]

end Listing

namespace Thins

variable {pos : Nat → Nat} {l' l : Listing}

/-- A token and its position, renumbered. -/
def move (pos : Nat → Nat) (e : Token × Nat) : Token × Nat := (e.1.reindex pos, pos e.2)

theorem window_walk (h : Thins pos l'.tokens l.tokens) {p : Token → Bool} (hp : Selects p)
    {n i n' i' : Nat} (hi : Splits pos i i') (hn : Splits pos (i + n) (i' + n')) :
    (l.window n i).filter (fun e => p e.1) =
      ((l'.window n' i').filter fun e => p e.1).map (move pos) := by
  refine h.walkUp (motive := fun n i n' i' => (l.window n i).filter (fun e => p e.1) =
    ((l'.window n' i').filter fun e => p e.1).map (move pos)) ?_ ?_ ?_ hi hn
  · intro i i' _
    rw [Listing.window, Listing.window, segment_zero, segment_zero]
    rfl
  · intro n i n' i' t ht hlayout _ ih
    rw [Listing.window_succ, Listing.get?, ht, Option.map_some, Option.toList_some,
      List.singleton_append, List.filter_cons_of_neg (by simp [hp.false_of_layout hlayout])]
    exact ih
  · intro n n' i' _ ih
    rw [Listing.window_succ, Listing.window_succ, Listing.get?, Listing.get?, h.get?,
      List.filter_append, List.filter_append, List.map_append, ih]
    congr 1
    cases l'.tokens[i']? with
    | none => rfl
    | some t => cases hsame : p t <;> simp [hp.reindex, hsame, move]

/-- What a test of significant tokens leaves of a stretch. -/
theorem filter_window (h : Thins pos l'.tokens l.tokens) {p : Token → Bool} (hp : Selects p)
    {a b a' b' : Nat} (ha : Splits pos a a') (hb : Splits pos b b') :
    (l.window (b - a) a).filter (fun e => p e.1) =
      ((l'.window (b' - a') a').filter fun e => p e.1).map (move pos) := by
  refine h.window_walk hp ha ?_
  rw [show a + (b - a) = max a b by omega, show a' + (b' - a') = max a' b' by omega]
  exact ha.max hb

theorem significantTextOf (h : Thins pos l'.tokens l.tokens) {a b a' b' : Nat}
    (ha : Splits pos a a') (hb : Splits pos b b') :
    l.significantTextOf a b = l'.significantTextOf a' b' := by
  have texts (l : Listing) (a b : Nat) :
      ((l.stretch a b).filter Token.isSignificant).map Token.text =
        ((l.window (b - a) a).filter fun e => e.1.isSignificant).map fun e => e.1.text := by
    rw [Listing.stretch_eq, List.filter_map, List.map_map]
    rfl
  rw [Listing.significantTextOf, Listing.significantTextOf, texts, texts,
    h.filter_window selects_isSignificant ha hb, List.map_map]
  rfl

theorem positionsOf (h : Thins pos l'.tokens l.tokens) {kinds : List TokenKind}
    (hkinds : ∀ k ∈ kinds, k.isLayout = false) :
    l.positionsOf kinds = (l'.positionsOf kinds).map pos := by
  have hp : Selects fun t => kinds.contains t.kind :=
    selects_kind fun k hk => hkinds k (List.contains_iff_mem.1 hk)
  have hwindow := h.filter_window hp (Splits.zero pos) h.splits_size
  rw [Nat.sub_zero, Nat.sub_zero] at hwindow
  unfold Listing.positionsOf
  rw [Listing.zipIdx_eq_window, Listing.zipIdx_eq_window, Listing.size, Listing.size]
  simp only [hwindow, List.map_map]
  rfl

end Thins

/-- The significant tokens between two boundaries are all the tokens there. -/
theorem Embeds.window {pos : Nat → Nat} {l' l : Listing} (h : Embeds pos l'.tokens l.tokens)
    {a b a' b' : Nat} (ha : Splits pos a a') (hb : Splits pos b b') :
    (l.window (b - a) a).filter (fun e => e.1.isSignificant) =
      (l'.window (b' - a') a').map (Thins.move pos) := by
  rw [h.filter_window selects_isSignificant ha hb, List.filter_eq_self.2]
  intro e he
  have hmem : e.1 ∈ l'.tokens.toList :=
    List.mem_of_mem_drop (List.mem_of_mem_take (List.fst_mem_of_mem_zipIdx he))
  obtain ⟨k, hk⟩ := List.getElem?_of_mem hmem
  rw [Array.getElem?_toList] at hk
  exact h.significant k e.1 hk

end Vintage
