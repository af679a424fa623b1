import Mathlib.Data.Nat.Nth
import Vintage.Proofs.Layout.Renumbering
import Vintage.Proofs.LexemeTexts

/-!
# Leaving tokens out of a listing

Tokens refer to each other by position. When tokens are left out of a listing, each one that is kept
moves to the number of tokens that are kept before it, and so do the references to it. No token
refers to layout, so layout can be left out piece by piece, and what is left is still the listing of
a text without some of its layout.

Results:
* `Listing.without`: a listing without some of its tokens.
* `Listing.thins_without`: leaving out layout leaves out layout, and nothing else changes.
* `Thins.window_kept`: what is kept of a stretch of tokens.
* `Listing.blank_of_whitespace`, `Listing.not_blank_of_comment`: layout in texts.
-/

namespace Vintage

/-- The kind of a comment. -/
def TokenKind.isComment : TokenKind → Bool
  | .comment | .docComment => true
  | _ => false

/-- Layout is white space or a comment. -/
theorem TokenKind.isLayout_iff {kind : TokenKind} :
    kind.isLayout = true ↔ kind = .whitespace ∨ kind.isComment = true := by
  cases kind <;> decide

/-- The number of positions before `i` that are not dropped. -/
def rank (drop : Nat → Bool) (i : Nat) : Nat := Nat.count (fun j => drop j = false) i

namespace Listing

/-- The listing without the tokens at the dropped positions; the others are renumbered. -/
def without (l : Listing) (drop : Nat → Bool) : Listing where
  tokens := ((l.tokens.toList.zipIdx.filter fun e => !drop e.2).map fun e =>
    e.1.reindex (rank drop)).toArray

end Listing

theorem Token.reindex_reindex (t : Token) (f g : Nat → Nat) :
    (t.reindex f).reindex g = t.reindex (g ∘ f) := by
  simp only [Token.reindex, Option.map_map, List.map_map]
  rfl

theorem Token.reindex_id (t : Token) : t.reindex id = t := by
  have hscope : Scope.reindex id = id := rfl
  simp only [Token.reindex, hscope, Option.map_id, List.map_id, id]

/-! ## Positions that are kept -/

section Kept

variable {α : Type} (drop : Nat → Bool)

theorem rank_zero : rank drop 0 = 0 := Nat.count_zero _

theorem rank_succ (i : Nat) : rank drop (i + 1) = rank drop i + if drop i = false then 1 else 0 :=
  Nat.count_succ _ i

/-- What is kept of a list, and where it goes. -/
theorem getElem?_filter_zipIdx (xs : List α) (n i : Nat) (hi : drop (n + i) = false) :
    ((xs.zipIdx n).filter fun e => !drop e.2)[rank drop (n + i) - rank drop n]? =
      xs[i]?.map fun x => (x, n + i) := by
  induction xs generalizing n i with
  | nil => rfl
  | cons x xs ih =>
    rw [List.zipIdx_cons]
    cases i with
    | zero =>
      have hzero : rank drop (n + 0) - rank drop n = 0 := Nat.sub_self _
      rw [List.filter_cons_of_pos (by simpa using hi), hzero]
      rfl
    | succ i =>
      have hmono : rank drop (n + 1) ≤ rank drop (n + 1 + i) :=
        Nat.count_monotone _ (Nat.le_add_right _ i)
      have hrest := ih (n + 1) i (by rwa [show n + 1 + i = n + (i + 1) by omega])
      rw [show n + (i + 1) = n + 1 + i by omega]
      rw [rank_succ] at hrest hmono
      by_cases hn : drop n = false
      · rw [if_pos hn] at hrest hmono
        rw [List.filter_cons_of_pos (by simp [hn]),
          show rank drop (n + 1 + i) - rank drop n =
            rank drop (n + 1 + i) - (rank drop n + 1) + 1 by omega,
          List.getElem?_cons_succ, hrest, List.getElem?_cons_succ]
      · rw [if_neg hn] at hrest
        rw [List.filter_cons_of_neg (by simpa using hn), List.getElem?_cons_succ]
        exact hrest

theorem length_filter_zipIdx (xs : List α) (n : Nat) :
    ((xs.zipIdx n).filter fun e => !drop e.2).length = rank drop (n + xs.length) - rank drop n := by
  induction xs generalizing n with
  | nil => exact (Nat.sub_self _).symm
  | cons x xs ih =>
    have hmono : rank drop (n + 1) ≤ rank drop (n + 1 + xs.length) :=
      Nat.count_monotone _ (Nat.le_add_right _ _)
    have hrest := ih (n + 1)
    rw [List.zipIdx_cons, List.length_cons, show n + (xs.length + 1) = n + 1 + xs.length by omega]
    rw [rank_succ] at hrest hmono
    by_cases hn : drop n = false
    · rw [if_pos hn] at hrest hmono
      rw [List.filter_cons_of_pos (by simp [hn]), List.length_cons, hrest]
      omega
    · rw [if_neg hn] at hrest
      rw [List.filter_cons_of_neg (by simpa using hn)]
      exact hrest

end Kept

namespace Listing

variable {drop : Nat → Bool}

theorem get?_without (l : Listing) {i : Nat} (hi : drop i = false) :
    (l.without drop).get? (rank drop i) = (l.get? i).map (Token.reindex (rank drop)) := by
  have hget := getElem?_filter_zipIdx drop l.tokens.toList 0 i
  rw [Nat.zero_add, rank_zero, Nat.sub_zero] at hget
  rw [get?, without, List.getElem?_toArray, List.getElem?_map, hget hi, Option.map_map,
    Array.getElem?_toList]
  rfl

theorem size_without (l : Listing) : (l.without drop).tokens.size = rank drop l.tokens.size := by
  have hlength := length_filter_zipIdx drop l.tokens.toList 0
  rw [Nat.zero_add, rank_zero, Nat.sub_zero] at hlength
  rw [without, List.size_toArray, List.length_map, hlength, Array.length_toList]

/-! ## Leaving out layout -/

/-- All tokens at the dropped positions are layout. -/
def DropsLayout (l : Listing) (drop : Nat → Bool) : Prop :=
  ∀ i, drop i = true → ∃ t, l.get? i = some t ∧ t.isSignificant = false

/-- The position of the token that goes to position `k` when tokens are dropped. -/
noncomputable def keptAt (drop : Nat → Bool) : Nat → Nat := Nat.nth fun i => drop i = false

section Kept

variable {l : Listing} (hdrop : l.DropsLayout drop)
include hdrop

theorem DropsLayout.keep_of_size_le {i : Nat} (hi : l.tokens.size ≤ i) : drop i = false := by
  by_contra h
  obtain ⟨t, ht, -⟩ := hdrop i (by simpa using h)
  rw [get?, Array.getElem?_eq_none hi] at ht
  cases ht

theorem DropsLayout.keep_of_significant {i : Nat} (h : (l.get? i).any Token.isSignificant = true) :
    drop i = false := by
  by_contra hi
  obtain ⟨t, ht, hlayout⟩ := hdrop i (by simpa using hi)
  rw [ht, Option.any_some, hlayout] at h
  cases h

theorem DropsLayout.infinite : (Set.ofPred fun i => drop i = false).Infinite := by
  refine Set.infinite_of_forall_exists_gt fun i => ⟨max l.tokens.size (i + 1), ?_, ?_⟩
  · exact hdrop.keep_of_size_le (Nat.le_max_left _ _)
  · exact Nat.le_max_right l.tokens.size (i + 1)

theorem DropsLayout.keep_keptAt (k : Nat) : drop (keptAt drop k) = false :=
  Nat.nth_mem_of_infinite hdrop.infinite k

theorem DropsLayout.rank_keptAt (k : Nat) : rank drop (keptAt drop k) = k :=
  Nat.count_nth_of_infinite hdrop.infinite k

end Kept

theorem keptAt_rank {i : Nat} (hi : drop i = false) : keptAt drop (rank drop i) = i :=
  Nat.nth_count hi

theorem DropsLayout.keep_iff {l : Listing} (hdrop : l.DropsLayout drop) (i : Nat) :
    drop i = false ↔ ∃ k, keptAt drop k = i := by
  constructor
  · exact fun hi => ⟨_, keptAt_rank hi⟩
  · rintro ⟨k, rfl⟩
    exact hdrop.keep_keptAt k

/-- Leaving out layout leaves out layout, and nothing else changes. -/
theorem thins_without {ts : List Token} (hts : ∀ t ∈ ts, t.Bare)
    (hdrop : (ofTokens ts).DropsLayout drop) :
    Thins (keptAt drop) ((ofTokens ts).without drop).tokens (ofTokens ts).tokens where
  strictMono := Nat.nth_strictMono hdrop.infinite
  size := by rw [size_without, keptAt_rank (hdrop.keep_of_size_le le_rfl)]
  get? k := by
    have hget := (ofTokens ts).get?_without (hdrop.keep_keptAt k)
    rw [hdrop.rank_keptAt, get?, get?] at hget
    rw [hget, Option.map_map]
    cases ht : (ofTokens ts).tokens[keptAt drop k]? with
    | none => rfl
    | some t =>
      -- the tokens that `t` refers to are kept, so they are found under their old numbers again
      have hback : t.reindex (keptAt drop ∘ rank drop) = t.reindex id :=
        Token.reindex_congr fun j hj =>
          keptAt_rank (hdrop.keep_of_significant (significant_of_refers hts ht hj))
      rw [Option.map_some, Function.comp_apply, Token.reindex_reindex, hback, Token.reindex_id]
  layout i hi := by
    exact hdrop i (Bool.eq_true_of_not_eq_false fun h => hi _ (keptAt_rank h))

end Listing

/-- What is kept of a stretch of tokens. -/
theorem Thins.window_kept {pos : Nat → Nat} {l' l : Listing} (h : Thins pos l'.tokens l.tokens)
    {drop : Nat → Bool} (hkeep : ∀ i, drop i = false ↔ ∃ k, pos k = i) {n i n' i' : Nat}
    (hi : Splits pos i i') (hn : Splits pos (i + n) (i' + n')) :
    (l.window n i).filter (fun e => !drop e.2) = (l'.window n' i').map (Thins.move pos) := by
  refine h.walkUp (motive := fun n i n' i' => Splits pos i i' →
    (l.window n i).filter (fun e => !drop e.2) = (l'.window n' i').map (Thins.move pos))
    ?_ ?_ ?_ hi hn hi
  · intro i i' _ _
    rw [Listing.window, Listing.window, segment_zero, segment_zero]
    rfl
  · intro n i n' i' t ht _ hafter ih hbefore
    -- no kept token lies between the two boundaries, so the layout token is dropped
    have hdrop : drop i = true := by
      refine Bool.eq_true_of_not_eq_false fun hi => ?_
      obtain ⟨k, rfl⟩ := (hkeep i).1 hi
      have hlt := (hbefore k).1 ((hafter k).2 (Nat.lt_succ_self _))
      omega
    rw [Listing.window_succ, Listing.get?, ht, Option.map_some, Option.toList_some,
      List.singleton_append, List.filter_cons_of_neg (by simp [hdrop])]
    exact ih hafter
  · intro n n' i' _ ih _
    have hkept : drop (pos i') = false := (hkeep _).2 ⟨i', rfl⟩
    rw [Listing.window_succ, Listing.window_succ, Listing.get?, Listing.get?, h.get?,
      List.filter_append, List.map_append, ih (Splits.after h.strictMono i')]
    congr 1
    cases l'.tokens[i']? with
    | none => rfl
    | some t => simp [hkept, Thins.move]

namespace Listing

/-! ## Texts of layout -/

variable {ts : List Token} (hts : IsLexed ts) {i : Nat} {t : Token}
  (ht : (ofTokens ts).get? i = some t)
include hts ht

/-- Names that are settled and brackets that are linked do not change what fits a token. -/
theorem fits_of_get? : t.kind.fits t.text.toList = true := by
  have hget := get?_ofTokens (fun t ht => (hts.bare t ht).scope) i
  obtain ⟨u, hu, rfl⟩ := Option.map_eq_some_iff.1 (hget.symm.trans ht)
  obtain ⟨v, hv, htext, -, hkind | hkind⟩ := origin_linked_settleNames hu
  · simp only [htext, hkind]
    exact hts.fits v hv
  · simp only [hkind]
    rfl

theorem blank_of_whitespace (hkind : t.kind = .whitespace) : t.Blank := by
  have hfits := fits_of_get? hts ht
  rw [hkind] at hfits
  exact List.all_eq_true.1 hfits

/-- A comment starts with `/` or `#`. -/
theorem mark_of_comment (hkind : t.kind.isComment = true) :
    '/' ∈ t.text.toList ∨ '#' ∈ t.text.toList := by
  have hfits := fits_of_get? hts ht
  have hhead : t.text.toList.head? = some '/' ∨ t.text.toList.head? = some '#' := by
    have hcomment : t.kind = .comment ∨ t.kind = .docComment := by
      revert hkind
      cases t.kind <;> decide
    rcases hcomment with h | h <;> rw [h] at hfits <;> simpa [TokenKind.fits] using hfits
  exact hhead.imp List.mem_of_mem_head? List.mem_of_mem_head?

theorem not_blank_of_comment (hkind : t.kind.isComment = true) : ¬ t.Blank := by
  intro hblank
  rcases mark_of_comment hts ht hkind with hmem | hmem
  · exact absurd (hblank _ hmem) (by decide)
  · exact absurd (hblank _ hmem) (by decide)

end Listing

end Vintage
