import Vintage.Proofs.Layout.Readings
import Vintage.Proofs.ListItems
import Vintage.Proofs.Signatures.Syntax

/-!
# Reading signatures without layout

In a listing without layout the neighbours of a token are the significant tokens beside it. There
the tokens before the variable of a parameter are read one by one, and what is found does not depend
on their order but for the first and the last token of the type.

Results:
* `Listing.Compact`: there is no layout.
* `Listing.headFrom?_append`, `Listing.headFrom?_eq`: what is read before the variable of a
  parameter, attributes apart.
* `Listing.Compact.typeHint?`, `Listing.Compact.hintOf?`: the hint from one token to another.
* `Listing.Spells.itemsFrom?_nested`: a well-nested stretch without commas belongs to one item.
-/

namespace Vintage

namespace Listing

/-- The listing has no layout. -/
def Compact (l : Listing) : Prop := ∀ i t, l.get? i = some t → t.isSignificant = true

/-! ## Neighbours -/

namespace Compact

variable {l : Listing} (h : l.Compact)
include h

theorem any_significant {i : Nat} (hi : i < l.size) :
    (l.get? i).any Token.isSignificant = true := by
  obtain ⟨t, ht, -⟩ := exists_get? hi
  rw [ht]
  exact h i t ht

theorem next? {i : Nat} (hi : i + 1 < l.size) : l.next? i = some (i + 1) := by
  obtain ⟨n, hn⟩ : ∃ n, min l.size l.size - (i + 1) = n + 1 :=
    ⟨l.size - (i + 1) - 1, by omega⟩
  rw [Listing.next?, firstFrom?, firstIn?, hn, firstAmong?, if_pos (h.any_significant hi)]

theorem previous? {i : Nat} (hi : i < l.size) : l.previous? (i + 1) = some i := by
  refine previous?_eq_some_iff.2 ⟨Nat.lt_succ_self i, h.any_significant hi, fun k _ _ => ?_⟩
  omega

theorem kindAt?_next (i : Nat) : l.kindAt? (l.next? i) = l.kind? (i + 1) := by
  by_cases hi : i + 1 < l.size
  · rw [h.next? hi]
    rfl
  · have hnone : l.next? i = none := by
      rw [Listing.next?, firstFrom?, firstIn?, show min l.size l.size - (i + 1) = 0 by omega]
      rfl
    rw [hnone, kind?, get?, Array.getElem?_eq_none (by rw [size] at hi; omega)]
    rfl

theorem marksReference (i : Nat) :
    l.marksReference i =
      (l.kind? (i + 1) == some .variableName || l.kind? (i + 1) == some .ellipsis) := by
  rw [Listing.marksReference, h.kindAt?_next]

end Compact

/-! ## Before the variable -/

/-- The token at the position is taken for a part of the type. -/
def takenForType (l : Listing) (i : Nat) : Bool :=
  (l.kind? i).any fun k => k.isTypePiece || (k == .ampersand && !l.marksReference i)

/-- The token at the position makes the parameter a reference. -/
def takenForReference (l : Listing) (i : Nat) : Bool :=
  l.kind? i == some .ampersand && l.marksReference i

/-- A stretch of a type, continued to the end of another one. -/
def extendEnds : Option (Nat × Nat) → Option (Nat × Nat) → Option (Nat × Nat)
  | ends, none => ends
  | none, some ends => some ends
  | some (first, _), some (_, last) => some (first, last)

theorem endsOf?_ne_none {ps : List Nat} (h : ps ≠ []) : ∃ first last,
    endsOf? ps = some (first, last) := by
  cases ps with
  | nil => exact absurd rfl h
  | cons i ps => exact ⟨i, _, by rw [endsOf?, List.getLast?_cons]; rfl⟩

theorem endsOf?_cons (i : Nat) (ps : List Nat) :
    endsOf? (i :: ps) = extendEnds (some (i, i)) (endsOf? ps) := by
  cases ps with
  | nil => rfl
  | cons p ps =>
    rw [endsOf?, endsOf?, List.getLast?_cons, List.getLast?_cons]
    rfl

theorem extendEnds_addType (head : ParameterHead) (i : Nat) (ps : List Nat) :
    extendEnds (head.addType i).type (endsOf? ps) = extendEnds head.type (endsOf? (i :: ps)) := by
  rw [endsOf?_cons]
  obtain ⟨byReference, type⟩ := head
  cases type <;> cases endsOf? ps <;> rfl

end Listing

/-- What was found before a variable, and then something more. -/
def ParameterHead.andThen (head more : ParameterHead) : ParameterHead where
  byReference := head.byReference || more.byReference
  type := Listing.extendEnds head.type more.type

theorem ParameterHead.empty_andThen (head : ParameterHead) :
    ParameterHead.andThen {} head = head := by
  obtain ⟨byReference, type⟩ := head
  cases type <;> rfl

namespace Listing

/-- What is found in a stretch without attributes: a reference if one of its tokens makes one, and a
type that reaches from the first to the last token taken for it. -/
def headIn (l : Listing) (i n : Nat) : ParameterHead where
  byReference := (List.range' i n).any l.takenForReference
  type := endsOf? ((List.range' i n).filter l.takenForType)

/-- A stretch without attributes is read token by token. -/
theorem headFrom?_append {l : Listing} {n i : Nat} (hstop : i + n ≤ l.size)
    (h : ∀ j, i ≤ j → j < i + n → l.kind? j ≠ some .attributeStart) {resume : Nat}
    (hresume : resume ≤ i) (m : Nat) (head : ParameterHead) :
    l.headFrom? (n + m) i resume head =
      l.headFrom? m (i + n) resume (head.andThen (l.headIn i n)) := by
  induction n generalizing i head with
  | zero =>
    obtain ⟨byReference, type⟩ := head
    rw [Nat.zero_add, Nat.add_zero]
    cases byReference <;> cases type <;> rfl
  | succ n ih =>
    have hih (head : ParameterHead) := ih (i := i + 1) (by omega)
      (fun j hj hj' => h j (by omega) (by omega)) (by omega) head
    obtain ⟨t, ht, hkind⟩ := exists_get? (l := l) (i := i) (by omega)
    have hattribute := h i (Nat.le_refl i) (by omega)
    rw [hkind, ne_eq, Option.some.injEq] at hattribute
    rw [show n + 1 + m = n + m + 1 by omega, headFrom?, if_neg (by omega), ht,
      show i + (n + 1) = i + 1 + n by omega, ParameterHead.andThen, headIn, List.range'_succ,
      List.any_cons]
    simp only [if_neg hattribute, ParameterHead.andThen, headIn] at hih ⊢
    by_cases hand : t.kind = .ampersand
    · rw [if_pos hand]
      by_cases hmark : l.marksReference i = true
      · have href : l.takenForReference i = true := by
          rw [takenForReference, hkind, hand, hmark]
          rfl
        have htype : ¬ l.takenForType i = true := by
          rw [takenForType, hkind, hand, hmark]
          decide
        rw [if_pos hmark, hih, List.filter_cons_of_neg htype, href]
        simp only [Bool.true_or, Bool.or_true]
      · have href : l.takenForReference i = false := by
          rw [takenForReference, Bool.eq_false_iff.2 hmark, Bool.and_false]
        have htype : l.takenForType i = true := by
          rw [takenForType, hkind, hand, Bool.eq_false_iff.2 hmark]
          rfl
        rw [if_neg hmark, hih, List.filter_cons_of_pos htype, href, extendEnds_addType,
          Bool.false_or]
        rfl
    · have href : l.takenForReference i = false := by
        rw [takenForReference, hkind, beq_eq_false_iff_ne.2 (by simpa using hand), Bool.false_and]
      have htype : l.takenForType i = t.kind.isTypePiece := by
        rw [takenForType, hkind, Option.any_some, beq_eq_false_iff_ne.2 hand, Bool.false_and,
          Bool.or_false]
      rw [if_neg hand, href, Bool.false_or]
      by_cases hpiece : t.kind.isTypePiece = true
      · rw [if_pos hpiece, hih, List.filter_cons_of_pos (htype.trans hpiece), extendEnds_addType]
        rfl
      · rw [if_neg hpiece, hih, List.filter_cons_of_neg (by rw [htype]; exact hpiece)]

theorem headFrom?_eq {l : Listing} {n i : Nat} (hstop : i + n ≤ l.size)
    (h : ∀ j, i ≤ j → j < i + n → l.kind? j ≠ some .attributeStart) :
    l.headFrom? n i 0 {} = some (l.headIn i n) := by
  have hread := headFrom?_append hstop h (Nat.zero_le i) 0 {}
  rw [Nat.add_zero] at hread
  rw [hread, headFrom?, ParameterHead.empty_andThen]

/-! ## Written types -/

theorem firstAmong?_of_first {l : Listing} {p : Token → Bool} {n i j : Nat} (hij : i ≤ j)
    (hj : j < i + n) (hp : (l.get? j).any p = true)
    (hbefore : ∀ k, i ≤ k → k < j → (l.get? k).any p = false) : l.firstAmong? p n i = some j := by
  induction n generalizing i with
  | zero => omega
  | succ n ih =>
    rw [firstAmong?]
    rcases Nat.eq_or_lt_of_le hij with rfl | hlt
    · rw [if_pos hp]
    · rw [if_neg (Bool.eq_false_iff.1 (hbefore i (Nat.le_refl i) hlt))]
      exact ih hlt (by omega) fun k hk => hbefore k (by omega)

theorem firstIn?_of_first {l : Listing} {p : Token → Bool} {start stop j : Nat} (hstart : start ≤ j)
    (hj : j < stop) (hp : (l.get? j).any p = true)
    (hbefore : ∀ k, start ≤ k → k < j → (l.get? k).any p = false) :
    l.firstIn? p start stop = some j := by
  obtain ⟨t, ht, -⟩ := (Option.any_eq_true _ _).1 hp
  have hsize : j < l.size := (Array.getElem?_eq_some_iff.1 ht).1
  exact firstAmong?_of_first hstart (by omega) hp hbefore

theorem firstAmong?_before {l : Listing} {p : Token → Bool} {n i j : Nat}
    (h : l.firstAmong? p n i = some j) {k : Nat} (hik : i ≤ k) (hkj : k < j) :
    (l.get? k).any p = false := by
  induction n generalizing i with
  | zero => cases h
  | succ n ih =>
    rw [firstAmong?] at h
    split at h
    · obtain rfl := Option.some.inj h
      omega
    · rename_i hi
      rcases Nat.eq_or_lt_of_le hik with rfl | hlt
      · exact Bool.eq_false_iff.2 hi
      · exact ih h hlt

theorem Compact.significantTextOf {l : Listing} (h : l.Compact) (a n : Nat) :
    l.significantTextOf a (a + n) = l.textAt (List.range' a n) := by
  have htexts : (((l.window n a).map Prod.fst).filter Token.isSignificant).map Token.text =
      (List.range' a n).filterMap fun i => (l.get? i).map Token.text := by
    induction n generalizing a with
    | zero =>
      rw [window, segment_zero]
      rfl
    | succ n ih =>
      rw [window_succ, List.range'_succ, List.map_append, List.filter_append, List.map_append, ih]
      cases ht : l.get? a with
      | none => rw [List.filterMap_cons_none (by rw [ht]; rfl)]; rfl
      | some t =>
        rw [List.filterMap_cons_some (by rw [ht]; rfl)]
        simp [h a t ht]
  rw [Listing.significantTextOf, stretch_eq, Nat.add_sub_cancel_left, htexts, textAt]

theorem textAt_append (l : Listing) (ps qs : List Nat) :
    l.textAt (ps ++ qs) = l.textAt ps ++ l.textAt qs := by
  rw [textAt, List.filterMap_append, String.join_append]
  rfl

theorem textAt_ne_empty {l : Listing} {ps : List Nat} {i : Nat} (hi : i ∈ ps) {t : Token}
    (ht : l.get? i = some t) (htext : t.text ≠ "") : l.textAt ps ≠ "" := by
  obtain ⟨before, after, rfl⟩ := List.append_of_mem hi
  have hone : l.textAt [i] = t.text := by
    rw [textAt, List.filterMap_cons_some (by rw [ht]; rfl), List.filterMap_nil]
    exact String.empty_append
  rw [← List.singleton_append, textAt_append, textAt_append, hone]
  intro hempty
  exact htext (String.append_eq_empty_iff.1 (String.append_eq_empty_iff.1 hempty).2).1

theorem endsOf?_range' (a n : Nat) : endsOf? (List.range' a (n + 1)) = some (a, a + n) := by
  rw [endsOf?, List.head?_range', List.getLast?_range']
  simp

/-- The hint from one token to another is made of the tokens between them. -/
theorem Compact.typeHint? {l : Listing} (h : l.Compact) {a n : Nat} (hn : a + n < l.size) :
    l.typeHint? a (a + n + 1) = l.hintOf? (List.range' a (n + 1)) := by
  have hfirst : l.firstIn? Token.isSignificant a (a + n + 1) = some a :=
    firstIn?_of_first (Nat.le_refl a) (by omega) (h.any_significant (by omega))
      fun k hk hk' => absurd hk (by omega)
  have hlast : l.lastBefore? Token.isSignificant (a + n + 1) = some (a + n) := h.previous? hn
  rw [Listing.typeHint?, hfirst, hintOf?, endsOf?_range']
  simp only [hlast, Option.map_some]
  rw [show a + n + 1 = a + (n + 1) by omega, h.significantTextOf]

/-! ## Positions in a row -/

/-- The positions are those from `s` on. -/
def RunFrom (s : Nat) (ps : List Nat) : Prop := ps = List.range' s ps.length

theorem runFrom_cons {s i : Nat} {ps : List Nat} :
    RunFrom s (i :: ps) ↔ i = s ∧ RunFrom (s + 1) ps := by
  rw [RunFrom, List.length_cons, List.range'_succ, List.cons.injEq, RunFrom]

theorem runFrom_append {s : Nat} {ps qs : List Nat} :
    RunFrom s (ps ++ qs) ↔ RunFrom s ps ∧ RunFrom (s + ps.length) qs := by
  induction ps generalizing s with
  | nil => exact ⟨fun h => ⟨rfl, h⟩, fun h => h.2⟩
  | cons i ps ih =>
    rw [List.cons_append, runFrom_cons, runFrom_cons, ih, and_assoc, List.length_cons,
      show s + 1 + ps.length = s + (ps.length + 1) by omega]

theorem RunFrom.mem_iff {s : Nat} {ps : List Nat} (h : RunFrom s ps) {i : Nat} :
    i ∈ ps ↔ s ≤ i ∧ i < s + ps.length := by
  rw [RunFrom] at h
  rw [h, List.mem_range'_1, List.length_range']

theorem mem_kindsAt {l : Listing} {ps : List Nat} {i : Nat} (hi : i ∈ ps) {k : TokenKind}
    (hk : l.kind? i = some k) : k ∈ l.kindsAt ps := List.mem_filterMap.2 ⟨i, hi, hk⟩

theorem kindsAt_append (l : Listing) (ps qs : List Nat) :
    l.kindsAt (ps ++ qs) = l.kindsAt ps ++ l.kindsAt qs := List.filterMap_append

theorem kindsAt_cons {l : Listing} {i : Nat} {k : TokenKind} (hk : l.kind? i = some k)
    (ps : List Nat) : l.kindsAt (i :: ps) = k :: l.kindsAt ps := List.filterMap_cons_some hk

/-- The tokens at positions in a row are spelled from the first on. -/
theorem RunFrom.spells {l : Listing} {s : Nat} {ps : List Nat} (h : RunFrom s ps)
    (hsize : s + ps.length ≤ l.size) :
    l.Spells s (l.kindsAt ps) ∧ (l.kindsAt ps).length = ps.length := by
  induction ps generalizing s with
  | nil => exact ⟨spells_nil, rfl⟩
  | cons i ps ih =>
    obtain ⟨rfl, hps⟩ := runFrom_cons.1 h
    rw [List.length_cons] at hsize
    obtain ⟨t, -, hkind⟩ := exists_get? (l := l) (i := i) (by omega)
    obtain ⟨hspells, hlength⟩ := ih hps (by omega)
    rw [kindsAt_cons hkind, spells_cons, List.length_cons, List.length_cons, hlength]
    exact ⟨⟨hkind, hspells⟩, rfl⟩

theorem any_kind_beq (l : Listing) (i : Nat) (kind : TokenKind) :
    ((l.get? i).any fun t => t.kind == kind) = (l.kind? i == some kind) := by
  rw [kind?]
  cases l.get? i <;> rfl

/-- The hint from the first to the last of positions in a row. -/
theorem Compact.hintOf? {l : Listing} (hl : l.Compact) {s : Nat} {ps : List Nat}
    (h : RunFrom s ps) (hsize : s + ps.length ≤ l.size) :
    ((endsOf? ps).bind fun (first, last) => l.typeHint? first (last + 1)) = l.hintOf? ps := by
  cases ps with
  | nil => rfl
  | cons i ps =>
    obtain ⟨rfl, hps⟩ := runFrom_cons.1 h
    rw [List.length_cons] at hsize
    have hlast : endsOf? (i :: ps) = some (i, i + ps.length) := by
      rw [h, List.length_cons, endsOf?_range']
    rw [hlast, Option.bind_some]
    simp only
    rw [hl.typeHint? (by omega), ← List.length_cons (a := i), ← h]

/-! ## Items -/

/-- A well-nested stretch without commas outside of its brackets belongs to one item. -/
theorem Spells.itemsFrom?_nested {ts : List Token} (hts : ∀ t ∈ ts, t.Bare) {p : TokenKind → Prop}
    (hp : ∀ k, p k → k ≠ .comma) {ks : List TokenKind} (hks : Nested p ks) {i : Nat}
    (h : (ofTokens ts).Spells i ks) (n start : Nat) :
    (ofTokens ts).itemsFrom? (ks.length + n) i start 0 =
      (ofTokens ts).itemsFrom? n (i + ks.length) start 0 := by
  induction hks generalizing i with
  | nil => rw [List.length_nil, Nat.zero_add, Nat.add_zero]
  | @plain p k ks hbracket hk _ ih =>
    obtain ⟨hi, hks⟩ := spells_cons.1 h
    obtain ⟨t, ht, rfl⟩ := Option.map_eq_some_iff.1 hi
    rw [List.length_cons, show ks.length + 1 + n = ks.length + n + 1 by omega, itemsFrom?,
      if_neg (Nat.not_lt_zero i), ht]
    simp only [TokenKind.opensGroup_of_not_bracket hbracket, Bool.false_eq_true, if_false,
      if_neg (hp _ hk)]
    rw [ih hp hks, show i + 1 + ks.length = i + (ks.length + 1) by omega]
  | @group p b inner rest hinner _ _ ih =>
    have hpartner := h.partner?_group hts hinner
    obtain ⟨hi, hks⟩ := spells_cons.1 h
    obtain ⟨-, hks⟩ := spells_append.1 hks
    obtain ⟨-, hrest⟩ := spells_cons.1 hks
    obtain ⟨t, ht, hkind⟩ := Option.map_eq_some_iff.1 hi
    rw [partner?, ht, Option.bind_some] at hpartner
    have hlength : (b.opener :: (inner ++ b.closer :: rest)).length + n =
        inner.length + 1 + (rest.length + n) + 1 := by
      simp only [List.length_cons, List.length_append]
      omega
    have hopens : t.kind.opensGroup = true := TokenKind.opensGroup_iff.2 ⟨b, hkind⟩
    have hskip := itemsFrom?_skip (l := ofTokens ts) (rest.length + n) start
      (show i + 1 + (inner.length + 1) ≤ i + 1 + inner.length + 1 by omega)
    rw [hlength, itemsFrom?, if_neg (Nat.not_lt_zero i), ht]
    simp only [if_pos hopens, hpartner]
    rw [hskip, itemsFrom?_resume start (by omega), show i + 1 + (inner.length + 1) =
      i + 1 + inner.length + 1 by omega, ih hp hrest]
    simp only [List.length_cons, List.length_append]
    rw [show i + 1 + inner.length + 1 + rest.length =
      i + (inner.length + (rest.length + 1) + 1) by omega]

end Listing

end Vintage
