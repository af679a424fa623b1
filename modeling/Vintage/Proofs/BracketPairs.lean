import Mathlib.Data.List.Pairwise
import Vintage.Token.Structure

/-!
# Pairs of brackets

The brackets of one kind are paired with a stack of the open ones. Whatever the tokens are, the
pairs of one kind do not cross, and a position is in at most one pair.

Results:
* `Bracket.pairs_apart`: two pairs of one kind lie side by side or one inside the other.
* `Bracket.kind_of_mem_pairs`: a pair is an opening token and a later closing one.
* `linkBrackets_getElem?`: the partner recorded at a token is its mate in the pairs.
* `mate?_eq_some_iff`: two tokens are mates iff they are a pair.
-/

namespace Vintage

/-! ## Positions of pairs -/

/-- The two pairs lie side by side or one inside the other. -/
def Apart (p q : Nat × Nat) : Prop :=
  p.2 < q.1 ∨ q.2 < p.1 ∨ p.1 < q.1 ∧ q.2 < p.2 ∨ q.1 < p.1 ∧ p.2 < q.2

instance : Std.Symm Apart where
  symm p q h := by
    unfold Apart at h ⊢
    omega

/-- The two pairs share no position. -/
def Separate (p q : Nat × Nat) : Prop :=
  p.1 ≠ q.1 ∧ p.1 ≠ q.2 ∧ p.2 ≠ q.1 ∧ p.2 ≠ q.2

instance : Std.Symm Separate where
  symm _ _ h := ⟨h.1.symm, h.2.2.1.symm, h.2.1.symm, h.2.2.2.symm⟩

theorem Apart.separate {p q : Nat × Nat} (h : Apart p q) (hp : p.1 < p.2) (hq : q.1 < q.2) :
    Separate p q := by
  unfold Apart at h
  unfold Separate
  omega

/-- What a recursion meets: the items from index `i` on are an item and those after it. -/
theorem drop_succ_of_drop {α : Type} {all items : List α} {item : α} {i : Nat}
    (h : all.drop i = item :: items) : all[i]? = some item ∧ all.drop (i + 1) = items := by
  constructor
  · rw [← List.head?_drop, h, List.head?_cons]
  · rw [← List.tail_drop, h, List.tail_cons]

namespace Bracket

theorem pairsFrom_cons (b : Bracket) (i : Nat) (opened : List Nat) (t : Token) (ts : List Token) :
    b.pairsFrom i opened (t :: ts) =
      if t.kind = b.opener then b.pairsFrom (i + 1) (i :: opened) ts
      else if t.kind = b.closer then
        match opened with
        | [] => b.pairsFrom (i + 1) [] ts
        | o :: opened => (o, i) :: b.pairsFrom (i + 1) opened ts
      else b.pairsFrom (i + 1) opened ts := rfl

/-- The pairs depend on the kinds of the tokens only. -/
theorem pairsFrom_congr (b : Bracket) {ts us : List Token}
    (h : ts.map Token.kind = us.map Token.kind) (i : Nat) (opened : List Nat) :
    b.pairsFrom i opened ts = b.pairsFrom i opened us := by
  induction ts generalizing us i opened with
  | nil =>
    rw [List.map_nil, eq_comm, List.map_eq_nil_iff] at h
    rw [h]
  | cons t ts ih =>
    cases us with
    | nil => cases h
    | cons u us =>
      rw [List.map_cons, List.map_cons, List.cons.injEq] at h
      simp only [pairsFrom_cons, h.1, ih h.2]

theorem pairs_congr (b : Bracket) {ts us : List Token}
    (h : ts.map Token.kind = us.map Token.kind) : b.pairs ts = b.pairs us :=
  b.pairsFrom_congr h 0 []

theorem mem_pairsFrom (b : Bracket) {ts : List Token} {i : Nat} {opened : List Nat}
    {p : Nat × Nat} (hp : p ∈ b.pairsFrom i opened ts) :
    i ≤ p.2 ∧ (p.1 ∈ opened ∨ i ≤ p.1) := by
  induction ts generalizing i opened with
  | nil => simp [pairsFrom] at hp
  | cons t ts ih =>
    rw [pairsFrom_cons] at hp
    split at hp
    · obtain ⟨h₂, h₁⟩ := ih hp
      refine ⟨by omega, ?_⟩
      rcases h₁ with h₁ | h₁
      · rcases List.mem_cons.1 h₁ with h₁ | h₁
        · exact Or.inr (by omega)
        · exact Or.inl h₁
      · exact Or.inr (by omega)
    · split at hp
      · split at hp
        · obtain ⟨h₂, h₁⟩ := ih hp
          exact ⟨by omega, h₁.imp_right (by omega)⟩
        · rcases List.mem_cons.1 hp with rfl | hp
          · exact ⟨Nat.le_refl _, Or.inl List.mem_cons_self⟩
          · obtain ⟨h₂, h₁⟩ := ih hp
            refine ⟨by omega, ?_⟩
            rcases h₁ with h₁ | h₁
            · exact Or.inl (List.mem_cons_of_mem _ h₁)
            · exact Or.inr (by omega)
      · obtain ⟨h₂, h₁⟩ := ih hp
        exact ⟨by omega, h₁.imp_right (by omega)⟩

/-- The invariant of the stack is that it descends and stays below `i`: a pair that is closed later
starts below the one on top or after it is closed. -/
theorem pairsFrom_pairwise (b : Bracket) (ts : List Token) (i : Nat) (opened : List Nat)
    (hopened : opened.Pairwise (· > ·)) (hi : ∀ o ∈ opened, o < i) :
    (b.pairsFrom i opened ts).Pairwise fun p q => p.2 < q.2 ∧ (p.2 < q.1 ∨ q.1 < p.1) := by
  induction ts generalizing i opened with
  | nil => simp [pairsFrom]
  | cons t ts ih =>
    have hi' : ∀ o ∈ opened, o < i + 1 := fun o ho => Nat.lt_succ_of_lt (hi o ho)
    rw [pairsFrom_cons]
    split
    · refine ih (i + 1) (i :: opened) (List.pairwise_cons.2 ⟨hi, hopened⟩) ?_
      intro o ho
      rcases List.mem_cons.1 ho with rfl | ho
      · exact Nat.lt_succ_self _
      · exact hi' o ho
    · split
      · split
        · exact ih (i + 1) [] List.Pairwise.nil (by simp)
        · rename_i o opened
          obtain ⟨hbelow, hrest⟩ := List.pairwise_cons.1 hopened
          refine List.pairwise_cons.2 ⟨?_, ih (i + 1) opened hrest ?_⟩
          · intro q hq
            obtain ⟨h₂, h₁⟩ := b.mem_pairsFrom hq
            refine ⟨by omega, ?_⟩
            rcases h₁ with h₁ | h₁
            · exact Or.inr (hbelow _ h₁)
            · exact Or.inl (by omega)
          · exact fun o' ho' => hi' o' (List.mem_cons_of_mem _ ho')
      · exact ih (i + 1) opened hopened hi'

/-- Two pairs of one kind lie side by side or one inside the other. -/
theorem pairs_apart (b : Bracket) (ts : List Token) : (b.pairs ts).Pairwise Apart := by
  refine (b.pairsFrom_pairwise ts 0 [] List.Pairwise.nil (by simp)).imp ?_
  intro p q h
  unfold Apart
  omega

theorem kind_of_mem_pairsFrom (b : Bracket) {all ts : List Token} {i : Nat} {opened : List Nat}
    (hts : all.drop i = ts)
    (hopened : ∀ o ∈ opened, o < i ∧ all[o]?.map Token.kind = some b.opener)
    {p : Nat × Nat} (hp : p ∈ b.pairsFrom i opened ts) :
    p.1 < p.2 ∧ all[p.1]?.map Token.kind = some b.opener ∧
      all[p.2]?.map Token.kind = some b.closer := by
  induction ts generalizing i opened with
  | nil => simp [pairsFrom] at hp
  | cons t ts ih =>
    obtain ⟨ht, hts'⟩ := drop_succ_of_drop hts
    have hopened' : ∀ o ∈ opened, o < i + 1 ∧ all[o]?.map Token.kind = some b.opener :=
      fun o ho => ⟨Nat.lt_succ_of_lt (hopened o ho).1, (hopened o ho).2⟩
    rw [pairsFrom_cons] at hp
    split at hp
    · rename_i hkind
      refine ih hts' ?_ hp
      intro o ho
      rcases List.mem_cons.1 ho with rfl | ho
      · exact ⟨Nat.lt_succ_self _, by rw [ht, Option.map_some, hkind]⟩
      · exact hopened' o ho
    · split at hp
      · rename_i hkind
        split at hp
        · exact ih hts' (by simp) hp
        · rename_i o opened
          rcases List.mem_cons.1 hp with rfl | hp
          · obtain ⟨hlt, ho⟩ := hopened o List.mem_cons_self
            exact ⟨hlt, ho, by rw [ht, Option.map_some, hkind]⟩
          · exact ih hts' (fun o' ho' => hopened' o' (List.mem_cons_of_mem _ ho')) hp
      · exact ih hts' hopened' hp

/-- A pair is an opening token and a later closing token of its kind. -/
theorem kind_of_mem_pairs (b : Bracket) {ts : List Token} {p : Nat × Nat} (hp : p ∈ b.pairs ts) :
    p.1 < p.2 ∧ ts[p.1]?.map Token.kind = some b.opener ∧
      ts[p.2]?.map Token.kind = some b.closer :=
  b.kind_of_mem_pairsFrom rfl (by simp) hp

theorem pairs_separate (b : Bracket) (ts : List Token) : (b.pairs ts).Pairwise Separate := by
  refine (b.pairs_apart ts).imp_of_mem ?_
  intro p q hp hq h
  exact h.separate (b.kind_of_mem_pairs hp).1 (b.kind_of_mem_pairs hq).1

theorem opener_ne_closer (b b' : Bracket) : b.opener ≠ b'.closer := by
  cases b <;> cases b' <;> decide

theorem opener_inj {b b' : Bracket} (h : b.opener = b'.opener) : b = b' := by
  cases b <;> cases b' <;> first | rfl | cases h

theorem closer_inj {b b' : Bracket} (h : b.closer = b'.closer) : b = b' := by
  cases b <;> cases b' <;> first | rfl | cases h

/-- Pairs of different kinds share no position: the token there would have two kinds. -/
theorem separate_of_ne {b b' : Bracket} (hne : b ≠ b') {ts : List Token} {p q : Nat × Nat}
    (hp : p ∈ b.pairs ts) (hq : q ∈ b'.pairs ts) : Separate p q := by
  obtain ⟨-, hp₁, hp₂⟩ := b.kind_of_mem_pairs hp
  obtain ⟨-, hq₁, hq₂⟩ := b'.kind_of_mem_pairs hq
  refine ⟨?_, ?_, ?_, ?_⟩ <;> intro he
  · rw [he, hq₁] at hp₁
    exact hne (opener_inj (Option.some.inj hp₁)).symm
  · rw [he, hq₂] at hp₁
    exact opener_ne_closer b b' (Option.some.inj hp₁).symm
  · rw [he, hq₁] at hp₂
    exact opener_ne_closer b' b (Option.some.inj hp₂)
  · rw [he, hq₂] at hp₂
    exact hne (closer_inj (Option.some.inj hp₂)).symm

end Bracket

/-! ## Recording the pairs -/

/-- An array whose tokens are changed one by one keeps its size. -/
theorem size_eq_of_getElem?_map {ts us : Array Token} {f : Nat → Token → Token}
    (h : ∀ k : Nat, us[k]? = ts[k]?.map (f k)) : us.size = ts.size := by
  have h₁ : ts.size ≤ us.size := by
    rw [← Array.getElem?_eq_none_iff, ← Option.map_eq_none_iff, ← h]
    exact Array.getElem?_eq_none (Nat.le_refl _)
  have h₂ : us.size ≤ ts.size := by
    rw [← Array.getElem?_eq_none_iff, h, Array.getElem?_eq_none (Nat.le_refl _), Option.map_none]
  exact Nat.le_antisymm h₂ h₁

/-- The pairs of all three kinds. -/
def bracketPairs (ts : List Token) : List (Nat × Nat) :=
  Bracket.round.pairs ts ++ Bracket.square.pairs ts ++ Bracket.curly.pairs ts

theorem mem_bracketPairs {ts : List Token} {p : Nat × Nat} :
    p ∈ bracketPairs ts ↔ ∃ b : Bracket, p ∈ b.pairs ts := by
  unfold bracketPairs
  rw [List.mem_append, List.mem_append]
  constructor
  · rintro ((h | h) | h)
    · exact ⟨.round, h⟩
    · exact ⟨.square, h⟩
    · exact ⟨.curly, h⟩
  · rintro ⟨b, h⟩
    cases b with
    | round => exact Or.inl (Or.inl h)
    | square => exact Or.inl (Or.inr h)
    | curly => exact Or.inr h

theorem bracketPairs_separate (ts : List Token) : (bracketPairs ts).Pairwise Separate := by
  unfold bracketPairs
  refine List.pairwise_append.2 ⟨List.pairwise_append.2
    ⟨Bracket.pairs_separate _ ts, Bracket.pairs_separate _ ts, ?_⟩, Bracket.pairs_separate _ ts, ?_⟩
  · exact fun p hp q hq => Bracket.separate_of_ne (by decide) hp hq
  · intro p hp q hq
    rcases List.mem_append.1 hp with hp | hp
    · exact Bracket.separate_of_ne (by decide) hp hq
    · exact Bracket.separate_of_ne (by decide) hp hq

theorem lt_of_mem_bracketPairs {ts : List Token} {p : Nat × Nat} (hp : p ∈ bracketPairs ts) :
    p.1 < p.2 := by
  obtain ⟨b, hb⟩ := mem_bracketPairs.1 hp
  exact (b.kind_of_mem_pairs hb).1

/-- The other position of a pair that holds position `k`. -/
def otherOf (k : Nat) (p : Nat × Nat) : Option Nat :=
  if p.1 = k then some p.2 else if p.2 = k then some p.1 else none

/-- The position that the pairs put together with position `k`. -/
def mate? (ps : List (Nat × Nat)) (k : Nat) : Option Nat := ps.findSome? (otherOf k)

theorem otherOf_eq_some {k m : Nat} {p : Nat × Nat} (h : otherOf k p = some m) :
    p = (k, m) ∨ p = (m, k) := by
  obtain ⟨x, y⟩ := p
  unfold otherOf at h
  split at h
  · rename_i hx
    cases h
    exact Or.inl (by rw [← hx])
  · split at h
    · rename_i hy
      cases h
      exact Or.inr (by rw [← hy])
    · cases h

theorem otherOf_none_of_separate {k m : Nat} {p q : Nat × Nat} (h : Separate p q)
    (hp : otherOf k p = some m) : otherOf k q = none := by
  obtain ⟨h₁, h₂, h₃, h₄⟩ := h
  unfold otherOf
  rcases otherOf_eq_some hp with rfl | rfl
  · rw [if_neg (Ne.symm h₁), if_neg (Ne.symm h₂)]
  · rw [if_neg (Ne.symm h₃), if_neg (Ne.symm h₄)]

theorem otherOf_left (k m : Nat) : otherOf k (k, m) = some m := if_pos rfl

theorem otherOf_right {k m : Nat} (h : m ≠ k) : otherOf k (m, k) = some m := by
  rw [otherOf, if_neg h, if_pos rfl]

/-- Two positions are mates iff they are one of the pairs. -/
theorem mate?_eq_some_iff {ps : List (Nat × Nat)} (hps : ps.Pairwise Separate)
    (hlt : ∀ p ∈ ps, p.1 < p.2) (k m : Nat) :
    mate? ps k = some m ↔ (k, m) ∈ ps ∨ (m, k) ∈ ps := by
  constructor
  · intro h
    obtain ⟨p, hp, hpk⟩ := List.exists_of_findSome?_eq_some h
    rcases otherOf_eq_some hpk with rfl | rfl
    · exact Or.inl hp
    · exact Or.inr hp
  · intro h
    obtain ⟨p, hp, hpk⟩ : ∃ p ∈ ps, otherOf k p = some m := by
      rcases h with h | h
      · exact ⟨_, h, otherOf_left k m⟩
      · exact ⟨_, h, otherOf_right (Nat.ne_of_lt (hlt _ h))⟩
    cases hm : mate? ps k with
    | none => rw [List.findSome?_eq_none_iff.1 hm p hp] at hpk; cases hpk
    | some m' =>
      obtain ⟨q, hq, hqk⟩ := List.exists_of_findSome?_eq_some hm
      -- two different pairs would share `k`
      by_cases hpq : p = q
      · rw [← hpk, ← hqk, hpq]
      · rw [otherOf_none_of_separate (hps.forall hp hq hpq) hpk] at hqk
        cases hqk

theorem link_getElem? (ts : Array Token) (p : Nat × Nat) (hp : p.1 ≠ p.2) (k : Nat) :
    (link ts p)[k]? = ts[k]?.map fun t => { t with partner := (otherOf k p).or t.partner } := by
  unfold link otherOf
  rw [Array.getElem?_modify, Array.getElem?_modify]
  by_cases h₁ : p.1 = k
  · rw [if_pos h₁, if_neg (by omega), if_pos h₁]
    rfl
  · by_cases h₂ : p.2 = k
    · rw [if_neg h₁, if_pos h₂, if_neg h₁, if_pos h₂]
      rfl
    · rw [if_neg h₁, if_neg h₂, if_neg h₁, if_neg h₂]
      simp

/-- After a list of pairs that share no position has been recorded, every token has its mate. -/
theorem foldl_link_getElem? {ps : List (Nat × Nat)} (hps : ps.Pairwise Separate)
    (hlt : ∀ p ∈ ps, p.1 < p.2) (ts : Array Token) (k : Nat) :
    (ps.foldl link ts)[k]? =
      ts[k]?.map fun t => { t with partner := (mate? ps k).or t.partner } := by
  induction ps generalizing ts with
  | nil => simp [mate?]
  | cons p ps ih =>
    obtain ⟨hsep, hps⟩ := List.pairwise_cons.1 hps
    rw [List.foldl_cons, ih hps (fun q hq => hlt q (List.mem_cons_of_mem _ hq)),
      link_getElem? ts p (Nat.ne_of_lt (hlt p List.mem_cons_self)), Option.map_map]
    congr 1
    funext t
    unfold mate?
    rw [List.findSome?_cons]
    cases hp : otherOf k p with
    | none => simp
    | some m =>
      have hnone : ps.findSome? (otherOf k) = none :=
        List.findSome?_eq_none_iff.2 fun q hq => otherOf_none_of_separate (hsep q hq) hp
      simp [hnone]

/-- The partner recorded at a token is its mate in the pairs of brackets. -/
theorem linkBrackets_getElem? (ts : Array Token) (k : Nat) :
    (linkBrackets ts)[k]? = ts[k]?.map fun t =>
      { t with partner := (mate? (bracketPairs ts.toList) k).or t.partner } :=
  foldl_link_getElem? (bracketPairs_separate _) (fun _ => lt_of_mem_bracketPairs) ts k

/-! ## What is recorded -/

/-- The tokens with partners recorded at brackets and owners at parentheses. -/
def linked (ts : List Token) : Array Token := ownParens (linkBrackets ts.toArray)

/-- The partner that is recorded at a position. -/
def partnerOf (ts : Array Token) (i : Nat) : Option Nat := ts[i]?.bind Token.partner

/-- The owner of a parenthesis that is recorded at a position. -/
def ownerOf (ts : Array Token) (i : Nat) : Option Nat := ts[i]?.bind Token.parenOwner

end Vintage
