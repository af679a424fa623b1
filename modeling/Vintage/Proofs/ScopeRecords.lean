import Vintage.Proofs.BracketPairs

/-!
# Recorded scopes

The scopes of a list of tokens are found by going through the pairs of braces in the order in which
they open and giving each a keyword before it that owns no block yet. Whatever the tokens are, two
scopes share no token and their blocks do not cross.

Results:
* `Scope.findAll_placed`: a scope is a keyword before a pair of braces.
* `Scope.findAll_ordered`: the scopes open one after the other, have different owners and do not
  cross.
* `markScopes_getElem?`, `scopeAt?_eq_some_iff`: a scope is recorded at its three tokens and nowhere
  else.
-/

namespace Vintage

/-! ## Owners -/

/-- The owner that the search finds stands before the block, may own one and owns no other. -/
theorem scopeOwner?_eq_some {ts : Array Token} {taken : List Nat} {resume i o : Nat}
    (h : scopeOwner? ts taken resume i = some o) :
    o < i ∧ o ∉ taken ∧ ∃ t, ts[o]? = some t ∧ t.kind.ownsScope = true := by
  induction i generalizing resume with
  | zero => cases h
  | succ i ih =>
    have step {resume : Nat} (h : scopeOwner? ts taken resume i = some o) :
        o < i + 1 ∧ o ∉ taken ∧ ∃ t, ts[o]? = some t ∧ t.kind.ownsScope = true :=
      ⟨Nat.lt_succ_of_lt (ih h).1, (ih h).2⟩
    rw [scopeOwner?] at h
    split at h
    · exact step h
    · split at h
      · cases h
      · rename_i t ht
        split at h
        · cases h
        · split at h
          · split at h
            · exact step h
            · cases h
          · split at h
            · rename_i howns
              cases h
              rw [Bool.and_eq_true, Bool.not_eq_true', List.contains_eq_mem,
                decide_eq_false_iff_not] at howns
              exact ⟨Nat.lt_succ_self _, howns.2, t, ht, howns.1⟩
            · exact step h

namespace Scope

/-- The braces of a scope. -/
def braces (s : Scope) : Nat × Nat := (s.opener, s.closer)

/-- The position is one of the scope's three tokens. -/
def touches (k : Nat) (s : Scope) : Bool := s.owner == k || s.opener == k || s.closer == k

theorem touches_iff {k : Nat} {s : Scope} :
    s.touches k = true ↔ s.owner = k ∨ s.opener = k ∨ s.closer = k := by
  simp [touches, or_assoc]

/-- The scope's owner may own a block and stands before the scope's braces, which are a pair. -/
structure Placed (ts : Array Token) (s : Scope) : Prop where
  owner_lt : s.owner < s.opener
  owner_kind : ∃ t, ts[s.owner]? = some t ∧ t.kind.ownsScope = true
  paired : s.braces ∈ Bracket.curly.pairs ts.toList

/-- The two scopes open one after the other, have different owners and do not cross. -/
structure Ordered (s s' : Scope) : Prop where
  opener_lt : s.opener < s'.opener
  owner_ne : s.owner ≠ s'.owner
  apart : Apart s.braces s'.braces

/-! ## The order of the braces -/

theorem mem_openedBraces {ts : Array Token} {p : Nat × Nat} :
    p ∈ openedBraces ts ↔ p ∈ Bracket.curly.pairs ts.toList :=
  List.mem_mergeSort

theorem lt_size_of_mem_openedBraces {ts : Array Token} {p : Nat × Nat} (hp : p ∈ openedBraces ts) :
    p.1 < ts.size := by
  obtain ⟨-, hopen, -⟩ := Bracket.curly.kind_of_mem_pairs (mem_openedBraces.1 hp)
  obtain ⟨t, ht, -⟩ := Option.map_eq_some_iff.1 hopen
  exact (List.getElem?_eq_some_iff.1 ht).1

theorem openedBraces_ascending (ts : Array Token) :
    (openedBraces ts).Pairwise fun p q => p.1 < q.1 ∧ Apart p q := by
  have hperm : (openedBraces ts).Perm (Bracket.curly.pairs ts.toList) := List.mergeSort_perm _ _
  have hapart : (openedBraces ts).Pairwise Apart :=
    (hperm.pairwise_iff fun h => symm h).2 (Bracket.curly.pairs_apart ts.toList)
  have hle : (openedBraces ts).Pairwise fun p q => decide (p.1 ≤ q.1) = true := by
    refine List.pairwise_mergeSort ?_ ?_ _
    · intro p q r hpq hqr
      simp only [decide_eq_true_eq] at hpq hqr ⊢
      omega
    · intro p q
      simp only [Bool.or_eq_true, decide_eq_true_eq]
      omega
  refine (hapart.and hle).imp_of_mem ?_
  rintro p q hp hq ⟨ha, h⟩
  have hsep := ha.separate (Bracket.curly.kind_of_mem_pairs (mem_openedBraces.1 hp)).1
    (Bracket.curly.kind_of_mem_pairs (mem_openedBraces.1 hq)).1
  exact ⟨Nat.lt_of_le_of_ne (of_decide_eq_true h) hsep.1, ha⟩

/-! ## The scopes -/

/-- Each pair of braces gives at most one scope. -/
theorem findFrom_sublist (ts : Array Token) (taken : List Nat) (ps : List (Nat × Nat)) :
    ((findFrom ts taken ps).map braces).Sublist ps := by
  induction ps generalizing taken with
  | nil => exact List.Sublist.slnil
  | cons p ps ih =>
    rw [findFrom]
    split
    · exact (ih _).cons_cons _
    · exact (ih _).cons _

theorem findFrom_owner {ts : Array Token} {taken : List Nat} {ps : List (Nat × Nat)} {s : Scope}
    (hs : s ∈ findFrom ts taken ps) :
    s.owner < s.opener ∧ s.owner ∉ taken ∧
      ∃ t, ts[s.owner]? = some t ∧ t.kind.ownsScope = true := by
  induction ps generalizing taken with
  | nil => cases hs
  | cons p ps ih =>
    rw [findFrom] at hs
    split at hs
    · rename_i o ho
      rcases List.mem_cons.1 hs with rfl | hs
      · exact scopeOwner?_eq_some ho
      · obtain ⟨hlt, htaken, hkind⟩ := ih hs
        exact ⟨hlt, fun h => htaken (List.mem_cons_of_mem _ h), hkind⟩
    · exact ih hs

theorem findFrom_owner_ne (ts : Array Token) (taken : List Nat) (ps : List (Nat × Nat)) :
    (findFrom ts taken ps).Pairwise fun s s' => s.owner ≠ s'.owner := by
  induction ps generalizing taken with
  | nil => exact List.Pairwise.nil
  | cons p ps ih =>
    rw [findFrom]
    split
    · rename_i o ho
      refine List.pairwise_cons.2 ⟨?_, ih _⟩
      intro s hs he
      exact (findFrom_owner hs).2.1 (List.mem_cons.2 (Or.inl he.symm))
    · exact ih _

theorem findAll_placed {ts : Array Token} {s : Scope} (hs : s ∈ findAll ts) : s.Placed ts where
  owner_lt := (findFrom_owner hs).1
  owner_kind := (findFrom_owner hs).2.2
  paired := mem_openedBraces.1
    ((findFrom_sublist ts [] (openedBraces ts)).subset (List.mem_map_of_mem hs))

theorem findAll_ordered (ts : Array Token) : (findAll ts).Pairwise Ordered := by
  have hbraces : (findAll ts).Pairwise fun s s' =>
      s.opener < s'.opener ∧ Apart s.braces s'.braces :=
    List.pairwise_map.1 ((openedBraces_ascending ts).sublist (findFrom_sublist ts [] _))
  refine ((findFrom_owner_ne ts [] (openedBraces ts)).and hbraces).imp ?_
  rintro s s' ⟨hne, hlt, hapart⟩
  exact ⟨hlt, hne, hapart⟩

theorem findAll_apart {ts : Array Token} {s s' : Scope} (hs : s ∈ findAll ts)
    (hs' : s' ∈ findAll ts) (hne : s ≠ s') : Apart s.braces s'.braces := by
  have : Std.Symm fun s s' : Scope => Apart s.braces s'.braces := ⟨fun _ _ h => symm h⟩
  exact ((findAll_ordered ts).imp Ordered.apart).forall hs hs' hne

namespace Placed

variable {ts : Array Token} {s s' : Scope}

theorem opener_lt_closer (h : s.Placed ts) : s.opener < s.closer :=
  (Bracket.curly.kind_of_mem_pairs h.paired).1

theorem opener_kind (h : s.Placed ts) : ts[s.opener]?.map Token.kind = some .openBrace := by
  rw [← Array.getElem?_toList]
  exact (Bracket.curly.kind_of_mem_pairs h.paired).2.1

theorem closer_kind (h : s.Placed ts) : ts[s.closer]?.map Token.kind = some .closeBrace := by
  rw [← Array.getElem?_toList]
  exact (Bracket.curly.kind_of_mem_pairs h.paired).2.2

/-- An owner is no brace. -/
theorem owner_ne_brace (h : s.Placed ts) {k : Nat}
    (hk : ts[k]?.map Token.kind = some .openBrace ∨ ts[k]?.map Token.kind = some .closeBrace) :
    s.owner ≠ k := by
  obtain ⟨t, ht, howns⟩ := h.owner_kind
  rintro rfl
  rw [ht, Option.map_some, Option.some_inj, Option.some_inj] at hk
  rcases hk with hk | hk <;> rw [hk] at howns <;> cases howns

end Placed

/-- The two scopes share no token. -/
def Disjoint (s s' : Scope) : Prop := ∀ k, s.touches k = true → s'.touches k = false

instance : Std.Symm Disjoint where
  symm s s' h k hk := by
    cases hs : s.touches k with
    | false => rfl
    | true => rw [h k hs] at hk; cases hk

theorem Ordered.disjoint {ts : Array Token} {s s' : Scope} (ho : s.Ordered s') (h : s.Placed ts)
    (h' : s'.Placed ts) : s.Disjoint s' := by
  intro k hk
  have hsep := ho.apart.separate h.opener_lt_closer h'.opener_lt_closer
  have hne := ho.owner_ne
  have h₁ := h.owner_ne_brace (Or.inl h'.opener_kind)
  have h₂ := h.owner_ne_brace (Or.inr h'.closer_kind)
  have h₃ := h'.owner_ne_brace (Or.inl h.opener_kind)
  have h₄ := h'.owner_ne_brace (Or.inr h.closer_kind)
  rw [touches_iff] at hk
  rw [← Bool.not_eq_true, touches_iff]
  simp only [Separate, braces] at hsep
  rcases hk with rfl | rfl | rfl <;> rintro (hk' | hk' | hk') <;> omega

theorem findAll_disjoint (ts : Array Token) : (findAll ts).Pairwise Disjoint :=
  (findAll_ordered ts).imp_of_mem fun hs hs' ho =>
    ho.disjoint (findAll_placed hs) (findAll_placed hs')

/-- A token belongs to at most one scope. -/
theorem eq_of_touches {ts : Array Token} {s s' : Scope} (hs : s ∈ findAll ts)
    (hs' : s' ∈ findAll ts) {k : Nat} (hk : s.touches k = true) (hk' : s'.touches k = true) :
    s = s' := by
  by_contra hne
  rw [(findAll_disjoint ts).forall hs hs' hne k hk] at hk'
  cases hk'

end Scope

/-! ## Recording the scopes -/

theorem markScope_getElem? (ts : Array Token) (s : Scope) (k : Nat) :
    (markScope ts s)[k]? =
      ts[k]?.map fun t => if s.touches k = true then { t with scope := some s } else t := by
  unfold markScope
  rw [Array.getElem?_modify, Array.getElem?_modify, Array.getElem?_modify]
  by_cases h : s.touches k = true
  · rw [funext fun t => if_pos h]
    rw [Scope.touches_iff] at h
    by_cases h₁ : s.owner = k <;> by_cases h₂ : s.opener = k <;> by_cases h₃ : s.closer = k
    all_goals first | omega | simp [h₁, h₂, h₃, Function.comp_def]
  · rw [funext fun t => if_neg h]
    rw [Scope.touches_iff] at h
    rw [if_neg (by omega), if_neg (by omega), if_neg (by omega)]
    simp

/-- Of the scopes that have a token at `k`, the last one stays recorded. -/
theorem foldl_markScope_getElem? (scopes : List Scope) (ts : Array Token) (k : Nat) :
    (scopes.foldl markScope ts)[k]? = ts[k]?.map fun t =>
      { t with scope := (scopes.reverse.find? (Scope.touches k)).or t.scope } := by
  induction scopes generalizing ts with
  | nil => simp
  | cons s scopes ih =>
    rw [List.foldl_cons, ih, markScope_getElem?, Option.map_map, List.reverse_cons,
      List.find?_append]
    congr 1
    funext t
    by_cases h : s.touches k = true
    · simp [h]
    · simp [h]

/-- The scope that has a token at `k`. -/
def scopeAt? (ts : Array Token) (k : Nat) : Option Scope :=
  (Scope.findAll ts).reverse.find? (Scope.touches k)

theorem scopeAt?_eq_some_iff {ts : Array Token} {k : Nat} {s : Scope} :
    scopeAt? ts k = some s ↔ s ∈ Scope.findAll ts ∧ s.touches k = true := by
  constructor
  · intro h
    exact ⟨List.mem_reverse.1 (List.mem_of_find?_eq_some h), List.find?_some h⟩
  · rintro ⟨hs, hk⟩
    cases h : scopeAt? ts k with
    | none => exact absurd hk (List.find?_eq_none.1 h s (List.mem_reverse.2 hs))
    | some s' =>
      have hs' : s' ∈ Scope.findAll ts := List.mem_reverse.1 (List.mem_of_find?_eq_some h)
      rw [Scope.eq_of_touches hs hs' hk (List.find?_some h)]

theorem markScopes_getElem? (ts : Array Token) (k : Nat) :
    (markScopes ts)[k]? = ts[k]?.map fun t => { t with scope := (scopeAt? ts k).or t.scope } :=
  foldl_markScope_getElem? (Scope.findAll ts) ts k

/-- In tokens without scopes, a token gets the scope that it belongs to. -/
theorem markScopes_of_none {ts : Array Token}
    (hts : ∀ (k : Nat) (t : Token), ts[k]? = some t → t.scope = none) (k : Nat) :
    (markScopes ts)[k]? = ts[k]?.map fun t => { t with scope := scopeAt? ts k } := by
  rw [markScopes_getElem?]
  cases ht : ts[k]? with
  | none => rfl
  | some t => rw [Option.map_some, Option.map_some, hts k t ht, Option.or_none]

end Vintage
