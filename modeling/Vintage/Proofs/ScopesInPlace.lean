import Vintage.Proofs.NameBraces

/-!
# Scopes recorded in place

The scopes of a list of tokens are found from the pairs of its braces, and a list of the keywords
that own a block already is kept beside the tokens. One pass over the tokens can do with what is
recorded at them: the partner of a brace is the other brace, and a keyword with a scope owns a block
already. In linked tokens both ways give the same scopes.

Results:
* `Records.freeOwner?_eq`: the search for an owner, by the scopes that are recorded so far.
* `Records.foldl_assignScope`: the pass from an index on.
* `assignScopes_linked`, `withStructure_in_place`: the pass over linked tokens.
-/

namespace Vintage

/-! ## The pass -/

/-- The keyword that owns a block, searched backwards among the tokens before index `i`. Tokens
from index `resume` on are passed over: they stand in parentheses. A keyword at which a scope is
recorded already owns a block. -/
def freeOwner? (ts : Array Token) (resume : Nat) : Nat → Option Nat
  | 0 => none
  | i + 1 =>
    if resume ≤ i then freeOwner? ts resume i
    else
      match ts[i]? with
      | none => none
      | some t =>
        if endsOwnerSearch t.kind then none
        else if t.kind = .closeParen then
          match t.partner with
          | some o => freeOwner? ts o i
          | none => none
        else if t.kind.ownsScope && t.scope.isNone then some i
        else freeOwner? ts resume i

/-- Records the scope that opens at an index, if a brace opens there that has a partner and an
owner. -/
def assignScope (ts : Array Token) (i : Nat) : Array Token :=
  match ts[i]? with
  | none => ts
  | some t =>
    if t.kind = .openBrace then
      match t.partner, freeOwner? ts i i with
      | some closer, some owner => markScope ts { owner, opener := i, closer }
      | _, _ => ts
    else ts

/-- Records all scopes, in one pass over the tokens. -/
def assignScopes (ts : Array Token) : Array Token := (List.range' 0 ts.size).foldl assignScope ts

/-! ## Pairs from an index on -/

/-- In a list that ascends, the pairs from an index on start with the pair of that index, if there
is one. -/
theorem filter_from_index {ps : List (Nat × Nat)} (hps : ps.Pairwise fun p q => p.1 < q.1)
    (i : Nat) :
    (∃ c, (i, c) ∈ ps ∧
        ps.filter (fun p => i ≤ p.1) = (i, c) :: ps.filter fun p => i + 1 ≤ p.1) ∨
      (∀ c, (i, c) ∉ ps) ∧ ps.filter (fun p => i ≤ p.1) = ps.filter fun p => i + 1 ≤ p.1 := by
  induction ps with
  | nil => exact Or.inr ⟨fun _ => List.not_mem_nil, rfl⟩
  | cons p ps ih =>
    obtain ⟨hp, hps⟩ := List.pairwise_cons.1 hps
    -- behind the index the two conditions are one
    have hbehind (h : i ≤ p.1) :
        ps.filter (fun q => i ≤ q.1) = ps.filter fun q => i + 1 ≤ q.1 := by
      refine List.filter_congr fun q hq => decide_eq_decide.2 ?_
      have := hp q hq
      omega
    rcases Nat.lt_trichotomy p.1 i with hlt | heq | hgt
    · rw [List.filter_cons_of_neg (by simpa using hlt),
        List.filter_cons_of_neg (by simp only [decide_eq_true_eq]; omega)]
      have hmem (c : Nat) : (i, c) ∈ p :: ps ↔ (i, c) ∈ ps :=
        List.mem_cons.trans (or_iff_right fun he => Nat.ne_of_lt hlt (congrArg Prod.fst he).symm)
      simpa only [hmem] using ih hps
    · refine Or.inl ⟨p.2, ?_, ?_⟩
      · rw [← heq]
        exact List.mem_cons_self
      · rw [List.filter_cons_of_pos (by simp [heq]), hbehind (Nat.le_of_eq heq.symm),
          List.filter_cons_of_neg (by simp [heq]), ← heq]
    · refine Or.inr ⟨fun c hc => ?_, ?_⟩
      · rcases List.mem_cons.1 hc with rfl | hc
        · exact Nat.lt_irrefl _ hgt
        · exact Nat.lt_asymm hgt (hp _ hc)
      · rw [List.filter_cons_of_pos (by simp only [decide_eq_true_eq]; omega),
          List.filter_cons_of_pos (by simp only [decide_eq_true_eq]; omega),
          hbehind (Nat.le_of_lt hgt)]

/-! ## One step -/

/-- The scopes in `us` are recorded at tokens of `ts`: kinds and partners are those of `ts`, and the
keywords with a scope are those that are taken. -/
structure Records (ts : Array Token) (taken : List Nat) (us : Array Token) : Prop where
  links : SameLinks ts us
  taken_iff : ∀ (k : Nat) (t : Token), us[k]? = some t → t.kind.ownsScope = true →
    (t.scope.isNone = true ↔ k ∉ taken)

theorem records_nil {ts : Array Token}
    (hts : ∀ (k : Nat) (t : Token), ts[k]? = some t → t.scope = none) : Records ts [] ts where
  links _ := rfl
  taken_iff k t ht _ := by simp [hts k t ht]

namespace Records

variable {ts us : Array Token} {taken : List Nat}

/-- The search reads at a token what the list of taken keywords says of it. -/
theorem freeOwner?_eq (h : Records ts taken us) (resume i : Nat) :
    freeOwner? us resume i = scopeOwner? ts taken resume i := by
  induction i generalizing resume with
  | zero => rfl
  | succ i ih =>
    rw [freeOwner?, scopeOwner?]
    simp only [ih]
    cases ht : ts[i]? with
    | none =>
      have hu := h.links i
      rw [ht, Option.map_none, Option.map_eq_none_iff] at hu
      rw [hu]
    | some t =>
      obtain ⟨u, hu, hkind, hpartner⟩ := h.links.exists_token ht
      have hfree : (t.kind.ownsScope && u.scope.isNone) =
          (t.kind.ownsScope && !taken.contains i) := by
        cases howns : t.kind.ownsScope with
        | false => rfl
        | true =>
          rw [Bool.true_and, Bool.true_and, Bool.eq_iff_iff, h.taken_iff i u hu (hkind ▸ howns)]
          simp
      cases hclosed : t.partner <;> simp only [hu, hkind, hpartner, hfree, hclosed]

/-- Recording a scope takes its owner: the braces of a scope are no keywords. -/
theorem markScope (h : Records ts taken us) {s : Scope} (hs : s.Placed ts) :
    Records ts (s.owner :: taken) (markScope us s) where
  links := h.links.trans (.of_map (markScope_getElem? us s) fun k t => by
    split <;> exact ⟨rfl, rfl⟩)
  taken_iff := by
    intro k t ht howns
    rw [markScope_getElem?] at ht
    obtain ⟨u, hu, rfl⟩ := Option.map_eq_some_iff.1 ht
    have hkind : u.kind.ownsScope = true := by split at howns <;> exact howns
    have hbrace {kind : TokenKind} (hk : ts[k]?.map Token.kind = some kind) :
        kind.ownsScope = true := by
      rw [← h.links.kind_eq, hu, Option.map_some, Option.some.injEq] at hk
      rwa [← hk]
    by_cases hk : s.touches k = true
    · rw [if_pos hk]
      rcases Scope.touches_iff.1 hk with rfl | rfl | rfl
      · simp
      · cases hbrace hs.opener_kind
      · cases hbrace hs.closer_kind
    · have hne : ¬ k = s.owner := fun he => hk (Scope.touches_iff.2 (Or.inl he.symm))
      rw [if_neg hk, h.taken_iff k u hu hkind, List.mem_cons, not_or, and_iff_right hne]

variable (hpairs : ∀ o c, (o, c) ∈ Bracket.curly.pairs ts.toList ↔
  Bracket.curly.OpensAt ts.toList o ∧ partnerOf ts o = some c)
include hpairs

/-- A brace that is paired gets its scope. -/
theorem assignScope_paired (h : Records ts taken us) {i c : Nat}
    (hpair : (i, c) ∈ Bracket.curly.pairs ts.toList) :
    assignScope us i = match scopeOwner? ts taken i i with
      | some owner => Vintage.markScope us { owner, opener := i, closer := c }
      | none => us := by
  obtain ⟨hopen, hpartner⟩ := (hpairs i c).1 hpair
  rw [← h.links.partnerOf_eq, partnerOf] at hpartner
  rw [← h.links.opensAt_iff, Bracket.OpensAt, Array.getElem?_toList] at hopen
  obtain ⟨u, hu, hkind⟩ := Option.map_eq_some_iff.1 hopen
  rw [hu, Option.bind_some] at hpartner
  have hbrace : u.kind = .openBrace := hkind
  rw [assignScope, hu]
  simp only [hbrace, if_true, hpartner, h.freeOwner?_eq]
  cases scopeOwner? ts taken i i <;> rfl

/-- No other token gets one. -/
theorem assignScope_unpaired (h : Records ts taken us) {i : Nat}
    (hnone : ∀ c, (i, c) ∉ Bracket.curly.pairs ts.toList) : assignScope us i = us := by
  unfold assignScope
  split
  · rfl
  · rename_i u hu
    split
    · rename_i hkind
      have hpartner : u.partner = none := by
        refine Option.eq_none_iff_forall_ne_some.2 fun c hc => hnone c ((hpairs i c).2 ⟨?_, ?_⟩)
        · rw [← h.links.opensAt_iff, Bracket.OpensAt, Array.getElem?_toList, hu, Option.map_some,
            hkind]
          rfl
        · rw [← h.links.partnerOf_eq, partnerOf, hu, Option.bind_some, hc]
      rw [hpartner]
    · rfl

/-! ## The whole pass -/

/-- The pass from an index on finds the scopes of the braces from there on. -/
theorem foldl_assignScope (h : Records ts taken us) {i n : Nat} (hn : i + n = ts.size) :
    (List.range' i n).foldl assignScope us =
      (Scope.findFrom ts taken ((openedBraces ts).filter fun p => i ≤ p.1)).foldl
        Vintage.markScope us := by
  have hascending := (Scope.openedBraces_ascending ts).imp And.left
  induction n generalizing i taken us with
  | zero =>
    have hnone : (openedBraces ts).filter (fun p => i ≤ p.1) = [] := by
      refine List.filter_eq_nil_iff.2 fun p hp hle => ?_
      have hlt := Scope.lt_size_of_mem_openedBraces hp
      have := of_decide_eq_true hle
      omega
    rw [hnone]
    rfl
  | succ n ih =>
    have hrest : i + 1 + n = ts.size := by omega
    rw [List.range'_succ, List.foldl_cons]
    rcases filter_from_index hascending i with ⟨c, hmem, hfilter⟩ | ⟨hnone, hfilter⟩
    · have hpair := Scope.mem_openedBraces.1 hmem
      rw [hfilter, Scope.findFrom, h.assignScope_paired hpairs hpair]
      cases howner : scopeOwner? ts taken i i with
      | none => exact ih h hrest
      | some w =>
        obtain ⟨hlt, -, hkind⟩ := scopeOwner?_eq_some howner
        have hplaced : Scope.Placed ts ⟨w, i, c⟩ := ⟨hlt, hkind, hpair⟩
        exact ih (h.markScope hplaced) hrest
    · rw [hfilter, h.assignScope_unpaired hpairs fun c hc => hnone c (Scope.mem_openedBraces.2 hc)]
      exact ih h hrest

end Records

/-- In linked tokens, the pass over the tokens records the scopes that are found from the pairs of
braces. -/
theorem assignScopes_linked {ts : List Token}
    (hts : ∀ t ∈ ts, t.partner = none ∧ t.scope = none) :
    assignScopes (linked ts) = markScopes (linked ts) := by
  have hpartner : ∀ t ∈ ts, t.partner = none := fun t ht => (hts t ht).1
  have hscope : ∀ t ∈ ts, t.scope = none := fun t ht => (hts t ht).2
  have hall : (openedBraces (linked ts)).filter (fun p => 0 ≤ p.1) = openedBraces (linked ts) :=
    List.filter_eq_self.2 fun p _ => decide_eq_true (Nat.zero_le p.1)
  have hpass := (records_nil (scope_linked hscope)).foldl_assignScope
    (mem_pairs_linked_iff hpartner .curly) (Nat.zero_add (linked ts).size)
  rwa [hall] at hpass

/-- The structure of bare tokens is that which the pass over them records. -/
theorem withStructure_in_place {ts : List Token}
    (hts : ∀ t ∈ ts, t.partner = none ∧ t.scope = none) :
    withStructure ts = surround (assignScopes (linked (settleNames ts))) := by
  rw [assignScopes_linked (unlinked_settleNames hts)]
  rfl

end Vintage
