import Vintage.Proofs.LinkedBrackets

/-!
# Owners of blocks

The keyword that owns a block is searched backwards from its brace. A closing parenthesis on the way
is followed to its partner, so the search ends because partners of closing parentheses stand before
them. Parentheses may be linked across braces in tokens that are not well nested.

Results:
* `OwnerSearch`: the search as a relation, one rule for each thing that a token may do to it.
* `exists_ownerSearch`, `OwnerSearch.unique`: the search ends, with one result.
* `scopeOwner?_eq_iff`: the result is the one that is computed.
* `Scope.mem_findAll_iff`: the scopes are the linked braces for which the search finds an owner.
* `markScopes_wellScoped`: what is recorded at tokens, and how the recorded scopes lie.
-/

namespace Vintage

/-! ## The search -/

/-- The search for an owner goes on past a token of the given kind at position `i`: a keyword that
owns a block already is like any other token. -/
structure Passes (taken : Nat → Prop) (i : Nat) (kind : TokenKind) : Prop where
  not_barrier : endsOwnerSearch kind = false
  not_closeParen : kind ≠ .closeParen
  not_free : kind.ownsScope = true → taken i

/-- The search for an owner among the tokens before a position, and what it finds. -/
inductive OwnerSearch (ts : Array Token) (taken : Nat → Prop) : Nat → Option Nat → Prop
  | start : OwnerSearch ts taken 0 none
  | barrier {i : Nat} {t : Token} (ht : ts[i]? = some t) (h : endsOwnerSearch t.kind = true) :
      OwnerSearch ts taken (i + 1) none
  | unopened {i : Nat} {t : Token} (ht : ts[i]? = some t) (hkind : t.kind = .closeParen)
      (h : t.partner = none) : OwnerSearch ts taken (i + 1) none
  | jump {i o : Nat} {t : Token} {r : Option Nat} (ht : ts[i]? = some t)
      (hkind : t.kind = .closeParen) (h : t.partner = some o) (rest : OwnerSearch ts taken o r) :
      OwnerSearch ts taken (i + 1) r
  | found {i : Nat} {t : Token} (ht : ts[i]? = some t) (howns : t.kind.ownsScope = true)
      (hfree : ¬ taken i) : OwnerSearch ts taken (i + 1) (some i)
  | pass {i : Nat} {t : Token} {r : Option Nat} (ht : ts[i]? = some t) (h : Passes taken i t.kind)
      (rest : OwnerSearch ts taken i r) : OwnerSearch ts taken (i + 1) r

/-- A closing parenthesis that has a partner stands after it. -/
def ClosesBackwards (ts : Array Token) : Prop :=
  ∀ (i o : Nat) (t : Token), ts[i]? = some t → t.kind = .closeParen → t.partner = some o → o < i

theorem not_barrier_of_ownsScope {kind : TokenKind} (h : kind.ownsScope = true) :
    endsOwnerSearch kind = false ∧ kind ≠ .closeParen := by
  cases kind <;> first | decide | cases h

/-- What a token does to the search. -/
theorem passes_or (taken : Nat → Prop) (i : Nat) (kind : TokenKind) :
    endsOwnerSearch kind = true ∨ kind = .closeParen ∨
      kind.ownsScope = true ∧ ¬ taken i ∨ Passes taken i kind := by
  by_cases hends : endsOwnerSearch kind = true
  · exact Or.inl hends
  by_cases hkind : kind = .closeParen
  · exact Or.inr (Or.inl hkind)
  by_cases hfree : kind.ownsScope = true ∧ ¬ taken i
  · exact Or.inr (Or.inr (Or.inl hfree))
  refine Or.inr (Or.inr (Or.inr ⟨by simpa using hends, hkind, fun howns => ?_⟩))
  exact Classical.byContradiction fun htaken => hfree ⟨howns, htaken⟩

section

variable {ts : Array Token}

/-- The search ends: it goes on from a smaller position each time. -/
theorem exists_ownerSearch (hts : ClosesBackwards ts) (taken : Nat → Prop) {i : Nat}
    (hi : i ≤ ts.size) : ∃ r, OwnerSearch ts taken i r := by
  induction i using Nat.strong_induction_on with
  | _ i ih =>
    cases i with
    | zero => exact ⟨none, .start⟩
    | succ i =>
      have ht : ts[i]? = some ts[i] := Array.getElem?_eq_getElem hi
      rcases passes_or taken i ts[i].kind with hends | hkind | ⟨howns, hfree⟩ | hpass
      · exact ⟨none, .barrier ht hends⟩
      · cases hpartner : ts[i].partner with
        | none => exact ⟨none, .unopened ht hkind hpartner⟩
        | some o =>
          have ho := hts i o _ ht hkind hpartner
          obtain ⟨r, hr⟩ := ih o (by omega) (by omega)
          exact ⟨r, .jump ht hkind hpartner hr⟩
      · exact ⟨some i, .found ht howns hfree⟩
      · obtain ⟨r, hr⟩ := ih i (Nat.lt_succ_self i) (by omega)
        exact ⟨r, .pass ht hpass hr⟩

/-- At most one rule applies to a token. -/
theorem OwnerSearch.unique {taken : Nat → Prop} {i : Nat} {r r' : Option Nat}
    (h : OwnerSearch ts taken i r) (h' : OwnerSearch ts taken i r') : r = r' := by
  have hbarrier : endsOwnerSearch .closeParen = false := rfl
  have howner : TokenKind.ownsScope .closeParen = false := rfl
  induction h generalizing r' with
  | start => cases h'; rfl
  | barrier => cases h' <;> grind [not_barrier_of_ownsScope, cases Passes]
  | unopened => cases h' <;> grind [cases Passes]
  | jump => cases h' <;> grind [cases Passes]
  | found => cases h' <;> grind [not_barrier_of_ownsScope, cases Passes]
  | pass => cases h' <;> grind [cases Passes]

end

/-! ## Arrays with the same links -/

/-- The two arrays agree in the kinds and partners of their tokens. -/
def SameLinks (ts us : Array Token) : Prop :=
  ∀ k : Nat, us[k]?.map (fun t => (t.kind, t.partner)) = ts[k]?.map fun t => (t.kind, t.partner)

namespace SameLinks

variable {ts us : Array Token}

theorem of_map {f : Nat → Token → Token} (hus : ∀ k : Nat, us[k]? = ts[k]?.map (f k))
    (hf : ∀ k t, (f k t).kind = t.kind ∧ (f k t).partner = t.partner) : SameLinks ts us := by
  intro k
  rw [hus, Option.map_map]
  congr 1
  funext t
  exact Prod.ext (hf k t).1 (hf k t).2

theorem symm (h : SameLinks ts us) : SameLinks us ts := fun k => (h k).symm

theorem trans {vs : Array Token} (h : SameLinks ts us) (h' : SameLinks us vs) : SameLinks ts vs :=
  fun k => (h' k).trans (h k)

theorem exists_token (h : SameLinks ts us) {k : Nat} {t : Token} (ht : ts[k]? = some t) :
    ∃ u, us[k]? = some u ∧ u.kind = t.kind ∧ u.partner = t.partner := by
  have hk := h k
  rw [ht, Option.map_some, Option.map_eq_some_iff] at hk
  obtain ⟨u, hu, he⟩ := hk
  exact ⟨u, hu, congrArg Prod.fst he, congrArg Prod.snd he⟩

theorem kind_eq (h : SameLinks ts us) (k : Nat) :
    us[k]?.map Token.kind = ts[k]?.map Token.kind := by
  have hk := congrArg (Option.map Prod.fst) (h k)
  rwa [Option.map_map, Option.map_map] at hk

theorem partnerOf_eq (h : SameLinks ts us) (k : Nat) : partnerOf us k = partnerOf ts k := by
  have hk := congrArg (Option.bind · Prod.snd) (h k)
  simpa only [Option.bind_map] using! hk

theorem opensAt_iff (h : SameLinks ts us) (b : Bracket) (k : Nat) :
    b.OpensAt us.toList k ↔ b.OpensAt ts.toList k := by
  rw [Bracket.OpensAt, Bracket.OpensAt, Array.getElem?_toList, Array.getElem?_toList, h.kind_eq]

/-- The search looks at kinds and partners only. -/
theorem ownerSearch (hus : SameLinks ts us) {taken : Nat → Prop} {i : Nat} {r : Option Nat}
    (h : OwnerSearch ts taken i r) : OwnerSearch us taken i r := by
  induction h with
  | start => exact .start
  | barrier ht h =>
    obtain ⟨u, hu, hkind, -⟩ := hus.exists_token ht
    exact .barrier hu (by rw [hkind, h])
  | unopened ht hclose h =>
    obtain ⟨u, hu, hkind, hpartner⟩ := hus.exists_token ht
    exact .unopened hu (hkind.trans hclose) (hpartner.trans h)
  | jump ht hclose h rest ih =>
    obtain ⟨u, hu, hkind, hpartner⟩ := hus.exists_token ht
    exact .jump hu (hkind.trans hclose) (hpartner.trans h) ih
  | found ht howns hfree =>
    obtain ⟨u, hu, hkind, -⟩ := hus.exists_token ht
    exact .found hu (by rw [hkind, howns]) hfree
  | pass ht h rest ih =>
    obtain ⟨u, hu, hkind, -⟩ := hus.exists_token ht
    exact .pass hu (by rw [hkind]; exact h) ih

theorem ownerSearch_iff (hus : SameLinks ts us) {taken : Nat → Prop} {i : Nat} {r : Option Nat} :
    OwnerSearch us taken i r ↔ OwnerSearch ts taken i r :=
  ⟨hus.symm.ownerSearch, hus.ownerSearch⟩

end SameLinks

/-! ## The computed owner -/

section

variable {ts : Array Token} {taken : List Nat}

/-- Where to resume has no effect on the tokens before it. -/
theorem scopeOwner?_of_le {resume resume' i : Nat} (h : i ≤ resume) (h' : i ≤ resume') :
    scopeOwner? ts taken resume i = scopeOwner? ts taken resume' i := by
  induction i with
  | zero => rfl
  | succ i ih =>
    rw [scopeOwner?, scopeOwner?, if_neg (by omega), if_neg (by omega),
      ih (by omega) (by omega)]

/-- Tokens in parentheses are passed over. -/
theorem scopeOwner?_resume {resume i : Nat} (h : resume ≤ i) :
    scopeOwner? ts taken resume i = scopeOwner? ts taken resume resume := by
  induction i, h using Nat.le_induction with
  | base => rfl
  | succ i h ih => rw [scopeOwner?, if_pos h, ih]

theorem OwnerSearch.scopeOwner?_eq (hts : ClosesBackwards ts) {i : Nat} {r : Option Nat}
    (h : OwnerSearch ts (· ∈ taken) i r) : scopeOwner? ts taken i i = r := by
  induction h with
  | start => rfl
  | @barrier i t ht h =>
    rw [scopeOwner?, if_neg (by omega), ht]
    simp only [h, if_true]
  | @unopened i t ht hkind h =>
    rw [scopeOwner?, if_neg (by omega), ht]
    simp only [hkind, h, endsOwnerSearch, if_true, Bool.false_eq_true, if_false]
  | @jump i o t r ht hkind h rest ih =>
    have ho := hts i o t ht hkind h
    rw [scopeOwner?, if_neg (by omega), ht]
    simp only [hkind, h, endsOwnerSearch, if_true, Bool.false_eq_true, if_false]
    rw [scopeOwner?_resume (Nat.le_of_lt ho), ih]
  | @found i t ht howns hfree =>
    obtain ⟨hends, hkind⟩ := not_barrier_of_ownsScope howns
    rw [scopeOwner?, if_neg (by omega), ht]
    simp [hends, hkind, howns, hfree]
  | @pass i t r ht h rest ih =>
    have hnot : (t.kind.ownsScope && !taken.contains i) = false := by
      have := h.not_free
      cases howns : t.kind.ownsScope <;> simp_all
    rw [scopeOwner?, if_neg (by omega), ht]
    simp only [h.not_barrier, h.not_closeParen, hnot, Bool.false_eq_true, if_false]
    rw [scopeOwner?_of_le (Nat.le_succ i) (Nat.le_refl i), ih]

/-- The owner that is computed is what the search finds. -/
theorem scopeOwner?_eq_iff (hts : ClosesBackwards ts) {i : Nat} (hi : i ≤ ts.size)
    {r : Option Nat} : scopeOwner? ts taken i i = r ↔ OwnerSearch ts (· ∈ taken) i r := by
  constructor
  · rintro rfl
    obtain ⟨r, hr⟩ := exists_ownerSearch hts (· ∈ taken) hi
    rwa [hr.scopeOwner?_eq hts]
  · exact fun h => h.scopeOwner?_eq hts

end

/-! ## The scopes that are found -/

namespace Scope

variable {ts : Array Token}

theorem opener_of_mem_findFrom {taken : List Nat} {ps : List (Nat × Nat)} {s : Scope}
    (hs : s ∈ findFrom ts taken ps) : s.braces ∈ ps :=
  (findFrom_sublist ts taken ps).subset (List.mem_map_of_mem hs)

/-- The first pair of braces is a scope if an owner is found for it. -/
theorem mem_findFrom_head {taken : List Nat} {ps : List (Nat × Nat)} {w o c : Nat}
    (hlt : ∀ q ∈ ps, o < q.1) :
    ⟨w, o, c⟩ ∈ findFrom ts taken ((o, c) :: ps) ↔ scopeOwner? ts taken o o = some w := by
  have hlater {taken : List Nat} : ⟨w, o, c⟩ ∉ findFrom ts taken ps :=
    fun hs => Nat.lt_irrefl o (hlt _ (opener_of_mem_findFrom hs))
  rw [findFrom]
  cases scopeOwner? ts taken o o with
  | none => exact iff_of_false hlater (Option.some_ne_none w).symm
  | some owner =>
    rw [List.mem_cons, or_iff_left hlater, Option.some.injEq, eq_comm (a := owner)]
    simp

/-- A pair of braces is a scope of what the search finds. The owners of the scopes that open before
it are taken. -/
theorem mem_findFrom_iff (hts : ClosesBackwards ts) (taken : List Nat) {ps : List (Nat × Nat)}
    (hps : ps.Pairwise fun p q => p.1 < q.1) (hsize : ∀ p ∈ ps, p.1 ≤ ts.size) {w o c : Nat}
    (hp : (o, c) ∈ ps) :
    ⟨w, o, c⟩ ∈ findFrom ts taken ps ↔
      OwnerSearch ts (fun v => v ∈ taken ∨
        ∃ s ∈ findFrom ts taken ps, s.owner = v ∧ s.opener < o) o (some w) := by
  induction ps generalizing taken with
  | nil => cases hp
  | cons p ps ih =>
    obtain ⟨hlt, hps'⟩ := List.pairwise_cons.1 hps
    obtain ⟨hpsize, hsize'⟩ := List.forall_mem_cons.1 hsize
    rcases List.mem_cons.1 hp with rfl | hp'
    · -- no scope opens before the first pair
      have hnone {s : Scope} (hs : s ∈ findFrom ts taken ((o, c) :: ps)) : ¬ s.opener < o := by
        rcases List.mem_cons.1 (opener_of_mem_findFrom hs) with he | hmem
        · have hopener : s.opener = o := congrArg Prod.fst he
          omega
        · exact Nat.lt_asymm (hlt _ hmem)
      have htaken (v : Nat) : (v ∈ taken ∨ ∃ s ∈ findFrom ts taken ((o, c) :: ps),
          s.owner = v ∧ s.opener < o) ↔ v ∈ taken := by
        refine or_iff_left ?_
        rintro ⟨s, hs, -, hopener⟩
        exact hnone hs hopener
      simp only [htaken]
      rw [mem_findFrom_head hlt, scopeOwner?_eq_iff hts hpsize]
    · have hpo := hlt _ hp'
      rw [findFrom]
      cases hsearch : scopeOwner? ts taken p.1 p.1 with
      | none => exact ih _ hps' hsize' hp'
      | some owner =>
        have hne : (⟨w, o, c⟩ : Scope) ≠ ⟨owner, p.1, p.2⟩ := by
          rintro ⟨⟩
          exact Nat.lt_irrefl _ hpo
        rw [List.mem_cons, or_iff_right hne, ih _ hps' hsize' hp']
        -- the owner of the first pair is taken for all later ones
        have htaken (v : Nat) : (v ∈ owner :: taken ∨ ∃ s ∈ findFrom ts (owner :: taken) ps,
            s.owner = v ∧ s.opener < o) ↔
            (v ∈ taken ∨ ∃ s ∈ (⟨owner, p.1, p.2⟩ : Scope) :: findFrom ts (owner :: taken) ps,
              s.owner = v ∧ s.opener < o) := by
          rw [List.mem_cons, List.exists_mem_cons_iff, eq_comm, or_assoc, or_left_comm]
          simp only [hpo, and_true]
        simp only [htaken]

/-- The scopes of a list of tokens: the pairs of braces for which the search finds an owner. -/
theorem mem_findAll_iff (hts : ClosesBackwards ts) {w o c : Nat} :
    ⟨w, o, c⟩ ∈ findAll ts ↔ (o, c) ∈ Bracket.curly.pairs ts.toList ∧
      OwnerSearch ts (fun v => ∃ s ∈ findAll ts, s.owner = v ∧ s.opener < o) o (some w) := by
  have hsize : ∀ p ∈ openedBraces ts, p.1 ≤ ts.size := fun p hp =>
    Nat.le_of_lt (lt_size_of_mem_openedBraces hp)
  have hps : (openedBraces ts).Pairwise fun p q => p.1 < q.1 :=
    (openedBraces_ascending ts).imp And.left
  have hfrom (hp : (o, c) ∈ openedBraces ts) : ⟨w, o, c⟩ ∈ findAll ts ↔
      OwnerSearch ts (fun v => ∃ s ∈ findAll ts, s.owner = v ∧ s.opener < o) o (some w) := by
    have hiff := mem_findFrom_iff (w := w) hts [] hps hsize hp
    simpa only [List.not_mem_nil, false_or] using! hiff
  constructor
  · intro hs
    have hp := opener_of_mem_findFrom hs
    exact ⟨mem_openedBraces.1 hp, (hfrom hp).1 hs⟩
  · rintro ⟨hp, hsearch⟩
    exact (hfrom (mem_openedBraces.2 hp)).2 hsearch

/-- The three tokens of a scope are there. -/
theorem exists_token {s : Scope} (hs : s ∈ findAll ts) {i : Nat} (hi : s.touches i = true) :
    ∃ t, ts[i]? = some t := by
  have hplaced := findAll_placed hs
  rcases touches_iff.1 hi with rfl | rfl | rfl
  · obtain ⟨t, ht, -⟩ := hplaced.owner_kind
    exact ⟨t, ht⟩
  · obtain ⟨t, ht, -⟩ := Option.map_eq_some_iff.1 hplaced.opener_kind
    exact ⟨t, ht⟩
  · obtain ⟨t, ht, -⟩ := Option.map_eq_some_iff.1 hplaced.closer_kind
    exact ⟨t, ht⟩

end Scope

/-! ## What is recorded -/

/-- The scope that is recorded at a position. -/
def scopeOf (ts : Array Token) (i : Nat) : Option Scope := ts[i]?.bind Token.scope

/-- The scope is recorded at some position. -/
def Recorded (ts : Array Token) (s : Scope) : Prop := ∃ i, scopeOf ts i = some s

/-- The token at the position owns a scope that opens before position `o`. -/
def OwnsBefore (ts : Array Token) (o i : Nat) : Prop :=
  ∃ s, Recorded ts s ∧ s.owner = i ∧ s.opener < o

/-- The scope is a keyword and a pair of braces after it, and these three tokens carry it. -/
structure Scope.WellPlaced (ts : Array Token) (s : Scope) : Prop where
  owner_lt : s.owner < s.opener
  opener_lt : s.opener < s.closer
  owner_kind : ts[s.owner]?.any (fun t => t.kind.ownsScope) = true
  braces : Bracket.curly.Spans ts.toList s.opener s.closer
  linked : partnerOf ts s.opener = some s.closer ∧ partnerOf ts s.closer = some s.opener
  carried_iff : ∀ i, scopeOf ts i = some s ↔ i = s.owner ∨ i = s.opener ∨ i = s.closer

/-- The scopes in `marked` fit the linked tokens `ts`. -/
structure WellScoped (ts marked : Array Token) : Prop where
  /-- nothing but scopes is recorded -/
  scope_only : ∀ i : Nat, marked[i]? = ts[i]?.map fun t => { t with scope := scopeOf marked i }
  /-- the search for an owner ends with one result, whatever keywords own a block already -/
  search_ends : ∀ (taken : Nat → Prop) (i : Nat), i ≤ ts.size → ∃! r, OwnerSearch marked taken i r
  /-- the scopes are the linked braces for which the search finds an owner, one that owns no scope
  that opens before -/
  recorded_iff : ∀ w o c, Recorded marked ⟨w, o, c⟩ ↔
    Bracket.curly.OpensAt marked.toList o ∧ partnerOf marked o = some c ∧
      OwnerSearch marked (OwnsBefore marked o) o (some w)
  placed : ∀ s, Recorded marked s → s.WellPlaced marked
  /-- two scopes share no token, and they lie side by side or one inside the other -/
  apart : ∀ s s', Recorded marked s → Recorded marked s' → s ≠ s' →
    s.Disjoint s' ∧ Apart s.braces s'.braces

/-- The scope at an opening brace is the one that it opens, with the owner that the search finds. -/
theorem WellScoped.scopeOf_opener {ts marked : Array Token} (h : WellScoped ts marked) {o : Nat}
    (ho : Bracket.curly.OpensAt marked.toList o) {s : Scope} :
    scopeOf marked o = some s ↔ s.opener = o ∧ partnerOf marked o = some s.closer ∧
      OwnerSearch marked (OwnsBefore marked o) o (some s.owner) := by
  constructor
  · intro hs
    have hrecorded : Recorded marked s := ⟨o, hs⟩
    have hplaced := h.placed s hrecorded
    have hopener : s.opener = o := by
      rcases (hplaced.carried_iff o).1 hs with rfl | rfl | rfl
      · -- a brace owns no scope
        obtain ⟨t, ht, howns⟩ := (Option.any_eq_true _ _).1 hplaced.owner_kind
        rw [Bracket.OpensAt, Array.getElem?_toList, ht, Option.map_some, Option.some.injEq] at ho
        rw [ho] at howns
        cases howns
      · rfl
      · exact absurd ho (Bracket.not_opensAt_of_closesAt hplaced.braces.closes)
    subst hopener
    exact ⟨rfl, ((h.recorded_iff s.owner s.opener s.closer).1 hrecorded).2⟩
  · rintro ⟨rfl, hpartner, hsearch⟩
    have hrecorded : Recorded marked s :=
      (h.recorded_iff s.owner s.opener s.closer).2 ⟨ho, hpartner, hsearch⟩
    exact ((h.placed s hrecorded).carried_iff s.opener).2 (Or.inr (Or.inl rfl))

section Marked

variable {ts : Array Token} (hts : ∀ (k : Nat) (t : Token), ts[k]? = some t → t.scope = none)
include hts

theorem scopeOf_markScopes {i : Nat} {s : Scope} :
    scopeOf (markScopes ts) i = some s ↔ s ∈ Scope.findAll ts ∧ s.touches i = true := by
  rw [← scopeAt?_eq_some_iff, scopeOf, markScopes_of_none hts]
  cases ht : ts[i]? with
  | some t => rfl
  | none =>
    refine iff_of_false (Option.some_ne_none s).symm fun h => ?_
    obtain ⟨hs, hi⟩ := scopeAt?_eq_some_iff.1 h
    obtain ⟨t, ht'⟩ := Scope.exists_token hs hi
    rw [ht] at ht'
    cases ht'

theorem recorded_markScopes {s : Scope} :
    Recorded (markScopes ts) s ↔ s ∈ Scope.findAll ts := by
  constructor
  · rintro ⟨i, hi⟩
    exact ((scopeOf_markScopes hts).1 hi).1
  · intro hs
    exact ⟨s.owner, (scopeOf_markScopes hts).2 ⟨hs, Scope.touches_iff.2 (Or.inl rfl)⟩⟩

theorem sameLinks_markScopes : SameLinks ts (markScopes ts) :=
  .of_map (markScopes_of_none hts) fun _ _ => ⟨rfl, rfl⟩

theorem wellScoped_markScopes (hclose : ClosesBackwards ts)
    (hpairs : ∀ o c, (o, c) ∈ Bracket.curly.pairs ts.toList ↔
      Bracket.curly.OpensAt ts.toList o ∧ partnerOf ts o = some c)
    (hsymm : ∀ i j, partnerOf ts i = some j ↔ partnerOf ts j = some i) :
    WellScoped ts (markScopes ts) where
  scope_only i := by
    rw [markScopes_of_none hts]
    cases ht : ts[i]? with
    | none => rfl
    | some t => rw [scopeOf, markScopes_of_none hts, ht]; rfl
  search_ends taken i hi := by
    obtain ⟨r, hr⟩ := exists_ownerSearch hclose taken hi
    have hr' := (sameLinks_markScopes hts).ownerSearch hr
    exact ⟨r, hr', fun r' h => h.unique hr'⟩
  recorded_iff w o c := by
    have hlinks := sameLinks_markScopes hts
    have howns : OwnsBefore (markScopes ts) o =
        fun v => ∃ s ∈ Scope.findAll ts, s.owner = v ∧ s.opener < o := by
      funext v
      simp only [OwnsBefore, recorded_markScopes hts]
    rw [recorded_markScopes hts, Scope.mem_findAll_iff hclose, hpairs, hlinks.partnerOf_eq,
      hlinks.opensAt_iff, howns, hlinks.ownerSearch_iff, and_assoc]
  placed s hs := by
    have hlinks := sameLinks_markScopes hts
    have hmem := (recorded_markScopes hts).1 hs
    have hplaced := Scope.findAll_placed hmem
    have hpartner := ((hpairs _ _).1 hplaced.paired).2
    obtain ⟨t, ht, howns⟩ := hplaced.owner_kind
    refine ⟨hplaced.owner_lt, hplaced.opener_lt_closer, ?_, ⟨hplaced.opener_lt_closer, ?_, ?_⟩, ?_,
      fun i => ?_⟩
    · rw [markScopes_of_none hts, ht]
      exact howns
    · rw [hlinks.opensAt_iff, Bracket.OpensAt, Array.getElem?_toList]
      exact hplaced.opener_kind
    · rw [Bracket.ClosesAt, Array.getElem?_toList, hlinks.kind_eq]
      exact hplaced.closer_kind
    · rw [hlinks.partnerOf_eq, hlinks.partnerOf_eq]
      exact ⟨hpartner, (hsymm _ _).1 hpartner⟩
    · rw [scopeOf_markScopes hts, Scope.touches_iff, and_iff_right hmem]
      simp only [eq_comm]
  apart s s' hs hs' hne := by
    rw [recorded_markScopes hts] at hs hs'
    exact ⟨(Scope.findAll_disjoint ts).forall hs hs' hne, Scope.findAll_apart hs hs' hne⟩

end Marked

/-! ## Linked tokens -/

theorem kinds_linked (ts : List Token) :
    (linked ts).toList.map Token.kind = ts.map Token.kind := by
  apply List.ext_getElem?
  intro i
  rw [List.getElem?_map, List.getElem?_map, Array.getElem?_toList, kind_linked]

theorem scope_linked {ts : List Token} (hts : ∀ t ∈ ts, t.scope = none) (k : Nat) (t : Token)
    (ht : (linked ts)[k]? = some t) : t.scope = none := by
  rw [getElem?_linked, linkBrackets_getElem?, List.getElem?_toArray, Option.map_map] at ht
  obtain ⟨u, hu, rfl⟩ := Option.map_eq_some_iff.1 ht
  exact hts u (List.mem_of_getElem? hu)

section Linked

variable {ts : List Token} (hts : ∀ t ∈ ts, t.partner = none)
include hts

/-- Partners of which one closes brackets of a kind are a pair of the kind. -/
theorem mem_pairs_of_closesAt {b : Bracket} {o c : Nat} (hc : b.ClosesAt ts c)
    (h : partnerOf (linked ts) c = some o) : (o, c) ∈ b.pairs ts := by
  obtain ⟨b', hpair | hpair⟩ := (partnerOf_linked hts).1 h
  · have hkind := (Bracket.spans_of_mem_pairs hpair).opens
    exact absurd (Option.some.inj (hkind.symm.trans hc)) (b'.opener_ne_closer b)
  · have hkind := (Bracket.spans_of_mem_pairs hpair).closes
    rwa [Bracket.closer_inj (Option.some.inj (hc.symm.trans hkind))]

theorem closesBackwards_linked : ClosesBackwards (linked ts) := by
  intro i o t ht hkind hpartner
  have hclose : Bracket.round.ClosesAt ts i := by
    rw [Bracket.ClosesAt, ← kind_linked, ht, Option.map_some, hkind]
    rfl
  have hlink : partnerOf (linked ts) i = some o := by
    rw [partnerOf, ht, Option.bind_some, hpartner]
  exact (Bracket.spans_of_mem_pairs (mem_pairs_of_closesAt hts hclose hlink)).lt

theorem mem_pairs_linked_iff (b : Bracket) (o c : Nat) :
    (o, c) ∈ b.pairs (linked ts).toList ↔
      b.OpensAt (linked ts).toList o ∧ partnerOf (linked ts) o = some c := by
  rw [b.pairs_congr (kinds_linked ts), Bracket.OpensAt, Array.getElem?_toList, kind_linked]
  constructor
  · intro hpair
    exact ⟨(Bracket.spans_of_mem_pairs hpair).opens, (partnerOf_linked hts).2 ⟨b, Or.inl hpair⟩⟩
  · rintro ⟨hopen, hpartner⟩
    exact mem_pairs_of_partnerOf hts hopen hpartner

end Linked

/-- The scopes that are recorded in linked tokens, however unbalanced these are. The search for the
owner of a block ends, and the scopes are the linked braces for which it finds one. An owner is a
keyword before its braces, a scope is carried by its three tokens and by no other, and two scopes
share no token and do not cross. -/
theorem markScopes_wellScoped {ts : List Token}
    (hts : ∀ t ∈ ts, t.partner = none ∧ t.scope = none) :
    WellScoped (linked ts) (markScopes (linked ts)) := by
  have hpartner : ∀ t ∈ ts, t.partner = none := fun t ht => (hts t ht).1
  have hscope : ∀ t ∈ ts, t.scope = none := fun t ht => (hts t ht).2
  exact wellScoped_markScopes (scope_linked hscope) (closesBackwards_linked hpartner)
    (mem_pairs_linked_iff hpartner .curly) fun _ _ => partnerOf_linked_comm hpartner

/-- In `fn ({){}` the parentheses are linked across a brace that is left open. -/
theorem markScopes_wellScoped_crossing :
    let token (kind : TokenKind) (text : String) : Token := { kind, text, line := 1, column := 1 }
    let ts := [token .kwFn "fn", token .openParen "(", token .openBrace "\x7b",
      token .closeParen ")", token .openBrace "\x7b", token .closeBrace "\x7d"]
    (∀ t ∈ ts, t.partner = none ∧ t.scope = none) ∧
      WellScoped (linked ts) (markScopes (linked ts)) ∧
      scopeOf (markScopes (linked ts)) 0 = some ⟨0, 4, 5⟩ ∧
      scopeOf (markScopes (linked ts)) 2 = none := by
  intro token ts
  have hts : ∀ t ∈ ts, t.partner = none ∧ t.scope = none := by decide
  refine ⟨hts, markScopes_wellScoped hts, ?_, ?_⟩
  · decide +kernel
  · decide +kernel

end Vintage
