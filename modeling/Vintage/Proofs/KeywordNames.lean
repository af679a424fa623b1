import Vintage.Proofs.LinkedBrackets

/-!
# Keywords that serve as names

Keywords become names from left to right. Whether one does depends on the kinds before it, which are
settled by then, and for `enum` on the kind after it, which is not. In `const function f` the word
`function` is a name and so declares nothing, and of two words `enum` before a name only the second
is a keyword.

Results:
* `Misplaced`: a keyword of the given kind would stand where a name is meant.
* `settledAt_ne_iff`: when a single token becomes a name.
* `Settles.unique`: the kinds are determined by which keywords would be misplaced.
* `settleNames_determined`: settling the names changes what it has to and leaves no keyword
  misplaced, so that a second time changes nothing.
-/

namespace Vintage

/-! ## Where a name is meant -/

/-- The kind of the token at a position. -/
abbrev kindAt (ts : List Token) (i : Nat) : Option TokenKind := ts[i]?.map Token.kind

/-- Position `n` holds the first significant token after position `i`. -/
structure IsNext (ts : List Token) (i n : Nat) : Prop where
  lt : i < n
  significant : ts[n]?.any Token.isSignificant = true
  layout : ∀ k, i < k → k < n → ts[k]?.any Token.isSignificant = false

/-- The last significant token before the position is `->`, `?->` or `::`. -/
def FollowsAccess (ts : List Token) (i : Nat) : Prop :=
  ∃ p, IsPrevious ts p i ∧ (kindAt ts p = some .objectOperator ∨
    kindAt ts p = some .nullsafeOperator ∨ kindAt ts p = some .doubleColon)

/-- The last significant tokens before the position are `function`, `const` or `function &`. -/
def FollowsDeclarator (ts : List Token) (i : Nat) : Prop :=
  ∃ p, IsPrevious ts p i ∧ (kindAt ts p = some .kwFunction ∨ kindAt ts p = some .kwConst ∨
    kindAt ts p = some .ampersand ∧ ∃ q, IsPrevious ts q p ∧ kindAt ts q = some .kwFunction)

/-- The first significant token after the position is a name. -/
def PrecedesName (ts : List Token) (i : Nat) : Prop :=
  ∃ n, IsNext ts i n ∧ kindAt ts n = some .name

/-- A token of the given kind at position `i` would be a keyword where a name is meant. What stands
before the position is taken from `us`, and what stands after it from `ts`. -/
inductive Misplaced (us ts : List Token) (i : Nat) : TokenKind → Prop
  | member {kind : TokenKind} (hkind : kind.isReserved = true ∨ kind = .magicConstant)
      (h : FollowsAccess us i) : Misplaced us ts i kind
  | declared {kind : TokenKind} (hkind : kind.isReserved = true) (hne : kind ≠ .kwEnum)
      (h : FollowsDeclarator us i) : Misplaced us ts i kind
  | enumeration (h : ¬ PrecedesName ts i) : Misplaced us ts i .kwEnum

/-- A name is not misplaced. -/
theorem not_misplaced_name {us ts : List Token} {i : Nat} : ¬ Misplaced us ts i .name := by
  rintro (⟨hkind | hkind, -⟩ | ⟨hkind, -, -⟩) <;> cases hkind

/-! ## One token -/

theorem Before.selectsMember_iff {b : Before} :
    b.selectsMember = true ↔ b.last = some .objectOperator ∨ b.last = some .nullsafeOperator ∨
      b.last = some .doubleColon := by
  unfold selectsMember
  cases b.last with
  | none => simp
  | some kind => cases kind <;> decide

theorem Before.declares_iff {b : Before} :
    b.declares = true ↔ b.last = some .kwFunction ∨ b.last = some .kwConst ∨
      b.last = some .ampersand ∧ b.lastButOne = some .kwFunction := by
  obtain ⟨last, lastButOne⟩ := b
  unfold Before.declares
  split <;> simp_all

/-- A token becomes a name if it is a keyword or a magic constant after a member access, a keyword
after a declarator, or `enum` without a name after it. -/
theorem settledAt_ne_iff (b : Before) (t : Token) (rest : List Token) :
    settledAt b t rest ≠ t.kind ↔
      (t.kind.isReserved = true ∨ t.kind = .magicConstant) ∧ b.selectsMember = true ∨
      (t.kind.isReserved = true ∧ t.kind ≠ .kwEnum) ∧ b.declares = true ∨
      t.kind = .kwEnum ∧ ¬ (rest.find? Token.isSignificant).map Token.kind = some .name := by
  have hname {kind : TokenKind} (h : kind.isReserved = true) : TokenKind.name ≠ kind := by
    rintro rfl
    cases h
  have henum : TokenKind.kwEnum.isReserved = true := rfl
  have hmagic : TokenKind.magicConstant.isReserved = false := rfl
  unfold settledAt settledKind
  generalize t.kind = kind
  by_cases h₁ : kind = .kwEnum
  · subst h₁
    by_cases hnext : (rest.find? Token.isSignificant).map Token.kind = some .name <;>
      by_cases hmember : b.selectsMember = true <;> simp [henum, hnext, hmember]
  by_cases h₂ : kind = .magicConstant
  · subst h₂
    by_cases hmember : b.selectsMember = true <;> simp [hmagic, hmember]
  by_cases h₃ : kind.isReserved = true
  · have := hname h₃
    by_cases hmember : b.selectsMember = true <;> by_cases hdeclares : b.declares = true <;>
      simp [h₁, h₂, h₃, hmember, hdeclares, this]
  · simp [h₁, h₂, h₃]

/-- What changes was a keyword or a magic constant. -/
theorem settledAt_changed {b : Before} {t : Token} {rest : List Token}
    (h : settledAt b t rest ≠ t.kind) :
    (t.kind.isReserved = true ∨ t.kind = .magicConstant) ∧ settledAt b t rest = .name := by
  unfold settledAt at h ⊢
  split
  · rename_i hkind
    rw [if_pos hkind] at h
    exact ⟨by simpa using hkind, (settledKind_eq_or _ _ _).resolve_left h⟩
  · rename_i hkind
    exact absurd (if_neg hkind) h

/-! ## What stands around a token -/

theorem IsPrevious.unique {ts : List Token} {p q i : Nat} (hp : IsPrevious ts p i)
    (hq : IsPrevious ts q i) : p = q := by
  rcases Nat.lt_trichotomy p q with hlt | heq | hlt
  · have hlayout := hp.layout q hlt hq.lt
    rw [hq.significant] at hlayout
    cases hlayout
  · exact heq
  · have hlayout := hq.layout p hlt hp.lt
    rw [hp.significant] at hlayout
    cases hlayout

theorem IsPrevious.congr {us vs : List Token} {p i : Nat} (h : IsPrevious us p i)
    (hbelow : ∀ k < i, us[k]? = vs[k]?) : IsPrevious vs p i where
  lt := h.lt
  significant := hbelow p h.lt ▸ h.significant
  layout k hpk hki := hbelow k hki ▸ h.layout k hpk hki

section Listings

variable (us : List Token)

theorem previous?_toArray {i p : Nat} :
    (Listing.mk us.toArray).previous? i = some p ↔ IsPrevious us p i := by
  rw [Listing.previous?_eq_some_iff]
  simp only [Listing.get?, List.getElem?_toArray]
  constructor
  · rintro ⟨hlt, hsignificant, hlayout⟩
    exact ⟨hlt, hsignificant, hlayout⟩
  · intro h
    exact ⟨h.lt, h.significant, h.layout⟩

theorem kind?_toArray (i : Nat) : (Listing.mk us.toArray).kind? i = kindAt us i := by
  rw [Listing.kind?, Listing.get?, List.getElem?_toArray]

theorem last_before {i : Nat} {kind : TokenKind} :
    ((Listing.mk us.toArray).before i).last = some kind ↔
      ∃ p, IsPrevious us p i ∧ kindAt us p = some kind := by
  simp only [Listing.before, Listing.kindAt?, Option.bind_eq_some_iff, previous?_toArray,
    kind?_toArray]

theorem lastButOne_before {i : Nat} {kind : TokenKind} :
    ((Listing.mk us.toArray).before i).lastButOne = some kind ↔
      ∃ p q, IsPrevious us p i ∧ IsPrevious us q p ∧ kindAt us q = some kind := by
  simp only [Listing.before, Listing.kindAt?, Listing.previousOf?, Option.bind_eq_some_iff,
    previous?_toArray, kind?_toArray]
  constructor
  · rintro ⟨q, ⟨p, hp, hq⟩, hkind⟩
    exact ⟨p, q, hp, hq, hkind⟩
  · rintro ⟨p, q, hp, hq, hkind⟩
    exact ⟨q, ⟨p, hp, hq⟩, hkind⟩

theorem selectsMember_before {i : Nat} :
    ((Listing.mk us.toArray).before i).selectsMember = true ↔ FollowsAccess us i := by
  simp only [Before.selectsMember_iff, last_before, FollowsAccess, and_or_left, exists_or]

theorem declares_before {i : Nat} :
    ((Listing.mk us.toArray).before i).declares = true ↔ FollowsDeclarator us i := by
  simp only [Before.declares_iff, last_before, lastButOne_before]
  constructor
  · rintro (⟨p, hp, hkind⟩ | ⟨p, hp, hkind⟩ | ⟨⟨p, hp, hkind⟩, p', q, hp', hq, hfunction⟩)
    · exact ⟨p, hp, Or.inl hkind⟩
    · exact ⟨p, hp, Or.inr (Or.inl hkind)⟩
    · obtain rfl := hp.unique hp'
      exact ⟨p, hp, Or.inr (Or.inr ⟨hkind, q, hq, hfunction⟩)⟩
  · rintro ⟨p, hp, hkind | hkind | ⟨hkind, q, hq, hfunction⟩⟩
    · exact Or.inl ⟨p, hp, hkind⟩
    · exact Or.inr (Or.inl ⟨p, hp, hkind⟩)
    · exact Or.inr (Or.inr ⟨⟨p, hp, hkind⟩, p, q, hp, hq, hfunction⟩)

end Listings

theorem IsNext.unique {ts : List Token} {i m n : Nat} (hm : IsNext ts i m) (hn : IsNext ts i n) :
    m = n := by
  rcases Nat.lt_trichotomy m n with hlt | heq | hlt
  · have hlayout := hn.layout m hm.lt hlt
    rw [hm.significant] at hlayout
    cases hlayout
  · exact heq
  · have hlayout := hm.layout n hn.lt hlt
    rw [hn.significant] at hlayout
    cases hlayout

/-- The token that a search from a position on finds. -/
theorem isNext_of_find?_drop {ts : List Token} {i : Nat} {t : Token}
    (h : (ts.drop (i + 1)).find? Token.isSignificant = some t) :
    ∃ n, IsNext ts i n ∧ ts[n]? = some t := by
  have hget (j : Nat) : (ts.drop (i + 1))[j]? = ts[i + 1 + j]? := List.getElem?_drop
  obtain ⟨ht, j, hj, htj, hbefore⟩ := List.find?_eq_some_iff_getElem.1 h
  have hn : ts[i + 1 + j]? = some t := by rw [← hget, List.getElem?_eq_getElem hj, htj]
  refine ⟨i + 1 + j, ⟨by omega, by rw [hn]; exact ht, fun k hik hkn => ?_⟩, hn⟩
  obtain ⟨m, rfl⟩ : ∃ m, k = i + 1 + m := ⟨k - (i + 1), by omega⟩
  have hm : m < j := by omega
  rw [← hget, List.getElem?_eq_getElem (by omega), Option.any_some]
  simpa using hbefore m hm

/-- A search from a position on finds a kind if the next significant token has it. -/
theorem kind_find?_drop_iff {ts : List Token} {i : Nat} {kind : TokenKind} :
    ((ts.drop (i + 1)).find? Token.isSignificant).map Token.kind = some kind ↔
      ∃ n, IsNext ts i n ∧ kindAt ts n = some kind := by
  constructor
  · intro h
    obtain ⟨t, hfind, rfl⟩ := Option.map_eq_some_iff.1 h
    obtain ⟨n, hn, ht⟩ := isNext_of_find?_drop hfind
    exact ⟨n, hn, by rw [kindAt, ht, Option.map_some]⟩
  · rintro ⟨n, hn, hkind⟩
    cases hfind : (ts.drop (i + 1)).find? Token.isSignificant with
    | none =>
      obtain ⟨t, ht, hsignificant⟩ := (Option.any_eq_true _ _).1 hn.significant
      have hlt := hn.lt
      have hmem : t ∈ ts.drop (i + 1) := by
        refine List.mem_of_getElem? (i := n - (i + 1)) ?_
        rw [List.getElem?_drop, show i + 1 + (n - (i + 1)) = n by omega, ht]
      exact absurd hsignificant (List.find?_eq_none.1 hfind t hmem)
    | some t =>
      obtain ⟨m, hm, ht⟩ := isNext_of_find?_drop hfind
      rw [← hkind, ← hm.unique hn, kindAt, ht]

/-! ## All tokens -/

/-- The token `t` at position `i` of `ts` is settled as the token `u` of `us`. -/
structure SettledAs (ts us : List Token) (i : Nat) (t u : Token) : Prop where
  /-- nothing but the kind changes -/
  kind_only : u = { t with kind := u.kind }
  /-- keywords and magic constants become names, and nothing else changes -/
  to_name : u.kind ≠ t.kind →
    (t.kind.isReserved = true ∨ t.kind = .magicConstant) ∧ u.kind = .name
  /-- the kind changes if and only if the token would be misplaced with it: before the token all
  kinds are settled, and after it none is -/
  changes_iff : u.kind ≠ t.kind ↔ Misplaced us ts i t.kind
  /-- in the end the token is not misplaced -/
  settled : ¬ Misplaced us us i u.kind

/-- The names among the tokens `ts` are settled in `us`. -/
structure Settles (ts us : List Token) : Prop where
  length_eq : us.length = ts.length
  token : ∀ (i : Nat) (t u : Token), ts[i]? = some t → us[i]? = some u → SettledAs ts us i t u

/-- Whether a token is misplaced depends on what stands before it. -/
theorem Misplaced.congr {us vs ts : List Token} {i : Nat} {kind : TokenKind}
    (h : Misplaced us ts i kind) (hbelow : ∀ k < i, us[k]? = vs[k]?) : Misplaced vs ts i kind := by
  have hkind {p : Nat} (hp : p < i) : kindAt vs p = kindAt us p := by
    rw [kindAt, kindAt, hbelow p hp]
  cases h with
  | member hreserved haccess =>
    obtain ⟨p, hp, hpkind⟩ := haccess
    exact .member hreserved ⟨p, hp.congr hbelow, (hkind hp.lt).symm ▸ hpkind⟩
  | declared hreserved hne hdeclarator =>
    obtain ⟨p, hp, hpkind⟩ := hdeclarator
    refine .declared hreserved hne ⟨p, hp.congr hbelow, ?_⟩
    rw [hkind hp.lt]
    refine hpkind.imp_right (Or.imp_right ?_)
    rintro ⟨hampersand, q, hq, hqkind⟩
    have hlt : q < i := Nat.lt_trans hq.lt hp.lt
    exact ⟨hampersand, q, hq.congr fun k hk => hbelow k (Nat.lt_trans hk hp.lt),
      (hkind hlt).trans hqkind⟩
  | enumeration hnext => exact .enumeration hnext

/-- The two tokens at a position, if there are any. -/
theorem Settles.getElem? {ts us : List Token} (h : Settles ts us) (i : Nat) :
    ts[i]? = none ∧ us[i]? = none ∨
      ∃ t u, ts[i]? = some t ∧ us[i]? = some u ∧ SettledAs ts us i t u := by
  have hlength := h.length_eq
  by_cases hi : i < ts.length
  · have ht : ts[i]? = some ts[i] := List.getElem?_eq_getElem hi
    have hu : us[i]? = some us[i] := List.getElem?_eq_getElem (by omega)
    exact Or.inr ⟨_, _, ht, hu, h.token i _ _ ht hu⟩
  · exact Or.inl ⟨List.getElem?_eq_none (by omega), List.getElem?_eq_none (by omega)⟩

theorem SettledAs.eq {ts us vs : List Token} {i : Nat} {t u v : Token}
    (hu : SettledAs ts us i t u) (hv : SettledAs ts vs i t v)
    (hbelow : ∀ k < i, us[k]? = vs[k]?) : u = v := by
  have hkind : u.kind = v.kind := by
    by_cases hmisplaced : Misplaced us ts i t.kind
    · have hmisplaced' := hmisplaced.congr hbelow
      rw [(hu.to_name (hu.changes_iff.2 hmisplaced)).2,
        (hv.to_name (hv.changes_iff.2 hmisplaced')).2]
    · have hmisplaced' : ¬ Misplaced vs ts i t.kind :=
        fun h => hmisplaced (h.congr fun k hk => (hbelow k hk).symm)
      rw [not_not.1 (hmisplaced ∘ hu.changes_iff.1), not_not.1 (hmisplaced' ∘ hv.changes_iff.1)]
  rw [hu.kind_only, hv.kind_only, hkind]

/-- The names are settled in one way only. -/
theorem Settles.unique {ts us vs : List Token} (h : Settles ts us) (h' : Settles ts vs) :
    us = vs := by
  refine List.ext_getElem? fun i => ?_
  -- a kind depends on the kinds before it, which are the same by induction
  induction i using Nat.strong_induction_on with
  | _ i ih =>
    rcases h.getElem? i with ⟨ht, hu⟩ | ⟨t, u, ht, hu, hsettled⟩ <;>
      rcases h'.getElem? i with ⟨ht', hv⟩ | ⟨t', v, ht', hv, hsettled'⟩ <;>
      rw [ht] at ht'
    · rw [hu, hv]
    · cases ht'
    · cases ht'
    · cases ht'
      rw [hu, hv, hsettled.eq hsettled' ih]

/-- What is settled is settled as it is. -/
theorem Settles.refl {ts us : List Token} (h : Settles ts us) : Settles us us where
  length_eq := rfl
  token i u v hu hv := by
    rw [hu] at hv
    cases hv
    have hnot : ¬ Misplaced us us i u.kind := by
      rcases h.getElem? i with ⟨-, hnone⟩ | ⟨t, u', -, hu', hsettled⟩
      · rw [hu] at hnone
        cases hnone
      · rw [hu] at hu'
        cases hu'
        exact hsettled.settled
    exact ⟨rfl, fun hne => absurd rfl hne, ⟨fun hne => absurd rfl hne, fun h => absurd h hnot⟩,
      hnot⟩

/-! ## The pass -/

theorem misplaced_iff {us ts : List Token} {i : Nat} {kind : TokenKind} :
    Misplaced us ts i kind ↔
      (kind.isReserved = true ∨ kind = .magicConstant) ∧ FollowsAccess us i ∨
      (kind.isReserved = true ∧ kind ≠ .kwEnum) ∧ FollowsDeclarator us i ∨
      kind = .kwEnum ∧ ¬ PrecedesName ts i := by
  constructor
  · rintro (⟨hkind, haccess⟩ | ⟨hkind, hne, hdeclarator⟩ | hnext)
    · exact Or.inl ⟨hkind, haccess⟩
    · exact Or.inr (Or.inl ⟨⟨hkind, hne⟩, hdeclarator⟩)
    · exact Or.inr (Or.inr ⟨rfl, hnext⟩)
  · rintro (⟨hkind, haccess⟩ | ⟨⟨hkind, hne⟩, hdeclarator⟩ | ⟨rfl, hnext⟩)
    · exact .member hkind haccess
    · exact .declared hkind hne hdeclarator
    · exact .enumeration hnext

section Pass

variable (ts : List Token)

/-- What stands before a position after the names are settled. -/
abbrev settledBefore (i : Nat) : Before := (Listing.mk (settleNames ts).toArray).before i

theorem settleNames_getElem? (i : Nat) :
    (settleNames ts)[i]? = ts[i]?.map fun t =>
      { t with kind := settledAt (settledBefore ts i) t (ts.drop (i + 1)) } :=
  Listing.getElem?_settleNames (kind?_toArray _) i

/-- A token gets another kind if and only if it would be misplaced with its own. -/
theorem settledAt_ne_iff_misplaced (i : Nat) (t : Token) :
    settledAt (settledBefore ts i) t (ts.drop (i + 1)) ≠ t.kind ↔
      Misplaced (settleNames ts) ts i t.kind := by
  rw [settledAt_ne_iff, misplaced_iff, selectsMember_before, declares_before, kind_find?_drop_iff,
    PrecedesName]

/-- A name after `enum` stays one. -/
theorem precedesName_settleNames {i : Nat} (h : PrecedesName ts i) :
    PrecedesName (settleNames ts) i := by
  obtain ⟨n, hn, hkind⟩ := h
  have hany (k : Nat) : (settleNames ts)[k]?.any Token.isSignificant =
      ts[k]?.any Token.isSignificant := by
    rw [settleNames_getElem?, Option.any_map]
    congr 1
    funext t
    exact congrArg (! ·) (isLayout_settledAt _ t _)
  refine ⟨n, ⟨hn.lt, (hany n).trans hn.significant, fun k hik hkn => ?_⟩, ?_⟩
  · exact (hany k).trans (hn.layout k hik hkn)
  · obtain ⟨t, ht, hname⟩ := Option.map_eq_some_iff.1 hkind
    rw [kindAt, settleNames_getElem?, ht, Option.map_some, Option.map_some, Option.some.injEq,
      settledAt, hname]
    rfl

theorem settles_settleNames : Settles ts (settleNames ts) where
  length_eq := length_settleFrom {} ts
  token i t u ht hu := by
    have hiff := settledAt_ne_iff_misplaced ts i t
    rw [settleNames_getElem?, ht, Option.map_some, Option.some.injEq] at hu
    subst hu
    refine ⟨rfl, settledAt_changed, hiff, fun hmisplaced => ?_⟩
    by_cases hne : settledAt (settledBefore ts i) t (ts.drop (i + 1)) = t.kind
    · -- what is misplaced in the end would have been misplaced at first
      rw [hne] at hmisplaced
      refine hiff.2 ?_ hne
      rw [misplaced_iff] at hmisplaced ⊢
      refine hmisplaced.imp_right (Or.imp_right (And.imp_right fun hnext hname => ?_))
      exact hnext (precedesName_settleNames ts hname)
    · rw [(settledAt_changed hne).2] at hmisplaced
      exact not_misplaced_name hmisplaced

end Pass

/-- The settled names, whatever the tokens: nothing but kinds changes, and only from keywords and
magic constants to names. A kind changes exactly if the token would otherwise be a keyword where a
name is meant, and in the end no token is one. These conditions leave one result, and settling the
names of the result changes nothing. -/
theorem settleNames_determined (ts : List Token) :
    (∀ us, Settles ts us ↔ us = settleNames ts) ∧
      settleNames (settleNames ts) = settleNames ts := by
  have hsettles := settles_settleNames ts
  constructor
  · intro us
    constructor
    · exact fun h => h.unique hsettles
    · rintro rfl
      exact hsettles
  · exact (settles_settleNames (settleNames ts)).unique hsettles.refl

/-- In `const function enum enum f` the first two words after `const` are names. -/
example :
    let token (kind : TokenKind) (text : String) : Token := { kind, text, line := 1, column := 1 }
    (settleNames [token .kwConst "const", token .kwFunction "function", token .kwEnum "enum",
      token .kwEnum "enum", token .name "f"]).map Token.kind =
        [.kwConst, .name, .name, .kwEnum, .name] := by
  decide

end Vintage
