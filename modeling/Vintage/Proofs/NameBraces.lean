import Vintage.Proofs.ScopeOwners

/-!
# Braces around names

After `->`, `?->`, `::`, `$` and a backslash braces do not hold a block: they hold the name of a
member or of a variable, or the names of a group. The search for an owner does not look at the token
before the brace, so these braces get a scope whenever a keyword can be reached over the tokens
before that token. This is so after a keyword whose body has no braces, as in
`if ($x) $o->{$n} = 1;`, and after `use function`.

Results:
* `Reaches`: a keyword can be reached over groups in parentheses and tokens to pass.
* `ownerSearch_some_iff`: the search finds exactly the keyword that can be reached.
* `scope_of_names_iff`: when braces around names have no scope.
* `names_in_scope`: a group of functions and the name of a member that have one.
-/

namespace Vintage

/-! ## Groups in parentheses -/

/-- The parenthesis that closes at position `q` has its partner at position `p`. -/
structure Parens (ts : Array Token) (p q : Nat) : Prop where
  closes : ts[q]?.map Token.kind = some .closeParen
  partner : partnerOf ts q = some p

/-- The position is in parentheses that close before position `o`. -/
def InParens (ts : Array Token) (o k : Nat) : Prop :=
  ∃ p q, Parens ts p q ∧ p ≤ k ∧ k ≤ q ∧ q < o

/-- Parentheses open before they close and do not cross. -/
structure ParensNest (ts : Array Token) : Prop where
  lt : ∀ p q, Parens ts p q → p < q
  apart : ∀ p q p' q', Parens ts p q → Parens ts p' q' → q < q' → q < p' ∨ p' < p

/-- The keyword at position `w` can be reached from position `o`: it owns no block yet, it is not in
parentheses, and all tokens between are in parentheses or let the search pass. -/
structure Reaches (ts : Array Token) (taken : Nat → Prop) (w o : Nat) : Prop where
  lt : w < o
  owns : ∃ t, ts[w]? = some t ∧ t.kind.ownsScope = true
  free : ¬ taken w
  outside : ¬ InParens ts o w
  passes : ∀ k, w < k → k < o →
    InParens ts o k ∨ ∃ t, ts[k]? = some t ∧ Passes taken k t.kind

section

variable {ts : Array Token}

theorem parens_iff {p q : Nat} :
    Parens ts p q ↔ ∃ t, ts[q]? = some t ∧ t.kind = .closeParen ∧ t.partner = some p := by
  constructor
  · rintro ⟨hcloses, hpartner⟩
    obtain ⟨t, ht, hkind⟩ := Option.map_eq_some_iff.1 hcloses
    rw [partnerOf, ht, Option.bind_some] at hpartner
    exact ⟨t, ht, hkind, hpartner⟩
  · rintro ⟨t, ht, hkind, hpartner⟩
    exact ⟨by rw [ht, Option.map_some, hkind], by rw [partnerOf, ht, Option.bind_some, hpartner]⟩

theorem InParens.mono {o o' k : Nat} (h : InParens ts o k) (hle : o ≤ o') : InParens ts o' k := by
  obtain ⟨p, q, hpq, hp, hq, ho⟩ := h
  exact ⟨p, q, hpq, hp, hq, by omega⟩

/-- Only a closing parenthesis adds a group. -/
theorem inParens_succ_iff {i k : Nat} (h : ∀ p, ¬ Parens ts p i) :
    InParens ts (i + 1) k ↔ InParens ts i k := by
  constructor
  · rintro ⟨p, q, hpq, hp, hq, hqi⟩
    have hne : q ≠ i := by
      rintro rfl
      exact h p hpq
    exact ⟨p, q, hpq, hp, hq, by omega⟩
  · exact fun h => h.mono (Nat.le_succ i)

/-- A closing parenthesis adds its group to the groups before its partner. -/
theorem inParens_jump_iff (hts : ParensNest ts) {i o k : Nat} (h : Parens ts o i) :
    InParens ts (i + 1) k ↔ InParens ts o k ∨ o ≤ k ∧ k ≤ i := by
  have hoi := hts.lt o i h
  constructor
  · rintro ⟨p, q, hpq, hp, hq, hqi⟩
    by_cases hne : q = i
    · subst hne
      obtain rfl : p = o := Option.some.inj (hpq.partner.symm.trans h.partner)
      exact Or.inr ⟨hp, hq⟩
    · rcases hts.apart p q o i hpq h (by omega) with hqo | hop
      · exact Or.inl ⟨p, q, hpq, hp, hq, hqo⟩
      · exact Or.inr ⟨by omega, by omega⟩
  · rintro (h' | ⟨hok, hki⟩)
    · exact h'.mono (by omega)
    · exact ⟨o, i, h, hok, hki, Nat.lt_succ_self i⟩

/-! ## The keyword that is found -/

variable {taken : Nat → Prop}

theorem reaches_jump_iff (hts : ParensNest ts) {w o i : Nat} (h : Parens ts o i) :
    Reaches ts taken w (i + 1) ↔ Reaches ts taken w o := by
  have hoi := hts.lt o i h
  have hin (k : Nat) := inParens_jump_iff (k := k) hts h
  constructor
  · rintro ⟨hlt, howns, hfree, houtside, hpasses⟩
    rw [hin] at houtside
    have hwo : w < o := by omega
    refine ⟨hwo, howns, hfree, fun h' => houtside (Or.inl h'), fun k hwk hko => ?_⟩
    rcases hpasses k hwk (by omega) with hk | hk
    · rw [hin] at hk
      exact Or.inl (hk.resolve_right (by omega))
    · exact Or.inr hk
  · rintro ⟨hlt, howns, hfree, houtside, hpasses⟩
    refine ⟨by omega, howns, hfree, ?_, fun k hwk hki => ?_⟩
    · rw [hin]
      rintro (h' | h')
      · exact houtside h'
      · omega
    · by_cases hko : k < o
      · exact (hpasses k hwk hko).imp_left fun hk => hk.mono (by omega)
      · exact Or.inl ((hin k).2 (Or.inr ⟨by omega, by omega⟩))

theorem reaches_pass_iff {w i : Nat} {t : Token} (ht : ts[i]? = some t)
    (h : Passes taken i t.kind) : Reaches ts taken w (i + 1) ↔ Reaches ts taken w i := by
  have hin (k : Nat) : InParens ts (i + 1) k ↔ InParens ts i k := by
    refine inParens_succ_iff fun p hp => ?_
    obtain ⟨t', ht', hkind, -⟩ := parens_iff.1 hp
    rw [ht, Option.some.injEq] at ht'
    exact h.not_closeParen (ht' ▸ hkind)
  constructor
  · rintro ⟨hlt, ⟨t', ht', howns⟩, hfree, houtside, hpasses⟩
    have hne : w ≠ i := by
      rintro rfl
      rw [ht, Option.some.injEq] at ht'
      exact hfree (h.not_free (ht' ▸ howns))
    rw [hin] at houtside
    refine ⟨by omega, ⟨t', ht', howns⟩, hfree, houtside, fun k hwk hki => ?_⟩
    rw [← hin]
    exact hpasses k hwk (by omega)
  · rintro ⟨hlt, howns, hfree, houtside, hpasses⟩
    refine ⟨by omega, howns, hfree, by rwa [hin], fun k hwk hki => ?_⟩
    by_cases hk : k = i
    · subst hk
      exact Or.inr ⟨t, ht, h⟩
    · rw [hin]
      exact hpasses k hwk (by omega)

/-- The keyword right before a position can be reached from it. -/
theorem reaches_succ_self {i : Nat} {t : Token} (ht : ts[i]? = some t)
    (howns : t.kind.ownsScope = true) (hfree : ¬ taken i) : Reaches ts taken i (i + 1) where
  lt := Nat.lt_succ_self i
  owns := ⟨t, ht, howns⟩
  free := hfree
  outside := by
    rintro ⟨p, q, hpq, hp, hq, hqi⟩
    obtain rfl : q = i := by omega
    obtain ⟨t', ht', hkind, -⟩ := parens_iff.1 hpq
    rw [ht, Option.some.injEq] at ht'
    exact (not_barrier_of_ownsScope howns).2 (ht' ▸ hkind)
  passes k hk hk' := by omega

/-- The search finds a keyword if and only if it can be reached. -/
theorem ownerSearch_some_iff (hts : ParensNest ts) {i w : Nat} :
    OwnerSearch ts taken i (some w) ↔ Reaches ts taken w i := by
  constructor
  · intro h
    generalize hr : some w = r at h
    induction h with
    | start => cases hr
    | barrier => cases hr
    | unopened => cases hr
    | jump ht hkind hpartner rest ih =>
      exact (reaches_jump_iff hts (parens_iff.2 ⟨_, ht, hkind, hpartner⟩)).2 (ih hr)
    | found ht howns hfree =>
      cases hr
      exact reaches_succ_self ht howns hfree
    | pass ht h rest ih => exact (reaches_pass_iff ht h).2 (ih hr)
  · intro h
    induction i using Nat.strong_induction_on with
    | _ i ih =>
      obtain ⟨i, rfl⟩ : ∃ j, i = j + 1 := ⟨i - 1, by have := h.lt; omega⟩
      by_cases hwi : w = i
      · subst hwi
        obtain ⟨t, ht, howns⟩ := h.owns
        exact .found ht howns h.free
      · have hlt := h.lt
        -- the last token is a group's end or lets the search pass
        rcases h.passes i (by omega) (Nat.lt_succ_self i) with
          ⟨p, q, hpq, -, hq, hqi⟩ | ⟨t, ht, hpass⟩
        · obtain rfl : q = i := by omega
          obtain ⟨t, ht, hkind, hpartner⟩ := parens_iff.1 hpq
          have hpq' := hts.lt p q hpq
          exact .jump ht hkind hpartner (ih p (by omega) ((reaches_jump_iff hts hpq).1 h))
        · exact .pass ht hpass (ih i (Nat.lt_succ_self i) ((reaches_pass_iff ht hpass).1 h))

end

/-! ## Linked parentheses -/

theorem parensNest_linked {ts : List Token} (hts : ∀ t ∈ ts, t.partner = none) :
    ParensNest (linked ts) := by
  have hpair {p q : Nat} (h : Parens (linked ts) p q) : (p, q) ∈ Bracket.round.pairs ts :=
    mem_pairs_of_closesAt hts ((kind_linked ts q).symm.trans h.closes) h.partner
  constructor
  · exact fun p q h => (Bracket.spans_of_mem_pairs (hpair h)).lt
  · intro p q p' q' h h' hlt
    have hne : (p, q) ≠ (p', q') := by
      rintro ⟨⟩
      exact Nat.lt_irrefl _ hlt
    have hapart := (Bracket.round.pairs_apart ts).forall (hpair h) (hpair h') hne
    have hpq := (Bracket.spans_of_mem_pairs (hpair h)).lt
    simp only [Apart] at hapart
    omega

theorem SameLinks.parensNest {ts us : Array Token} (h : SameLinks ts us) (hts : ParensNest ts) :
    ParensNest us := by
  have hparens {p q : Nat} (hpq : Parens us p q) : Parens ts p q :=
    ⟨(h.kind_eq q).symm.trans hpq.closes, (h.partnerOf_eq q).symm.trans hpq.partner⟩
  exact ⟨fun p q hpq => hts.lt p q (hparens hpq),
    fun p q p' q' hpq hpq' => hts.apart p q p' q' (hparens hpq) (hparens hpq')⟩

/-! ## The structure of a list of tokens -/

section Structure

variable {ts : List Token} (hts : ∀ t ∈ ts, t.partner = none ∧ t.scope = none)
include hts

theorem unlinked_settleNames : ∀ t ∈ settleNames ts, t.partner = none ∧ t.scope = none := by
  intro t ht
  obtain ⟨u, hu, he, -⟩ := mem_settleFrom ht
  rw [he]
  exact hts u hu

theorem sameLinks_withStructure : SameLinks (linked (settleNames ts)) (withStructure ts) :=
  .of_map (withStructure_getElem? fun t ht => (hts t ht).2) fun _ _ => ⟨rfl, rfl⟩

/-- The owners around tokens do not change the scopes. -/
theorem scopeOf_withStructure (i : Nat) :
    scopeOf (withStructure ts) i = scopeOf (markScopes (linked (settleNames ts))) i := by
  have hscope : ∀ t ∈ ts, t.scope = none := fun t ht => (hts t ht).2
  rw [scopeOf, scopeOf, withStructure_getElem? hscope, markScopes_linked_settleNames hscope]
  cases (linked (settleNames ts))[i]? <;> rfl

/-- The scope at an opening brace has the owner that can be reached from the brace. -/
theorem scopeOf_opener_withStructure {o : Nat}
    (ho : Bracket.curly.OpensAt (withStructure ts).toList o) {s : Scope} :
    scopeOf (withStructure ts) o = some s ↔
      s.opener = o ∧ partnerOf (withStructure ts) o = some s.closer ∧
        Reaches (withStructure ts) (OwnsBefore (withStructure ts) o) s.owner o := by
  have hsettled := unlinked_settleNames hts
  have hpartner : ∀ t ∈ settleNames ts, t.partner = none := fun t ht => (hsettled t ht).1
  have hscope := scope_linked fun t ht => (hsettled t ht).2
  have hscoped := wellScoped_markScopes hscope (closesBackwards_linked hpartner)
    (mem_pairs_linked_iff hpartner .curly) fun _ _ => partnerOf_linked_comm hpartner
  have hlinks := sameLinks_withStructure hts
  have hsame := (sameLinks_markScopes hscope).symm.trans hlinks
  have howns : OwnsBefore (withStructure ts) o =
      OwnsBefore (markScopes (linked (settleNames ts))) o := by
    funext i
    simp only [OwnsBefore, Recorded, scopeOf_withStructure hts]
  rw [← ownerSearch_some_iff (hlinks.parensNest (parensNest_linked hpartner)),
    scopeOf_withStructure hts, hscoped.scopeOf_opener ((hsame.opensAt_iff .curly o).1 ho),
    hsame.partnerOf_eq, hsame.ownerSearch_iff, howns]

end Structure

/-! ## Braces around names -/

/-- Tokens after which braces hold names and no block. -/
def TokenKind.announcesNames : TokenKind → Bool
  | .objectOperator | .nullsafeOperator | .doubleColon | .dollar | .nsSeparator => true
  | _ => false

theorem passes_of_announcesNames (taken : Nat → Prop) (i : Nat) {kind : TokenKind}
    (h : kind.announcesNames = true) : Passes taken i kind := by
  have hkind : endsOwnerSearch kind = false ∧ kind ≠ .closeParen ∧ kind.ownsScope = false := by
    cases kind <;> first | decide | cases h
  refine ⟨hkind.1, hkind.2.1, fun howns => ?_⟩
  rw [hkind.2.2] at howns
  cases howns

theorem passes_of_isLayout (taken : Nat → Prop) (i : Nat) {kind : TokenKind}
    (h : kind.isLayout = true) : Passes taken i kind := by
  obtain ⟨hends, hclose, hkind⟩ := Embeds.not_owner_of_layout h
  refine ⟨hends, hclose, fun howns => ?_⟩
  rw [hkind] at howns
  cases howns

theorem reaches_iff_of_passes {ts : Array Token} {taken : Nat → Prop} {w p o : Nat} (hpo : p ≤ o)
    (h : ∀ k, p ≤ k → k < o → ∃ t, ts[k]? = some t ∧ Passes taken k t.kind) :
    Reaches ts taken w o ↔ Reaches ts taken w p := by
  induction o, hpo using Nat.le_induction with
  | base => rfl
  | succ o hpo ih =>
    obtain ⟨t, ht, hpass⟩ := h o hpo (Nat.lt_succ_self o)
    rw [reaches_pass_iff ht hpass, ih fun k hpk hko => h k hpk (Nat.lt_succ_of_lt hko)]

/-- The search passes the token before a brace around names, and the layout between the two. -/
theorem passes_of_isPrevious {ts : Array Token} (taken : Nat → Prop) {o p : Nat}
    (ho : Bracket.curly.OpensAt ts.toList o) (hp : IsPrevious ts.toList p o)
    (hkind : ts.toList[p]?.any (fun t => t.kind.announcesNames) = true) {k : Nat} (hpk : p ≤ k)
    (hko : k < o) : ∃ t, ts[k]? = some t ∧ Passes taken k t.kind := by
  by_cases hk : k = p
  · subst hk
    obtain ⟨t, ht, hnames⟩ := (Option.any_eq_true _ _).1 hkind
    rw [Array.getElem?_toList] at ht
    exact ⟨t, ht, passes_of_announcesNames _ _ hnames⟩
  · obtain ⟨brace, hbrace, -⟩ := Option.map_eq_some_iff.1 ho
    have hsize : k < ts.size := Nat.lt_trans hko (List.getElem?_eq_some_iff.1 hbrace).1
    have ht : ts[k]? = some ts[k] := Array.getElem?_eq_getElem hsize
    have hlayout := hp.layout k (by omega) hko
    rw [Array.getElem?_toList, ht, Option.any_some] at hlayout
    exact ⟨_, ht, passes_of_isLayout _ _ (Token.isLayout_of_not_significant hlayout)⟩

/-- Braces around names have no scope if and only if they are not linked or no keyword can be
reached from the token before them. -/
theorem scope_of_names_iff {ts : List Token}
    (hts : ∀ t ∈ ts, t.partner = none ∧ t.scope = none) {o p : Nat}
    (ho : Bracket.curly.OpensAt (withStructure ts).toList o)
    (hp : IsPrevious (withStructure ts).toList p o)
    (hkind : (withStructure ts).toList[p]?.any (fun t => t.kind.announcesNames) = true) :
    scopeOf (withStructure ts) o = none ↔
      partnerOf (withStructure ts) o = none ∨
        ∀ w, ¬ Reaches (withStructure ts) (OwnsBefore (withStructure ts) o) w p := by
  have hreaches (w : Nat) := reaches_iff_of_passes (w := w) (Nat.le_of_lt hp.lt) fun k hpk hko =>
    passes_of_isPrevious (OwnsBefore (withStructure ts) o) ho hp hkind hpk hko
  constructor
  · intro hnone
    cases hpartner : partnerOf (withStructure ts) o with
    | none => exact Or.inl rfl
    | some c =>
      refine Or.inr fun w hw => ?_
      have hscope : scopeOf (withStructure ts) o = some ⟨w, o, c⟩ :=
        (scopeOf_opener_withStructure hts ho).2 ⟨rfl, hpartner, (hreaches w).2 hw⟩
      rw [hnone] at hscope
      cases hscope
  · intro h
    refine Option.eq_none_iff_forall_ne_some.2 fun s hs => ?_
    obtain ⟨-, hpartner, hreach⟩ := (scopeOf_opener_withStructure hts ho).1 hs
    rcases h with hnone | hnot
    · rw [hnone] at hpartner
      cases hpartner
    · exact hnot s.owner ((hreaches s.owner).1 hreach)

/-- The braces of a group of classes have no scope: `use` is no keyword with a block. -/
theorem scope_of_names_iff_classes :
    let token (kind : TokenKind) (text : String) : Token := { kind, text, line := 1, column := 1 }
    let ts := [token .kwUse "use", token .name "Foo", token .nsSeparator "\\",
      token .openBrace "\x7b", token .name "A", token .closeBrace "\x7d"]
    (∀ t ∈ ts, t.partner = none ∧ t.scope = none) ∧
      Bracket.curly.OpensAt (withStructure ts).toList 3 ∧
      IsPrevious (withStructure ts).toList 2 3 ∧
      (withStructure ts).toList[2]?.any (fun t => t.kind.announcesNames) = true ∧
      partnerOf (withStructure ts) 3 = some 5 ∧ scopeOf (withStructure ts) 3 = none := by
  intro token ts
  have hts : ∀ t ∈ ts, t.partner = none ∧ t.scope = none := by decide
  have ho : Bracket.curly.OpensAt (withStructure ts).toList 3 := by decide +kernel
  have hp : IsPrevious (withStructure ts).toList 2 3 :=
    ⟨by decide, by decide +kernel, fun k hk hk' => by omega⟩
  have hkind : (withStructure ts).toList[2]?.any (fun t => t.kind.announcesNames) = true := by
    decide +kernel
  have howns : ∀ w < 2, (withStructure ts)[w]?.any (fun t => t.kind.ownsScope) = false := by
    decide +kernel
  refine ⟨hts, ho, hp, hkind, by decide +kernel, ?_⟩
  refine (scope_of_names_iff hts ho hp hkind).2 (Or.inr fun w hw => ?_)
  obtain ⟨t, ht, hkeyword⟩ := hw.owns
  have hnot := howns w hw.lt
  rw [ht, Option.any_some, hkeyword] at hnot
  cases hnot

/-- The braces of a group of functions, and those around the name of a member after an `if` without
a block, get a scope. -/
theorem names_in_scope :
    let l := Listing.ofText "<?php use function Foo\\\x7ba, b\x7d;"
    let m := Listing.ofText "<?php if ($x) $o->\x7b$n\x7d = 1;"
    (l.kind? 8 = some .openBrace ∧ l.kindAt? (l.previous? 8) = some .nsSeparator ∧
      (l.get? 8).bind Token.scope = some ⟨4, 8, 13⟩) ∧
    m.kind? 10 = some .openBrace ∧ m.kindAt? (m.previous? 10) = some .objectOperator ∧
      (m.get? 10).bind Token.scope = some ⟨2, 10, 12⟩ := by
  decide +kernel

end Vintage
