import Mathlib.Order.WellFounded
import Vintage.Proofs.Layout.Passes
import Vintage.Proofs.ScopeOwners

/-!
# Renumbering tokens

Tokens refer to other tokens by position, so leaving out layout changes what they say. There is one
way to number the significant tokens of a list in their order, and under it nothing else changes:
the passes look behind, ahead and along links at significant tokens only.

Results:
* `Numbers.unique`: the significant tokens are numbered in one way.
* `significant_of_refers`: tokens refer to significant tokens only.
* `withStructure_without_layout`: the passes give the same structure with and without layout.
-/

namespace Vintage

/-! ## Numbers of significant tokens -/

/-- The function numbers the significant tokens of the list in their order. -/
structure Numbers (ts : List Token) (f : Nat → Nat) : Prop where
  ascending : ∀ j k, j < k → k < (ts.filter Token.isSignificant).length → f j < f k
  range_iff : ∀ i, (∃ k < (ts.filter Token.isSignificant).length, f k = i) ↔
    ts[i]?.any Token.isSignificant = true

theorem numbers_sourceIndex (ts : List Token) : Numbers ts (sourceIndex ts) where
  ascending _ _ hjk _ := sourceIndex_strictMono ts hjk
  range_iff i := by
    constructor
    · rintro ⟨k, hk, rfl⟩
      have ht : (ts.filter Token.isSignificant)[k]? = some (ts.filter Token.isSignificant)[k] :=
        List.getElem?_eq_getElem hk
      rw [getElem?_sourceIndex, ht, Option.any_some]
      exact List.of_mem_filter (List.mem_of_getElem? ht)
    · intro hi
      -- a position that is left out holds layout
      have hex : ∃ k, sourceIndex ts k = i := by
        by_contra hnone
        obtain ⟨t, ht, hlayout⟩ := layout_of_forall_ne fun k hk => hnone ⟨k, hk⟩
        rw [ht, Option.any_some, hlayout] at hi
        cases hi
      obtain ⟨k, rfl⟩ := hex
      rw [getElem?_sourceIndex] at hi
      refine ⟨k, ?_, rfl⟩
      by_contra hk
      rw [List.getElem?_eq_none (by omega)] at hi
      cases hi

/-- Two functions that number the significant tokens agree on all numbers of such tokens. -/
theorem Numbers.unique {ts : List Token} {f g : Nat → Nat} (hf : Numbers ts f) (hg : Numbers ts g)
    {k : Nat} (hk : k < (ts.filter Token.isSignificant).length) : f k = g k := by
  have mono {f : Nat → Nat} (hf : Numbers ts f) :
      StrictMono fun k : Fin (ts.filter Token.isSignificant).length => f k :=
    fun j k hjk => hf.ascending j k hjk k.isLt
  have range {f : Nat → Nat} (hf : Numbers ts f) :
      Set.range (fun k : Fin (ts.filter Token.isSignificant).length => f k) =
        {i | ts[i]?.any Token.isSignificant = true} := by
    ext i
    rw [Set.mem_range, Set.mem_ofPred_eq, ← hf.range_iff, Fin.exists_iff]
    simp only [exists_prop]
  have heq := ((mono hf).range_inj (mono hg)).1 ((range hf).trans (range hg).symm)
  exact congrFun heq ⟨k, hk⟩

/-! ## References -/

/-- The token refers to the token at position `j`. -/
inductive Token.Refers (t : Token) : Nat → Prop
  | partner {j : Nat} (h : t.partner = some j) : t.Refers j
  | parenOwner {j : Nat} (h : t.parenOwner = some j) : t.Refers j
  | scope {s : Scope} {j : Nat} (h : t.scope = some s) (hj : s.touches j = true) : t.Refers j
  | surrounding {j : Nat} (h : j ∈ t.owners) : t.Refers j

/-- Renumbering depends on the numbers of the tokens that are referred to. -/
theorem Token.reindex_congr {t : Token} {f g : Nat → Nat} (h : ∀ j, t.Refers j → f j = g j) :
    t.reindex f = t.reindex g := by
  have hpartner : t.partner.map f = t.partner.map g :=
    Option.map_congr fun j hj => h j (.partner hj)
  have hparen : t.parenOwner.map f = t.parenOwner.map g :=
    Option.map_congr fun j hj => h j (.parenOwner hj)
  have hscope : t.scope.map (Scope.reindex f) = t.scope.map (Scope.reindex g) := by
    refine Option.map_congr fun s hs => ?_
    have hsame {j : Nat} (hj : s.owner = j ∨ s.opener = j ∨ s.closer = j) : f j = g j :=
      h j (.scope hs (Scope.touches_iff.2 hj))
    rw [Scope.reindex, Scope.reindex, hsame (.inl rfl), hsame (.inr (.inl rfl)),
      hsame (.inr (.inr rfl))]
  have howners : t.owners.map f = t.owners.map g :=
    List.map_congr_left fun j hj => h j (.surrounding hj)
  rw [Token.reindex, Token.reindex, hpartner, hparen, hscope, howners]

section Targets

variable {ts : List Token}

theorem size_withStructure (hts : ∀ t ∈ ts, t.scope = none) :
    (withStructure ts).size = ts.length := by
  rw [size_eq_of_getElem?_map (withStructure_getElem? hts), size_linked_settleNames]

theorem isLayout_of_ownsParens {kind : TokenKind} (h : ownsParens kind = true) :
    kind.isLayout = false := by
  revert h
  cases kind <;> decide

theorem isLayout_of_ownsScope {kind : TokenKind} (h : kind.ownsScope = true) :
    kind.isLayout = false := by
  revert h
  cases kind <;> decide

theorem Bracket.isLayout_opener (b : Bracket) : b.opener.isLayout = false := by cases b <;> rfl

theorem Bracket.isLayout_closer (b : Bracket) : b.closer.isLayout = false := by cases b <;> rfl

/-- The partner of a bracket is a bracket. -/
theorem significant_of_partner (hts : ∀ t ∈ ts, t.Bare) {k j : Nat} {t : Token}
    (ht : (linked (settleNames ts))[k]? = some t) (h : t.partner = some j) :
    ∃ kind : TokenKind, (linked (settleNames ts))[j]?.map Token.kind = some kind ∧
      kind.isLayout = false := by
  have hbare := bare_settleNames hts
  have hpartner : partnerOf (linked (settleNames ts)) k = some j := by
    rw [partnerOf, ht, Option.bind_some, h]
  have hkind := kind_linked (settleNames ts) j
  obtain ⟨b, hpair | hpair⟩ := (partnerOf_linked fun t ht => (hbare t ht).partner).1 hpartner
  · exact ⟨b.closer, hkind.trans (b.kind_of_mem_pairs hpair).2.2, b.isLayout_closer⟩
  · exact ⟨b.opener, hkind.trans (b.kind_of_mem_pairs hpair).2.1, b.isLayout_opener⟩

/-- The owner of a parenthesis is a name or a keyword. -/
theorem significant_of_parenOwner (hts : ∀ t ∈ ts, t.Bare) {k j : Nat} {t : Token}
    (ht : (linked (settleNames ts))[k]? = some t) (h : t.parenOwner = some j) :
    ∃ kind : TokenKind, (linked (settleNames ts))[j]?.map Token.kind = some kind ∧
      kind.isLayout = false := by
  have hbare := bare_settleNames hts
  rw [linked, ownParens_getElem?] at ht
  obtain ⟨u, hu, rfl⟩ := Option.map_eq_some_iff.1 ht
  have hnone : u.parenOwner = none := by
    rw [linkBrackets_getElem?, List.getElem?_toArray] at hu
    obtain ⟨v, hv, rfl⟩ := Option.map_eq_some_iff.1 hu
    exact (hbare v (List.mem_of_getElem? hv)).parenOwner
  -- both parentheses take the owner that is looked up before the opening one
  obtain ⟨o, ho⟩ : ∃ o, parenOwnerAt? (linkBrackets (settleNames ts).toArray) o = some j := by
    simp only [parenOwnerOf?] at h
    split at h
    · exact ⟨_, h⟩
    · exact ⟨_, h⟩
    · rw [hnone] at h
      cases h
  have howns := (parenOwnerAt?_eq_some_iff.1 ho).2
  rw [any_linkBrackets] at howns
  obtain ⟨v, hv, howns⟩ := (Option.any_eq_true _ _).1 howns
  refine ⟨v.kind, ?_, isLayout_of_ownsParens howns⟩
  exact (kind_linked (settleNames ts) j).trans (by rw [hv, Option.map_some])

/-- A scope is described by its owner and its braces. -/
theorem significant_of_touches {us : Array Token} {s : Scope} (hs : s ∈ Scope.findAll us) {j : Nat}
    (hj : s.touches j = true) :
    ∃ kind : TokenKind, us[j]?.map Token.kind = some kind ∧ kind.isLayout = false := by
  have hplaced := Scope.findAll_placed hs
  rcases Scope.touches_iff.1 hj with rfl | rfl | rfl
  · obtain ⟨t, ht, howns⟩ := hplaced.owner_kind
    exact ⟨t.kind, by rw [ht, Option.map_some], isLayout_of_ownsScope howns⟩
  · exact ⟨.openBrace, hplaced.opener_kind, rfl⟩
  · exact ⟨.closeBrace, hplaced.closer_kind, rfl⟩

/-- Tokens refer to significant tokens only. -/
theorem significant_of_refers (hts : ∀ t ∈ ts, t.Bare) {k j : Nat} {t : Token}
    (ht : (withStructure ts)[k]? = some t) (h : t.Refers j) :
    (withStructure ts)[j]?.any Token.isSignificant = true := by
  have hscope : ∀ t ∈ ts, t.scope = none := fun t ht => (hts t ht).scope
  rw [withStructure_getElem? hscope] at ht
  obtain ⟨u, hu, rfl⟩ := Option.map_eq_some_iff.1 ht
  obtain ⟨kind, hkind, hlayout⟩ :
      ∃ kind : TokenKind, (linked (settleNames ts))[j]?.map Token.kind = some kind ∧
        kind.isLayout = false := by
    cases h with
    | partner h => exact significant_of_partner hts hu h
    | parenOwner h => exact significant_of_parenOwner hts hu h
    | scope h hj => exact significant_of_touches (scopeAt?_eq_some_iff.1 h).1 hj
    | surrounding h =>
      obtain ⟨s, hs, rfl⟩ := List.mem_map.1 h
      exact significant_of_touches (mem_around.1 hs).1 (Scope.touches_iff.2 (.inl rfl))
  obtain ⟨v, hv, rfl⟩ := Option.map_eq_some_iff.1 hkind
  rw [withStructure_getElem? hscope, hv, Option.map_some, Option.any_some, Token.isSignificant,
    hlayout]
  rfl

/-- Tokens refer to tokens of their list. -/
theorem lt_length_of_refers (hts : ∀ t ∈ ts, t.Bare) {k j : Nat} {t : Token}
    (ht : (withStructure ts)[k]? = some t) (h : t.Refers j) : j < ts.length := by
  obtain ⟨u, hu, -⟩ := (Option.any_eq_true _ _).1 (significant_of_refers hts ht h)
  rw [← size_withStructure fun t ht => (hts t ht).scope]
  exact (Array.getElem?_eq_some_iff.1 hu).1

end Targets

/-! ## The passes without layout -/

/-- The significant tokens can be numbered in their order. Under that numbering each of them gets
the structure that it gets when layout is left out first: its kind, text and place are the same, and
so are its partner, the owner of its parentheses, its scope and the owners around it. -/
theorem withStructure_without_layout {ts : List Token} (hts : ∀ t ∈ ts, t.Bare) :
    (∃ f, Numbers ts f) ∧ ∀ f, Numbers ts f →
      (withStructure ts).size = ts.length ∧
      (withStructure (ts.filter Token.isSignificant)).size =
        (ts.filter Token.isSignificant).length ∧
      ∀ k < (ts.filter Token.isSignificant).length, ∃ t,
        (withStructure (ts.filter Token.isSignificant))[k]? = some t ∧
        (withStructure ts)[f k]? = some (t.reindex f) := by
  have hts' : ∀ t ∈ ts.filter Token.isSignificant, t.Bare :=
    fun t ht => hts t (List.mem_of_mem_filter ht)
  have hsize := size_withStructure fun t ht => (hts t ht).scope
  have hsize' := size_withStructure fun t ht => (hts' t ht).scope
  refine ⟨⟨_, numbers_sourceIndex ts⟩, fun f hf => ⟨hsize, hsize', fun k hk => ?_⟩⟩
  have hsame {j : Nat} (hj : j < (ts.filter Token.isSignificant).length) :
      f j = sourceIndex ts j := hf.unique (numbers_sourceIndex ts) hj
  have ht := Array.getElem?_eq_getElem (hsize' ▸ hk)
  refine ⟨_, ht, ?_⟩
  rw [hsame hk, (embeds_withStructure hts).get? k, ht, Option.map_some]
  congr 1
  exact Token.reindex_congr fun j hj => (hsame (lt_length_of_refers hts' ht hj)).symm

/-- A condition with a comment in its parentheses and one before its block. -/
def commentedBlock : List Token :=
  [{ kind := .kwIf, text := "if", line := 1, column := 7 },
   { kind := .whitespace, text := " ", line := 1, column := 9 },
   { kind := .openParen, text := "(", line := 1, column := 10 },
   { kind := .variableName, text := "$a", line := 1, column := 11 },
   { kind := .comment, text := "/* b */", line := 1, column := 13 },
   { kind := .closeParen, text := ")", line := 1, column := 20 },
   { kind := .docComment, text := "/** c */", line := 1, column := 21 },
   { kind := .openBrace, text := "\x7b", line := 1, column := 29 },
   { kind := .whitespace, text := " ", line := 1, column := 30 },
   { kind := .closeBrace, text := "\x7d", line := 1, column := 31 }]

theorem withStructure_without_layout_block :
    (∀ t ∈ commentedBlock, t.Bare) ∧ Numbers commentedBlock (sourceIndex commentedBlock) ∧
      scopeOf (withStructure (commentedBlock.filter Token.isSignificant)) 4 = some ⟨0, 4, 5⟩ ∧
      ∃ t, (withStructure (commentedBlock.filter Token.isSignificant))[4]? = some t ∧
        (withStructure commentedBlock)[7]? = some (t.reindex (sourceIndex commentedBlock)) := by
  have hbare : ∀ t ∈ commentedBlock, t.Bare := by decide
  have hnumbers := numbers_sourceIndex commentedBlock
  refine ⟨hbare, hnumbers, by decide +kernel, ?_⟩
  exact ((withStructure_without_layout hbare).2 _ hnumbers).2.2 4 (by decide)

end Vintage
