import Vintage.Proofs.ConstantNames
import Vintage.Proofs.Layout.Findings
import Vintage.Proofs.Signatures.AttributeGroups

/-!
# Names in types

The types of a signature are found in two ways: by reading the signature, and by a guess from the
tokens next to a name, which is to keep the names in types from being taken for constants. The guess
knows a type by the variable or the bracket after it, and a return type by the colon before it, so
it misses names before `|`, `&` or `)`.

Results:
* `Listing.TypeStretch.isGlobalConstant_iff`: the guess at a name among the tokens of a type.
* `Listing.isGlobalConstant_in_types`: which names in the types of a signature are taken for
  constants.
-/

namespace Vintage

namespace Listing

/-! ## Stretches of type tokens -/

/-- The tokens from one position up to another are those of a type, with layout between them. -/
structure TypeStretch (l : Listing) (start stop : Nat) : Prop where
  first : (l.get? start).any Token.isSignificant = true
  last : (l.get? (stop - 1)).any Token.isSignificant = true
  inside : ∀ j, start ≤ j → j < stop → ∀ k, l.kind? j = some k →
    k.isLayout = true ∨ k.isOfType = true

namespace TypeStretch

variable {l : Listing} {start stop i : Nat} (h : l.TypeStretch start stop)
include h

theorem exists_kind {j : Nat} (hlow : start ≤ j) (hhigh : j < stop)
    (hsig : (l.get? j).any Token.isSignificant = true) :
    ∃ k, l.kind? j = some k ∧ k.isOfType = true := by
  obtain ⟨t, ht, hsig⟩ := (Option.any_eq_true _ _).1 hsig
  have hkind : l.kind? j = some t.kind := by rw [kind?, ht, Option.map_some]
  refine ⟨t.kind, hkind, (h.inside j hlow hhigh _ hkind).resolve_left fun hlayout => ?_⟩
  rw [Token.isSignificant, hlayout] at hsig
  cases hsig

theorem exists_previous (hlow : start < i) (hhigh : i ≤ stop) :
    ∃ q k, l.previous? i = some q ∧ start ≤ q ∧ q < i ∧ l.kind? q = some k ∧
      k.isOfType = true := by
  obtain ⟨q, hq, hle⟩ := exists_previous? h.first hlow
  obtain ⟨hlt, hsig, -⟩ := previous?_eq_some_iff.1 hq
  obtain ⟨k, hk, htype⟩ := h.exists_kind hle (by omega) hsig
  exact ⟨q, k, hq, hle, hlt, hk, htype⟩

theorem exists_next (hlow : start ≤ i) (hhigh : i < stop - 1) :
    ∃ k, l.kindAt? (l.next? i) = some k ∧ k.isOfType = true := by
  obtain ⟨n, hn, hlt, hle⟩ := exists_next? h.last hhigh
  obtain ⟨-, -, t, ht, hsig⟩ := firstIn?_eq_some hn
  obtain ⟨k, hk, htype⟩ := h.exists_kind (j := n) (by omega) (by omega) (by rw [ht]; exact hsig)
  exact ⟨k, by rw [hn]; exact hk, htype⟩

/-- The token before a whole name is the one before the type, or one of the type. -/
theorem beforeWhole?_cases (houter : l.kindAt? (l.previous? start) ≠ some .nsSeparator)
    (hlow : start ≤ i) (hhigh : i < stop) :
    l.beforeWhole? i = l.previous? start ∨ ∃ b k, l.beforeWhole? i = some b ∧ start ≤ b ∧ b < stop ∧
      l.kind? b = some k ∧ k.isOfType = true := by
  rcases Nat.eq_or_lt_of_le hlow with rfl | hlt
  · exact Or.inl (by rw [beforeWhole?, if_neg (by simpa using houter)])
  · obtain ⟨q, k, hq, hle, hqi, hk, htype⟩ := h.exists_previous hlt (Nat.le_of_lt hhigh)
    have hkind : l.kindAt? (some q) = some k := hk
    by_cases hsep : k = .nsSeparator
    · have hwhole : l.beforeWhole? i = l.previous? q := by
        rw [beforeWhole?, hq, hkind, hsep]
        rfl
      rw [hwhole]
      rcases Nat.eq_or_lt_of_le hle with rfl | hlt'
      · exact Or.inl rfl
      · obtain ⟨b, j, hb, hle', hlt', hj, htype'⟩ := h.exists_previous hlt' (by omega)
        exact Or.inr ⟨b, j, hb, hle', by omega, hj, htype'⟩
    · have hwhole : l.beforeWhole? i = some q := by
        rw [beforeWhole?, hq, hkind, if_neg (by simpa using hsep)]
      exact Or.inr ⟨q, k, hwhole, hle, by omega, hk, htype⟩

/-- After a name of the type stands another token of it, or the one after the type. -/
theorem next_ne (hlow : start ≤ i) (hhigh : i < stop) {k : TokenKind} (hk : k.isOfType = false)
    (hafter : l.kindAt? (l.next? (stop - 1)) ≠ some k) : l.kindAt? (l.next? i) ≠ some k := by
  rcases Nat.lt_or_ge i (stop - 1) with hlt | hge
  · obtain ⟨j, hj, htype⟩ := h.exists_next hlow hlt
    rw [hj]
    rintro ⟨⟩
    cases hk.symm.trans htype
  · rwa [show i = stop - 1 by omega]

end TypeStretch

end Listing

/-- Tokens that may stand before the type of a parameter: the parenthesis of the parameters, a
comma, the end of an attribute or a modifier. -/
def TokenKind.mayPrecedeType (k : TokenKind) : Bool :=
  k.isModifier || k == .openParen || k == .comma || k == .closeSquare

/-- A name after a token of the kind is neither a declaration nor a member or a class, an `&`
apart. -/
def TokenKind.isHarmless (k : TokenKind) : Bool :=
  !k.declaresName && !k.isMemberAccess && k != .kwNew && !Listing.announcesClass k

theorem TokenKind.isHarmless_of_isOfType {k : TokenKind} (h : k.isOfType = true)
    (hne : k ≠ .kwNamespace) : k.isHarmless = true := by
  cases k <;> first | rfl | exact absurd rfl hne | cases h

theorem TokenKind.isHarmless_of_mayPrecedeType {k : TokenKind} (h : k.mayPrecedeType = true) :
    k.isHarmless = true ∧ k ≠ .ampersand := by
  cases k <;> first | exact ⟨rfl, by decide⟩ | cases h

namespace Listing

theorem harmless_of_kind {l : Listing} {before : Option Nat} {k : TokenKind}
    (hk : l.kindAt? before = some k) (h : k.isHarmless = true)
    (hreference : k = .ampersand → l.kindAt? (l.previousOf? before) ≠ some .kwFunction) :
    l.declares before = false ∧ (l.kindAt? before).any TokenKind.isMemberAccess = false ∧
      l.kindAt? before ≠ some .kwNew ∧ (l.kindAt? before).any announcesClass = false := by
  simp only [TokenKind.isHarmless, Bool.and_eq_true, Bool.not_eq_true', bne_iff_ne, and_assoc] at h
  obtain ⟨hdeclares, hmember, hnew, hclass⟩ := h
  refine ⟨?_, ?_, ?_, ?_⟩
  · rw [declares, hk]
    split
    · rename_i heq
      exact beq_eq_false_iff_ne.2 (hreference (Option.some.inj heq))
    · rename_i heq
      exact Option.some.inj heq ▸ hdeclares
    · rfl
  · rwa [hk, Option.any_some]
  · rw [hk]
    exact fun heq => hnew (Option.some.inj heq)
  · rwa [hk, Option.any_some]

/-- What stands before a type: a token that may, the colon of a return type, or the word `namespace`
that is left out of the type. -/
def TypeFollows (l : Listing) (start : Nat) (b : TokenKind) : Prop :=
  b.mayPrecedeType = true ∨ b = .colon ∨ b = .kwNamespace ∧ l.kind? start = some .nsSeparator

namespace TypeStretch

variable {l : Listing} {start stop i : Nat} (h : l.TypeStretch start stop) {b : TokenKind}
  (hb : l.kindAt? (l.previous? start) = some b) (hfollows : l.TypeFollows start b)
include h hb

/-- Before a token of the type stands another one, or the one before the type. -/
theorem kindAt?_previous (hlow : start ≤ i) (hhigh : i ≤ stop) :
    ∃ k, l.kindAt? (l.previous? i) = some k ∧ (k.isOfType = true ∨ k = b) := by
  rcases Nat.eq_or_lt_of_le hlow with rfl | hlt
  · exact ⟨b, hb, Or.inr rfl⟩
  · obtain ⟨q, k, hq, -, -, hk, htype⟩ := h.exists_previous hlt hhigh
    exact ⟨k, by rw [hq]; exact hk, Or.inl htype⟩

include hfollows

/-- The token before a name of the type makes it neither a declaration nor a member or a class. -/
theorem harmless (hname : l.LooksConstant i) (hlow : start ≤ i) (hhigh : i < stop) :
    l.declares (l.beforeWhole? i) = false ∧
      (l.kindAt? (l.beforeWhole? i)).any TokenKind.isMemberAccess = false ∧
      l.kindAt? (l.beforeWhole? i) ≠ some .kwNew ∧
      (l.kindAt? (l.beforeWhole? i)).any announcesClass = false := by
  have hne := hname.before_ne
  have houter : l.kindAt? (l.previous? start) ≠ some .nsSeparator := by
    rw [hb]
    rintro ⟨⟩
    rcases hfollows with hb | hb | ⟨hb, -⟩ <;> cases hb
  rcases h.beforeWhole?_cases houter hlow hhigh with heq | ⟨j, k, heq, hlow', hhigh', hk, htype⟩
  · rw [heq, hb] at hne
    rw [heq]
    have hharmless : b.isHarmless = true ∧ b ≠ .ampersand := by
      rcases hfollows with hb | rfl | ⟨rfl, -⟩
      · exact TokenKind.isHarmless_of_mayPrecedeType hb
      · exact ⟨rfl, by decide⟩
      · exact absurd rfl hne
    exact harmless_of_kind hb hharmless.1 fun heq => absurd heq hharmless.2
  · rw [heq] at hne ⊢
    have hkind : l.kindAt? (some j) = some k := hk
    refine harmless_of_kind hkind (TokenKind.isHarmless_of_isOfType htype fun heq => ?_) fun _ => ?_
    · rw [hkind, heq] at hne
      exact hne rfl
    · obtain ⟨k', hk', hcase⟩ := h.kindAt?_previous hb hlow' (Nat.le_of_lt hhigh')
      rw [previousOf?, Option.bind_some, hk']
      rintro ⟨⟩
      rcases hcase with hcase | rfl
      · cases hcase
      · rcases hfollows with hb | hb | ⟨hb, -⟩ <;> cases hb

/-- A name of a type that looks like a constant is taken for one, unless it is known to be a return
type. -/
theorem isGlobalConstant_iff (hafter : l.kindAt? (l.next? (stop - 1)) ≠ some .colon)
    (hlow : start ≤ i) (hhigh : i < stop) (hlist : l.inClassList i = false) :
    l.isGlobalConstant i = true ↔
      l.LooksConstant i ∧ l.announcesReturnType (l.beforeWhole? i) = false := by
  have hcolon : l.kindAt? (l.next? i) ≠ some .colon := h.next_ne hlow hhigh rfl hafter
  have hother : l.isOtherName i (l.beforeWhole? i) = false ↔
      (l.kindAt? (l.next? i)).any excludesConstantBefore = false ∧
        (l.kindAt? (l.beforeWhole? i)).any announcesClass = false ∧
        l.announcesReturnType (l.beforeWhole? i) = false := by
    simp [isOtherName, hlist, hcolon, and_assoc]
  constructor
  · exact fun hconstant => ⟨looksConstant_of_isGlobalConstant hconstant,
      announcesReturnType_of_isGlobalConstant hconstant⟩
  · rintro ⟨hlooks, hreturn⟩
    obtain ⟨hdeclares, hmember, hnew, hclass⟩ := h.harmless hb hfollows hlooks hlow hhigh
    obtain ⟨hopen, hexcludes⟩ := any_barsConstant_eq_false_iff.1 hlooks.next
    exact (l.isGlobalConstant_iff i).2 ⟨hlooks.name, hlooks.unqualified, hopen, hdeclares, hmember,
      hnew, hother.2 ⟨hexcludes, hclass, hreturn⟩⟩

/-- A return type is announced only by the colon before the type. -/
theorem isReturnColon_of_announces (hlow : start ≤ i) (hhigh : i < stop)
    (hannounces : l.announcesReturnType (l.beforeWhole? i) = true) :
    l.isReturnColon (l.previous? start) = true ∧ (l.beforeWhole? i = l.previous? start ∨
      l.kindAt? (l.beforeWhole? i) = some .questionMark ∧
        l.previousOf? (l.beforeWhole? i) = l.previous? start) := by
  have hother : b ≠ .nsSeparator ∧ b ≠ .questionMark := by
    constructor <;> rintro rfl <;> rcases hfollows with hb | hb | ⟨hb, -⟩ <;> cases hb
  have houter : l.kindAt? (l.previous? start) ≠ some .nsSeparator := by
    rw [hb]
    exact fun heq => hother.1 (Option.some.inj heq)
  -- no colon stands among the tokens of the type
  have hinner {j : Nat} {k : TokenKind} (hk : l.kind? j = some k) (htype : k.isOfType = true) :
      l.isReturnColon (some j) ≠ true := fun hcolon => by
    have hkind : l.kindAt? (some j) = some k := hk
    rw [kindAt?_of_isReturnColon hcolon] at hkind
    cases hkind
    cases htype
  rcases announcesReturnType_iff.1 hannounces with hcolon | ⟨hquestion, hcolon⟩ <;>
    rcases h.beforeWhole?_cases houter hlow hhigh with
      heq | ⟨j, k, heq, hlow', hhigh', hk, htype⟩
  · exact ⟨heq ▸ hcolon, Or.inl heq⟩
  · exact absurd (heq ▸ hcolon) (hinner hk htype)
  · rw [heq, hb] at hquestion
    exact absurd (Option.some.inj hquestion) hother.2
  · rcases Nat.eq_or_lt_of_le hlow' with rfl | hlt
    · have hprevious : l.previousOf? (l.beforeWhole? i) = l.previous? start := by
        rw [heq, previousOf?, Option.bind_some]
      exact ⟨hprevious ▸ hcolon, Or.inr ⟨hquestion, hprevious⟩⟩
    · obtain ⟨q, k', hq, -, -, hk', htype'⟩ := h.exists_previous hlt (Nat.le_of_lt hhigh')
      rw [heq, previousOf?, Option.bind_some, hq] at hcolon
      exact absurd hcolon (hinner hk' htype')

end TypeStretch

/-! ## The first name of a return type -/

/-- The name is the first one after the colon, a `?` and a leading backslash apart. -/
def Leads (l : Listing) (colon i : Nat) : Prop :=
  l.kindsAt (l.significantBetween colon i) ∈
    [[], [.questionMark], [.nsSeparator], [.questionMark, .nsSeparator]]

instance (l : Listing) (colon i : Nat) : Decidable (l.Leads colon i) :=
  inferInstanceAs (Decidable (_ ∈ _))

section Between

variable {l : Listing} {c i q : Nat}

theorem significantBetween_nil (h : l.previous? i = some c) : l.significantBetween c i = [] := by
  refine List.filter_eq_nil_iff.2 fun j hj => ?_
  rw [List.mem_range'_1] at hj
  rw [(previous?_eq_some_iff.1 h).2.2 j (by omega) (by omega)]
  exact Bool.false_ne_true

theorem significantBetween_concat (h : l.previous? i = some q) (hc : c < q) :
    l.significantBetween c i = l.significantBetween c q ++ [q] := by
  obtain ⟨hlt, hsig, hlayout⟩ := previous?_eq_some_iff.1 h
  have hsplit : List.range' (c + 1) (i - (c + 1)) =
      List.range' (c + 1) (q - (c + 1)) ++ (q :: List.range' (q + 1) (i - (q + 1))) := by
    rw [← List.range'_succ, show i - (q + 1) + 1 = i - q by omega,
      show i - (c + 1) = q - (c + 1) + (i - q) by omega, ← List.range'_append_1,
      show c + 1 + (q - (c + 1)) = q by omega]
  have hnil := significantBetween_nil h
  rw [significantBetween] at hnil
  rw [significantBetween, significantBetween, hsplit, List.filter_append, List.filter_cons,
    if_pos hsig, hnil]

theorem kindsAt_concat {ps : List Nat} {k : TokenKind} (hk : l.kind? i = some k) :
    l.kindsAt (ps ++ [i]) = l.kindsAt ps ++ [k] := by
  rw [kindsAt_append, kindsAt_cons hk]
  rfl

variable (hc : (l.get? c).any Token.isSignificant = true)
include hc

/-- Before a later position stands the token at hand, or one after it. -/
theorem previous?_cases (hlt : c < i) :
    l.previous? i = some c ∨
      ∃ q k, l.previous? i = some q ∧ c < q ∧ q < i ∧ l.kind? q = some k := by
  obtain ⟨q, hq, hle⟩ := exists_previous? hc hlt
  obtain ⟨hqi, hsig, -⟩ := previous?_eq_some_iff.1 hq
  rcases Nat.eq_or_lt_of_le hle with rfl | hlt
  · exact Or.inl hq
  · obtain ⟨t, ht, -⟩ := (Option.any_eq_true _ _).1 hsig
    exact Or.inr ⟨q, t.kind, hq, hlt, hqi, by rw [kind?, ht, Option.map_some]⟩

theorem kindsAt_eq_nil_iff (hlt : c < i) :
    l.kindsAt (l.significantBetween c i) = [] ↔ l.previous? i = some c := by
  constructor
  · intro hnil
    rcases previous?_cases hc hlt with hprevious | ⟨q, k, hq, hcq, -, hk⟩
    · exact hprevious
    · rw [significantBetween_concat hq hcq, kindsAt_concat hk] at hnil
      simp at hnil
  · intro hprevious
    rw [significantBetween_nil hprevious]
    rfl

/-- The name leads the type iff the colon stands before it, or a `?` after the colon. -/
theorem leads_iff (hne : l.kind? c ≠ some .nsSeparator) (hlt : c < i) :
    l.Leads c i ↔ l.beforeWhole? i = some c ∨ l.kindAt? (l.beforeWhole? i) = some .questionMark ∧
      l.previousOf? (l.beforeWhole? i) = some c := by
  have hconcat (ks : List TokenKind) (k : TokenKind) :
      ks ++ [k] ∈ [[], [.questionMark], [.nsSeparator], [.questionMark, .nsSeparator]] ↔
        ks = [] ∧ (k = .questionMark ∨ k = .nsSeparator) ∨
          ks = [.questionMark] ∧ k = .nsSeparator := by
    rcases ks with _ | ⟨a, _ | ⟨b, ks⟩⟩ <;> simp
  have hquestion {q : Nat} {k : TokenKind} (hcq : c < q) (hk : l.kind? q = some k) :
      (some q = some c ∨
          l.kindAt? (some q) = some .questionMark ∧ l.previousOf? (some q) = some c) ↔
        l.kindsAt (l.significantBetween c q) = [] ∧ k = .questionMark := by
    rw [kindsAt_eq_nil_iff hc hcq, kindAt?, previousOf?, Option.bind_some, Option.bind_some, hk,
      Option.some.injEq, Option.some.injEq, or_iff_right (by omega), and_comm]
  rcases previous?_cases hc hlt with hq | ⟨q, k, hq, hcq, -, hk⟩
  · have hwhole : l.beforeWhole? i = some c := by
      rw [beforeWhole?, hq, if_neg (by simpa [kindAt?] using hne)]
    refine iff_of_true ?_ (Or.inl hwhole)
    rw [Leads, (kindsAt_eq_nil_iff hc hlt).2 hq]
    exact List.mem_cons_self
  · have hkind : l.kindAt? (some q) = some k := hk
    rw [Leads, significantBetween_concat hq hcq, kindsAt_concat hk, hconcat]
    by_cases hsep : k = .nsSeparator
    · subst hsep
      have hwhole : l.beforeWhole? i = l.previous? q := by
        rw [beforeWhole?, hq, hkind]
        rfl
      rw [hwhole]
      rcases previous?_cases hc hcq with hr | ⟨r, j, hr, hcr, -, hj⟩
      · exact iff_of_true (Or.inl ⟨(kindsAt_eq_nil_iff hc hcq).2 hr, Or.inr rfl⟩) (Or.inl hr)
      · rw [hr, hquestion hcr hj, significantBetween_concat hr hcr, kindsAt_concat hj]
        simp [List.append_eq_singleton_iff]
    · have hwhole : l.beforeWhole? i = some q := by
        rw [beforeWhole?, hq, hkind, if_neg (by simpa using hsep)]
      rw [hwhole, hquestion hcq hk]
      simp [hsep]

end Between

/-! ## Types of a signature -/

/-- The written type consists of tokens that types are made of, and of layout. -/
def MadeOfTypeTokens (l : Listing) (h : TypeHint) : Prop :=
  ∀ j, h.start ≤ j → j < h.stop → (l.kind? j).all (fun k => k.isLayout || k.isOfType) = true

instance (l : Listing) (h : TypeHint) : Decidable (l.MadeOfTypeTokens h) :=
  inferInstanceAs (Decidable (∀ j, h.start ≤ j → j < h.stop → _))

/-- The type stands where that of a parameter may stand, in the signature of the function at a
position. -/
structure StandsInSignature (l : Listing) (f : Nat) (h : TypeHint) : Prop where
  tokens : l.MadeOfTypeTokens h
  before : (l.kindAt? (l.previous? h.start)).any TokenKind.mayPrecedeType = true ∨
    l.kindAt? (l.previous? h.start) = some .kwNamespace ∧ l.kind? h.start = some .nsSeparator
  after : l.kindAt? (l.next? (h.stop - 1)) ≠ some .colon
  classes : ∀ j, f ≤ j → j < h.start → (l.kind? j).any TokenKind.startsClassList = false

instance (l : Listing) (f : Nat) (h : TypeHint) : Decidable (l.StandsInSignature f h) :=
  decidable_of_iff (l.MadeOfTypeTokens h ∧
      ((l.kindAt? (l.previous? h.start)).any TokenKind.mayPrecedeType = true ∨
        l.kindAt? (l.previous? h.start) = some .kwNamespace ∧
          l.kind? h.start = some .nsSeparator) ∧
      l.kindAt? (l.next? (h.stop - 1)) ≠ some .colon ∧
      ∀ j, f ≤ j → j < h.start → (l.kind? j).any TokenKind.startsClassList = false)
    ⟨fun h => ⟨h.1, h.2.1, h.2.2.1, h.2.2.2⟩,
      fun h => ⟨h.tokens, h.before, h.after, h.classes⟩⟩

theorem StandsInSignature.exists_follows {l : Listing} {f : Nat} {h : TypeHint}
    (hstands : l.StandsInSignature f h) :
    ∃ b, l.kindAt? (l.previous? h.start) = some b ∧ b ≠ .colon ∧ l.TypeFollows h.start b := by
  rcases hstands.before with hmay | ⟨hword, hsep⟩
  · obtain ⟨b, hb, hmay⟩ := (Option.any_eq_true _ _).1 hmay
    refine ⟨b, hb, ?_, Or.inl hmay⟩
    rintro rfl
    cases hmay
  · exact ⟨.kwNamespace, hword, by decide, Or.inr (Or.inr ⟨rfl, hsep⟩)⟩

section TypeHints

variable {l : Listing} {a b : Nat} {h : TypeHint}

/-- A type reaches from its first significant token to its last one. -/
theorem typeHint?_eq_some (hh : l.typeHint? a b = some h) :
    l.firstIn? Token.isSignificant a b = some h.start ∧ l.previous? b = some (h.stop - 1) := by
  rw [typeHint?] at hh
  split at hh
  · cases hh
  · rename_i first hfirst
    obtain ⟨last, hlast, rfl⟩ := Option.map_eq_some_iff.1 hh
    exact ⟨hfirst, hlast⟩

theorem typeStretch_of_typeHint? (hh : l.typeHint? a b = some h) (htokens : l.MadeOfTypeTokens h) :
    l.TypeStretch h.start h.stop := by
  obtain ⟨hfirst, hlast⟩ := typeHint?_eq_some hh
  obtain ⟨-, -, t, ht, hsig⟩ := firstIn?_eq_some hfirst
  refine ⟨by rw [ht]; exact hsig, (previous?_eq_some_iff.1 hlast).2.1, ?_⟩
  intro j hlow hhigh k hk
  have hall := htokens j hlow hhigh
  rwa [hk, Option.all_some, Bool.or_eq_true] at hall

/-- No list of classes is announced within a type. -/
theorem MadeOfTypeTokens.any_startsClassList (htokens : l.MadeOfTypeTokens h) {j : Nat}
    (hlow : h.start ≤ j) (hhigh : j < h.stop) :
    (l.kind? j).any TokenKind.startsClassList = false := by
  have hall := htokens j hlow hhigh
  cases hk : l.kind? j with
  | none => rfl
  | some k =>
    rw [hk, Option.all_some] at hall
    cases k <;> first | rfl | cases hall

theorem any_startsClassList_of_layout {j : Nat} (hj : (l.get? j).any Token.isSignificant = false) :
    (l.kind? j).any TokenKind.startsClassList = false := by
  rw [kind?]
  cases ht : l.get? j with
  | none => rfl
  | some t =>
    rw [ht, Option.any_some, Token.isSignificant, Bool.not_eq_false'] at hj
    rw [Option.map_some, Option.any_some]
    cases hkind : t.kind <;> first | rfl | (rw [hkind] at hj; cases hj)

end TypeHints

/-- A parameter is declared by one of the items. -/
theorem exists_item_of_mem {l : Listing} {items : List Item} {ps : List Parameter}
    (h : l.parametersOf? items = some ps) {q : Parameter} (hq : q ∈ ps) :
    ∃ item ∈ items, l.parameter? item = some (some q) := by
  induction items generalizing ps with
  | nil =>
    cases h
    cases hq
  | cons item items ih =>
    rw [parametersOf?] at h
    split at h
    · rename_i o rest ho hrest
      cases h
      rcases List.mem_append.1 hq with hq | hq
      · rw [Option.mem_toList] at hq
        exact ⟨item, List.mem_cons_self, ho.trans (congrArg some hq)⟩
      · obtain ⟨item', hmem, hitem⟩ := ih hrest hq
        exact ⟨item', List.mem_cons_of_mem _ hmem, hitem⟩
    · cases h

/-- The type of a parameter is written in its item. -/
theorem exists_typeHint?_of_parameter? {l : Listing} {item : Item} {q : Parameter}
    (h : l.parameter? item = some (some q)) {hint : TypeHint} (htype : q.type = some hint) :
    ∃ a b, item.start ≤ a ∧ l.typeHint? a b = some hint := by
  rw [parameter?] at h
  split at h
  · cases h
  · obtain ⟨head, hhead, heq⟩ := Option.map_eq_some_iff.1 h
    cases heq
    obtain ⟨e, he, hhint⟩ := Option.bind_eq_some_iff.1 htype
    have hends := headFrom?_ends hhead (by intro e he; cases he) (Nat.le_refl item.start) e he
    exact ⟨e.1, e.2 + 1, hends.1, hhint⟩

/-- The types of parameters are written behind the parenthesis that opens them. -/
theorem exists_typeHint?_of_parameters? {ts : List Token} (hts : IsRaw ts) {f opener : Nat}
    (hopener : (ofTokens ts).parametersOpener? f = some opener) {ps : List Parameter}
    (hps : (ofTokens ts).parameters? f = some ps) {q : Parameter} (hq : q ∈ ps) {h : TypeHint}
    (htype : q.type = some h) : ∃ a b, opener < a ∧ (ofTokens ts).typeHint? a b = some h := by
  rw [parameters?_eq hts.namesVariables, hopener, Option.bind_some] at hps
  obtain ⟨items, hitems, hps⟩ := Option.bind_eq_some_iff.1 hps
  obtain ⟨item, hmem, hitem⟩ := exists_item_of_mem hps hq
  obtain ⟨a, b, hle, hhint⟩ := exists_typeHint?_of_parameter? hitem htype
  have hparen := (parametersOpener?_eq_some hopener).2.2
  have hstart : opener + 1 ≤ item.start := by
    cases hcloser : (ofTokens ts).partner? opener with
    | none =>
      rw [partner?] at hcloser
      rw [allItems?, hcloser] at hitems
      cases hitems
    | some closer =>
      have hread := reading_allItems? hts.bare hparen hcloser
      rcases hread.start_of_mem hitems hmem with heq | hlt <;> omega
  exact ⟨a, b, by omega, hhint⟩

/-- The parameters of a function do not open after `catch`. -/
theorem kindAt?_previous_opener {l : Listing} {f opener : Nat}
    (h : l.parametersOpener? f = some opener) :
    l.kindAt? (l.previous? opener) ≠ some .kwCatch := by
  obtain ⟨hf, hlt, -⟩ := parametersOpener?_eq_some h
  rw [parametersOpener?, if_pos (by simpa using hf)] at h
  obtain ⟨hfirst, -⟩ := Option.filter_eq_some_iff.1 h
  obtain ⟨k, hk, hne, hlayout⟩ : ∃ k, l.kind? f = some k ∧ k ≠ .kwCatch ∧ k.isLayout = false := by
    rcases hf with hf | hf <;> exact ⟨_, hf, by decide, rfl⟩
  obtain ⟨t, ht, rfl⟩ := Option.map_eq_some_iff.1 hk
  have hsig : (l.get? f).any Token.isSignificant = true := by
    rw [ht, Option.any_some, Token.isSignificant, hlayout]
    rfl
  obtain ⟨q, hq, hle⟩ := exists_previous? hsig hlt
  obtain ⟨hqo, hsig, -⟩ := previous?_eq_some_iff.1 hq
  rw [hq]
  rcases Nat.eq_or_lt_of_le hle with rfl | hfq
  · exact fun hcatch => hne (Option.some.inj (hk.symm.trans hcatch))
  · intro hcatch
    obtain ⟨u, hu, hkind⟩ := Option.map_eq_some_iff.1 (show l.kind? q = some .kwCatch from hcatch)
    have hbefore := firstAmong?_before hfirst hfq hqo
    rw [hu, Option.any_some] at hbefore hsig
    rw [hsig, hkind] at hbefore
    cases hbefore

/-- A return type is written between its colon and what it ends before. -/
theorem returnType?_eq_some {l : Listing} {f : Nat} {h : TypeHint} (hh : l.returnType? f = some h) :
    ∃ colon stop, l.kind? colon = some .colon ∧
      l.firstFrom? endsReturnType (colon + 1) = some stop ∧
      l.typeHint? (colon + 1) stop = some h := by
  rw [returnType?] at hh
  split at hh
  · cases hh
  · rename_i colon _
    split at hh
    · rename_i hcolon
      obtain ⟨stop, hstop, hhint⟩ := Option.bind_eq_some_iff.1 hh
      exact ⟨colon, stop, eq_of_beq hcolon, hstop, hhint⟩
    · cases hh

theorem previous?_returnType {l : Listing} {colon stop : Nat} {h : TypeHint}
    (hcolon : l.kind? colon = some .colon) (hh : l.typeHint? (colon + 1) stop = some h) :
    l.previous? h.start = some colon := by
  obtain ⟨t, ht, hkind⟩ := Option.map_eq_some_iff.1 hcolon
  obtain ⟨hfirst, -⟩ := typeHint?_eq_some hh
  refine previous?_eq_some_iff.2 ⟨(firstIn?_eq_some hfirst).1, ?_, fun k hlow hhigh =>
    firstAmong?_before hfirst hlow hhigh⟩
  rw [ht, Option.any_some, Token.isSignificant, hkind]
  rfl

theorem kindAt?_after_returnType {l : Listing} {a stop : Nat} {h : TypeHint}
    (hstop : l.firstFrom? endsReturnType a = some stop) (hh : l.typeHint? a stop = some h) :
    l.kindAt? (l.next? (h.stop - 1)) ≠ some .colon := by
  obtain ⟨-, hlast⟩ := typeHint?_eq_some hh
  obtain ⟨hlt, -, hlayout⟩ := previous?_eq_some_iff.1 hlast
  obtain ⟨-, -, t, ht, hends⟩ := firstIn?_eq_some hstop
  have hkind : t.kind = .openBrace ∨ t.kind = .semicolon ∨ t.kind = .doubleArrow := by
    simpa [endsReturnType, or_assoc] using hends
  have hsig : (l.get? stop).any Token.isSignificant = true := by
    rw [ht, Option.any_some, Token.isSignificant]
    rcases hkind with hkind | hkind | hkind <;> rw [hkind] <;> rfl
  obtain ⟨n, hn, hlow, hle⟩ := exists_next? hsig hlt
  obtain rfl : n = stop := by
    refine (Nat.eq_or_lt_of_le hle).resolve_right fun hhigh => ?_
    obtain ⟨-, -, u, hu, hsig⟩ := firstIn?_eq_some hn
    have hnot := hlayout n hlow hhigh
    rw [hu, Option.any_some, hsig] at hnot
    cases hnot
  rw [hn, kindAt?, Option.bind_some, kind?, ht, Option.map_some]
  rcases hkind with hkind | hkind | hkind <;> rw [hkind] <;> decide

/-! ## The guess at the names in types -/

section Guess

variable {ts : List Token} (hts : IsRaw ts) {f p : Nat} {h : TypeHint} (hlow : h.start ≤ p)
  (hhigh : p < h.stop)
include hts hlow hhigh

/-- In the type of a parameter, all names that look like constants are taken for constants. -/
theorem isGlobalConstant_parameter {ps : List Parameter}
    (hps : (ofTokens ts).parameters? f = some ps) {q : Parameter} (hq : q ∈ ps)
    (htype : q.type = some h) (hstands : (ofTokens ts).StandsInSignature f h) :
    (ofTokens ts).isGlobalConstant p = true ↔ (ofTokens ts).LooksConstant p := by
  obtain ⟨opener, hopener⟩ : ∃ opener, (ofTokens ts).parametersOpener? f = some opener := by
    obtain ⟨_, hitems, -⟩ := Option.bind_eq_some_iff.1 hps
    obtain ⟨opener, hopener, -⟩ := Option.bind_eq_some_iff.1 hitems
    exact ⟨opener, hopener⟩
  obtain ⟨a, b, ha, hhint⟩ := exists_typeHint?_of_parameters? hts hopener hps hq htype
  obtain ⟨-, hfopener, hparen⟩ := parametersOpener?_eq_some hopener
  have hstretch := typeStretch_of_typeHint? hhint hstands.tokens
  have hstart : a ≤ h.start := (firstIn?_eq_some (typeHint?_eq_some hhint).1).1
  obtain ⟨k, hk, hcolon, hfollows⟩ := hstands.exists_follows
  have hlist : (ofTokens ts).inClassList p = false := by
    refine inClassList_eq_false hts.bare (by omega : opener < p) hparen rfl rfl ?_ fun _ =>
      kindAt?_previous_opener hopener
    intro j hj hjp
    rcases Nat.lt_or_ge j h.start with hbefore | hinside
    · exact hstands.classes j (by omega) hbefore
    · exact hstands.tokens.any_startsClassList hinside (by omega)
  have hreturn : (ofTokens ts).announcesReturnType ((ofTokens ts).beforeWhole? p) = false := by
    refine Bool.eq_false_iff.2 fun hannounces => hcolon ?_
    have hword := kindAt?_of_isReturnColon
      (hstretch.isReturnColon_of_announces hk hfollows hlow hhigh hannounces).1
    exact Option.some.inj (hk.symm.trans hword)
  rw [hstretch.isGlobalConstant_iff hk hfollows hstands.after hlow hhigh hlist,
    and_iff_left hreturn]

/-- In a return type, the first name is not taken for a constant where the colon follows the
parentheses of a function. -/
theorem isGlobalConstant_returnType {colon stop : Nat}
    (hcolon : (ofTokens ts).kind? colon = some .colon)
    (hstop : (ofTokens ts).firstFrom? endsReturnType (colon + 1) = some stop)
    (hhint : (ofTokens ts).typeHint? (colon + 1) stop = some h) :
    ((ofTokens ts).isGlobalConstant p = true → (ofTokens ts).LooksConstant p ∧
        ¬ ((ofTokens ts).FollowsSignature colon ∧ (ofTokens ts).Leads colon p)) ∧
      ((ofTokens ts).MadeOfTypeTokens h → (ofTokens ts).LooksConstant p →
        ¬ ((ofTokens ts).FollowsSignature colon ∧ (ofTokens ts).Leads colon p) →
        (ofTokens ts).isGlobalConstant p = true) := by
  have hprevious := previous?_returnType hcolon hhint
  obtain ⟨hlt, hsig, hlayout⟩ := previous?_eq_some_iff.1 hprevious
  have hleads := leads_iff hsig (by rw [hcolon]; decide) (by omega : colon < p)
  rw [← isReturnColon_iff hts.bare hcolon, hleads]
  constructor
  · intro hconstant
    refine ⟨looksConstant_of_isGlobalConstant hconstant, ?_⟩
    rintro ⟨hreturn, hleads⟩
    refine Bool.eq_false_iff.1 (announcesReturnType_of_isGlobalConstant hconstant)
      (announcesReturnType_iff.2 ?_)
    rcases hleads with hwhole | ⟨hquestion, hwhole⟩
    · exact Or.inl (hwhole ▸ hreturn)
    · exact Or.inr ⟨hquestion, hwhole ▸ hreturn⟩
  · intro htokens hlooks hreturn
    have hstretch := typeStretch_of_typeHint? hhint htokens
    have hk : (ofTokens ts).kindAt? ((ofTokens ts).previous? h.start) = some .colon := by
      rw [hprevious]
      exact hcolon
    have hfollows : (ofTokens ts).TypeFollows h.start .colon := Or.inr (Or.inl rfl)
    have hlist : (ofTokens ts).inClassList p = false := by
      refine inClassList_eq_false hts.bare (by omega : colon < p) hcolon rfl rfl ?_ nofun
      intro j hj hjp
      rcases Nat.lt_or_ge j h.start with hbefore | hinside
      · rcases Nat.eq_or_lt_of_le hj with rfl | hj
        · rw [hcolon]
          rfl
        · exact any_startsClassList_of_layout (hlayout j hj hbefore)
      · exact htokens.any_startsClassList hinside (by omega)
    refine (hstretch.isGlobalConstant_iff hk hfollows (kindAt?_after_returnType hstop hhint) hlow
      hhigh hlist).2 ⟨hlooks, Bool.eq_false_iff.2 fun hannounces => hreturn ?_⟩
    rw [← hprevious]
    exact hstretch.isReturnColon_of_announces hk hfollows hlow hhigh hannounces

end Guess

/-- In the types of every signature, only names that look like constants are taken for constants,
and of a return type not the first name, where its colon is known to follow a signature. In a type
that is written as one, all the others are taken for constants. -/
theorem isGlobalConstant_in_types {ts : List Token} (hts : IsRaw ts) (f : Nat) (h : TypeHint)
    {p : Nat} (hlow : h.start ≤ p) (hhigh : p < h.stop) :
    (∀ ps, (ofTokens ts).parameters? f = some ps → (∃ q ∈ ps, q.type = some h) →
      ((ofTokens ts).isGlobalConstant p = true → (ofTokens ts).LooksConstant p) ∧
        ((ofTokens ts).StandsInSignature f h → (ofTokens ts).LooksConstant p →
          (ofTokens ts).isGlobalConstant p = true)) ∧
      ((ofTokens ts).returnType? f = some h →
        ∃ colon, (ofTokens ts).kind? colon = some .colon ∧
          (ofTokens ts).previous? h.start = some colon ∧
          ((ofTokens ts).isGlobalConstant p = true → (ofTokens ts).LooksConstant p ∧
            ¬ ((ofTokens ts).FollowsSignature colon ∧ (ofTokens ts).Leads colon p)) ∧
          ((ofTokens ts).MadeOfTypeTokens h → (ofTokens ts).LooksConstant p →
            ¬ ((ofTokens ts).FollowsSignature colon ∧ (ofTokens ts).Leads colon p) →
            (ofTokens ts).isGlobalConstant p = true)) := by
  constructor
  · rintro ps hps ⟨q, hq, htype⟩
    exact ⟨looksConstant_of_isGlobalConstant, fun hstands =>
      (isGlobalConstant_parameter hts hlow hhigh hps hq htype hstands).2⟩
  · intro hreturn
    obtain ⟨colon, stop, hcolon, hstop, hhint⟩ := returnType?_eq_some hreturn
    exact ⟨colon, hcolon, previous?_returnType hcolon hhint,
      isGlobalConstant_returnType hts hlow hhigh hcolon hstop hhint⟩

/-- Of two unions, the last name before the variable and the first one after the colon are known to
be types. -/
theorem isGlobalConstant_in_types_unions :
    let l := ofText "<?php function f(int|string $x): A|B;"
    let x : TypeHint := ⟨6, 9, "int|string"⟩
    let result : TypeHint := ⟨14, 17, "A|B"⟩
    l.parameters? 2 = some [⟨"$x", 10, some x, false⟩] ∧ l.StandsInSignature 2 x ∧
      l.returnType? 2 = some result ∧ l.MadeOfTypeTokens result ∧
      l.isGlobalConstant 6 = true ∧ l.isGlobalConstant 8 = false ∧
      l.isGlobalConstant 16 = true := by
  intro l x result
  obtain ⟨hparameters, hstands, hreturn, htokens, hfirst, hsecond, hlast, hprevious, hleads⟩ :
      l.parameters? 2 = some [⟨"$x", 10, some x, false⟩] ∧ l.StandsInSignature 2 x ∧
      l.returnType? 2 = some result ∧ l.MadeOfTypeTokens result ∧ l.LooksConstant 6 ∧
      ¬ l.LooksConstant 8 ∧ l.LooksConstant 16 ∧ l.previous? 14 = some 12 ∧ ¬ l.Leads 12 16 := by
    decide +kernel
  have hmem : ∃ q ∈ [(⟨"$x", 10, some x, false⟩ : Parameter)], q.type = some x :=
    ⟨_, List.mem_cons_self, rfl⟩
  have hparameter {p : Nat} (hlow : 6 ≤ p) (hhigh : p < 9) :=
    (isGlobalConstant_in_types (isRaw_tokens _) 2 x hlow hhigh).1 _ hparameters hmem
  obtain ⟨colon, -, hcolon, -, hresult⟩ :=
    (isGlobalConstant_in_types (isRaw_tokens _) 2 result (p := 16) (by decide) (by decide)).2
      hreturn
  obtain rfl : 12 = colon := Option.some.inj (hprevious.symm.trans hcolon)
  refine ⟨hparameters, hstands, hreturn, htokens, ?_, ?_, ?_⟩
  · exact (hparameter (Nat.le_refl 6) (by decide)).2 hstands hfirst
  · exact Bool.eq_false_iff.2 fun h => hsecond ((hparameter (by decide) (by decide)).1 h)
  · exact hresult htokens hlast fun h => hleads h.2

/-- Names before a `|`, before the `&` of a reference and at the end of a return type without a body
are taken for constants, and so is the return type of an arrow function that returns a reference. -/
theorem constants_in_types :
    let union := ofText "<?php function f(int|string $x) \x7b\x7d"
    let reference := ofText "<?php function f(A &$x) \x7b\x7d"
    let bodiless := ofText "<?php interface I \x7b function f(): A|B; \x7d"
    let arrow := ofText "<?php $f = fn &($x): A => 1;"
    (union.parameters? 2 = some [⟨"$x", 10, some ⟨6, 9, "int|string"⟩, false⟩] ∧
        union.isGlobalConstant 6 = true) ∧
      (reference.parameters? 2 = some [⟨"$x", 9, some ⟨6, 7, "A"⟩, true⟩] ∧
        reference.isGlobalConstant 6 = true) ∧
      (bodiless.returnType? 8 = some ⟨15, 18, "A|B"⟩ ∧ bodiless.isGlobalConstant 17 = true) ∧
      arrow.returnType? 6 = some ⟨14, 15, "A"⟩ ∧ arrow.isGlobalConstant 14 = true := by
  decide +kernel

end Listing

end Vintage
