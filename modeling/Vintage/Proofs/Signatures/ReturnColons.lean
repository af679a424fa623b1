import Vintage.Proofs.Signatures.Parameters
import Vintage.Proofs.Signatures.TypeNames

/-!
# Colons after parentheses

A name after a colon and a closing parenthesis is a return type, or it ends a conditional
expression, a label or the head of a block. The guess that keeps return types from being taken for
constants looks at the owner of the parentheses. It takes every name after an `&` for that of a
function that returns a reference, so the call in `$a & f()` passes for a signature, and every `use`
before parentheses for one that captures variables.

Results:
* `Listing.isGlobalConstant_iff_passes`: the rule for return types apart from the others.
* `Listing.exists_closes_iff`: which parentheses that pass for a signature are those of a function.
* `Listing.isGlobalConstant_after_colon`: when a name after a colon is no constant, and when it is a
  return type then.
-/

namespace Vintage.Listing

/-! ## The other rules -/

/-- The name at a position passes all rules for constants but the one for return types. -/
def PassesOtherRules (l : Listing) (i : Nat) : Prop :=
  l.kind? i = some .name ∧ l.Unqualified i ∧ l.kindAt? (l.next? i) ≠ some .openParen ∧
    l.declares (l.beforeWhole? i) = false ∧
    (l.kindAt? (l.beforeWhole? i)).any TokenKind.isMemberAccess = false ∧
    l.kindAt? (l.beforeWhole? i) ≠ some .kwNew ∧
    (l.kindAt? (l.next? i)).any excludesConstantBefore = false ∧
    (l.kindAt? (l.beforeWhole? i)).any announcesClass = false ∧
    ¬ (l.kindAt? (l.beforeWhole? i) ∈ [some .comma, some .bitwiseOr] ∧ l.inClassList i = true) ∧
    ¬ (l.kindAt? (l.next? i) = some .colon ∧
      (l.kindAt? (l.beforeWhole? i)).all precedesLabel = true)

instance (l : Listing) (i : Nat) : Decidable (l.PassesOtherRules i) :=
  inferInstanceAs (Decidable (_ ∧ _))

/-- A name is taken for a constant iff it passes the other rules and is not known to be a return
type. -/
theorem isGlobalConstant_iff_passes (l : Listing) (i : Nat) :
    l.isGlobalConstant i = true ↔
      l.PassesOtherRules i ∧ l.announcesReturnType (l.beforeWhole? i) = false := by
  rw [isGlobalConstant_iff, PassesOtherRules]
  simp only [isOtherName, Bool.eq_false_iff, ne_eq, Bool.or_eq_true, Bool.and_eq_true, beq_iff_eq,
    not_or, List.mem_pair, and_assoc]

/-! ## Parentheses of functions -/

/-- What stands between two positions, from the last token on. -/
theorem kindsAt_eq_concat_iff {l : Listing} {c i : Nat}
    (hc : (l.get? c).any Token.isSignificant = true) (hlt : c < i) {ks : List TokenKind}
    {k : TokenKind} :
    l.kindsAt (l.significantBetween c i) = ks ++ [k] ↔
      ∃ q, l.previous? i = some q ∧ c < q ∧ l.kind? q = some k ∧
        l.kindsAt (l.significantBetween c q) = ks := by
  constructor
  · intro h
    rcases previous?_cases hc hlt with hq | ⟨q, k', hq, hcq, -, hk⟩
    · rw [(kindsAt_eq_nil_iff hc hlt).2 hq] at h
      simp at h
    · rw [significantBetween_concat hq hcq, kindsAt_concat hk] at h
      obtain ⟨hks, hkk⟩ := List.append_inj' h rfl
      obtain rfl : k' = k := by simpa using hkk
      exact ⟨q, hq, hcq, hk, hks⟩
  · rintro ⟨q, hq, hcq, hk, rfl⟩
    rw [significantBetween_concat hq hcq, kindsAt_concat hk]

/-- The parenthesis at a position closes the parameters of the function at `f`, or the variables
that it captures. -/
inductive ClosesSignature (l : Listing) (f : Nat) : Nat → Prop
  | parameters {o c : Nat} (hf : l.Introduces f o) (hc : l.partner? o = some c) :
      ClosesSignature l f c
  | captures {o p u q c : Nat} (hf : l.Introduces f o) (hp : l.partner? o = some p)
      (hu : l.previous? u = some p) (hword : l.kind? u = some .kwUse)
      (hq : l.previous? q = some u) (hparen : l.kind? q = some .openParen)
      (hc : l.partner? q = some c) : ClosesSignature l f c

/-- The return type of the function at `f` starts after the colon. -/
def StartsReturnType (l : Listing) (f colon : Nat) : Prop :=
  ((l.parametersOpener? f).bind l.partner?).bind l.afterSignature? = some colon

/-- The parenthesis at a position closes the arguments of a call after an `&`: no function is
declared there. -/
def ClosesReferencedCall (l : Listing) (c : Nat) : Prop :=
  ∃ o n a, l.partner? c = some o ∧ l.previous? o = some n ∧ l.kind? n = some .name ∧
    l.previous? n = some a ∧ l.kind? a = some .ampersand ∧
    l.kindAt? (l.previous? a) ∉ [some .kwFunction, some .kwFn]

/-- The parenthesis at a position closes parentheses after a `use` that follows no parameters. -/
def ClosesLooseCapture (l : Listing) (c : Nat) : Prop :=
  ∃ q u, l.partner? c = some q ∧ l.previous? q = some u ∧ l.kind? u = some .kwUse ∧
    ∀ f o p, l.previous? u = some p → l.Introduces f o → l.partner? o ≠ some p

section Openers

variable {l : Listing} {f o : Nat}

theorem significant_of_keyword (h : l.kind? f = some .kwFunction ∨ l.kind? f = some .kwFn) :
    (l.get? f).any Token.isSignificant = true := by
  rcases h with h | h <;> exact significant_of_kind? h rfl

/-- What stands before the parameters of a function, from the last token on. -/
theorem introduces_iff (hparen : l.kind? o = some .openParen) :
    l.Introduces f o ↔ (l.kind? f = some .kwFunction ∨ l.kind? f = some .kwFn) ∧
      (l.previous? o = some f ∨
        ∃ n, l.previous? o = some n ∧
          ((l.kind? n = some .ampersand ∨ l.kind? n = some .name) ∧ l.previous? n = some f ∨
            l.kind? n = some .name ∧
              ∃ a, l.previous? n = some a ∧ l.kind? a = some .ampersand ∧
                l.previous? a = some f)) := by
  have lt_of {i c : Nat} (h : l.previous? i = some c) : c < i := (previous?_eq_some_iff.1 h).1
  constructor
  · intro h
    have hf := significant_of_keyword h.keyword
    -- one token between the function and a later position
    have hone {i : Nat} (hlt : f < i) {k : TokenKind}
        (hk : l.kindsAt (l.significantBetween f i) = [k]) :
        ∃ n, l.previous? i = some n ∧ l.kind? n = some k ∧ l.previous? n = some f := by
      obtain ⟨n, hn, hfn, hkind, hnil⟩ := (kindsAt_eq_concat_iff hf hlt).1 (show _ = [] ++ [k] from hk)
      exact ⟨n, hn, hkind, (kindsAt_eq_nil_iff hf hfn).1 hnil⟩
    refine ⟨h.keyword, ?_⟩
    have hbetween := h.between
    simp only [List.mem_cons, List.not_mem_nil, or_false] at hbetween
    rcases hbetween with hks | hks | hks | hks
    · exact Or.inl ((kindsAt_eq_nil_iff hf h.lt).1 hks)
    · obtain ⟨n, hn, hk, hprevious⟩ := hone h.lt hks
      exact Or.inr ⟨n, hn, Or.inl ⟨Or.inl hk, hprevious⟩⟩
    · obtain ⟨n, hn, hk, hprevious⟩ := hone h.lt hks
      exact Or.inr ⟨n, hn, Or.inl ⟨Or.inr hk, hprevious⟩⟩
    · obtain ⟨n, hn, hfn, hk, hks⟩ :=
        (kindsAt_eq_concat_iff hf h.lt).1 (show _ = [.ampersand] ++ [.name] from hks)
      obtain ⟨a, ha, hk', hprevious⟩ := hone hfn hks
      exact Or.inr ⟨n, hn, Or.inr ⟨hk, a, ha, hk', hprevious⟩⟩
  · rintro ⟨hkeyword, hbefore⟩
    have hf := significant_of_keyword hkeyword
    have hnil {i : Nat} (h : l.previous? i = some f) :
        l.kindsAt (l.significantBetween f i) = [] := (kindsAt_eq_nil_iff hf (lt_of h)).2 h
    have hconcat {i n : Nat} {k : TokenKind} {ks : List TokenKind} (hn : l.previous? i = some n)
        (hfn : f < n) (hk : l.kind? n = some k) (hks : l.kindsAt (l.significantBetween f n) = ks) :
        l.kindsAt (l.significantBetween f i) = ks ++ [k] :=
      (kindsAt_eq_concat_iff hf (Nat.lt_trans hfn (lt_of hn))).2 ⟨n, hn, hfn, hk, hks⟩
    rcases hbefore with hp | ⟨n, hn, ⟨hk | hk, hp⟩ | ⟨hk, a, ha, hk', hp⟩⟩
    · exact ⟨hkeyword, lt_of hp, by rw [hnil hp]; decide, hparen⟩
    · refine ⟨hkeyword, Nat.lt_trans (lt_of hp) (lt_of hn), ?_, hparen⟩
      rw [hconcat hn (lt_of hp) hk (hnil hp)]
      decide
    · refine ⟨hkeyword, Nat.lt_trans (lt_of hp) (lt_of hn), ?_, hparen⟩
      rw [hconcat hn (lt_of hp) hk (hnil hp)]
      decide
    · have hfn := Nat.lt_trans (lt_of hp) (lt_of ha)
      refine ⟨hkeyword, Nat.lt_trans hfn (lt_of hn), ?_, hparen⟩
      rw [hconcat hn hfn hk (hconcat ha (lt_of hp) hk' (hnil hp))]
      decide

/-- No function stands before parentheses after another word. -/
theorem not_introduces {n : Nat} (hn : l.previous? o = some n)
    (hk : l.kindAt? (some n) ∉ [some .kwFunction, some .kwFn, some .ampersand, some .name]) :
    ¬ l.Introduces f o := by
  intro h
  simp only [kindAt?, Option.bind_some, List.mem_cons, List.not_mem_nil, or_false, not_or] at hk
  obtain ⟨hkeyword, hp | ⟨n', hn', hcase⟩⟩ := (introduces_iff h.paren).1 h
  · obtain rfl := Option.some.inj (hn.symm.trans hp)
    exact hkeyword.elim hk.1 hk.2.1
  · obtain rfl := Option.some.inj (hn.symm.trans hn')
    rcases hcase with ⟨hk' | hk', -⟩ | ⟨hk', -⟩
    · exact hk.2.2.1 hk'
    · exact hk.2.2.2 hk'
    · exact hk.2.2.2 hk'

end Openers

section Signatures

variable {ts : List Token} (hts : ∀ t ∈ ts, t.Bare)
include hts

theorem partner?_comm {o c : Nat} :
    (ofTokens ts).partner? o = some c ↔ (ofTokens ts).partner? c = some o := by
  simp only [partner?_ofTokens hts, or_comm]

theorem opener_of_close {o c : Nat} (hc : (ofTokens ts).kind? c = some .closeParen)
    (ho : (ofTokens ts).partner? c = some o) : (ofTokens ts).kind? o = some .openParen := by
  rw [kind?_ofTokens_eq hts] at hc ⊢
  obtain ⟨b, hpair | hpair⟩ := (partner?_ofTokens hts).1 ho
  · have hopener := (b.kind_of_mem_pairs hpair).2.1
    exact absurd (Option.some.inj (hopener.symm.trans hc)) (b.opener_ne_closer .round)
  · obtain ⟨-, hopener, hcloser⟩ := b.kind_of_mem_pairs hpair
    obtain rfl : b = .round := Bracket.closer_inj (Option.some.inj (hcloser.symm.trans hc))
    exact hopener

theorem eq_opener {o o' c : Nat} (ho : (ofTokens ts).partner? c = some o)
    (h : (ofTokens ts).partner? o' = some c) : o' = o :=
  Option.some.inj (((partner?_comm hts).1 h).symm.trans ho)

/-- No function closes its signature with the arguments of a call after an `&`. -/
theorem ClosesReferencedCall.not_closes {c f : Nat} (h : (ofTokens ts).ClosesReferencedCall c) :
    ¬ (ofTokens ts).ClosesSignature f c := by
  obtain ⟨o, n, a, ho, hn, hname, ha, hampersand, hnot⟩ := h
  rintro (⟨hf, hc⟩ | ⟨-, -, -, hword, hq, -, hc⟩)
  · obtain rfl := eq_opener hts ho hc
    obtain ⟨hkeyword, hp | ⟨n', hn', hcase⟩⟩ := (introduces_iff hf.paren).1 hf
    · obtain rfl := Option.some.inj (hn.symm.trans hp)
      rw [hname] at hkeyword
      rcases hkeyword with h | h <;> cases h
    · obtain rfl := Option.some.inj (hn.symm.trans hn')
      rcases hcase with ⟨-, hp⟩ | ⟨-, a', ha', -, hp⟩
      · obtain rfl := Option.some.inj (ha.symm.trans hp)
        rw [hampersand] at hkeyword
        rcases hkeyword with h | h <;> cases h
      · obtain rfl := Option.some.inj (ha.symm.trans ha')
        rw [hp, kindAt?, Option.bind_some] at hnot
        rcases hkeyword with h | h <;> rw [h] at hnot <;> exact hnot (by decide)
  · obtain rfl := eq_opener hts ho hc
    obtain rfl := Option.some.inj (hn.symm.trans hq)
    cases hname.symm.trans hword

/-- No function closes its signature with parentheses after a `use` that follows no parameters. -/
theorem ClosesLooseCapture.not_closes {c f : Nat} (h : (ofTokens ts).ClosesLooseCapture c) :
    ¬ (ofTokens ts).ClosesSignature f c := by
  obtain ⟨o, u, ho, hu, hword, hall⟩ := h
  rintro (⟨hf, hc⟩ | ⟨hf, hp, hu', -, hq, -, hc⟩)
  · obtain rfl := eq_opener hts ho hc
    refine not_introduces hu ?_ hf
    rw [kindAt?, Option.bind_some, hword]
    decide
  · obtain rfl := eq_opener hts ho hc
    obtain rfl := Option.some.inj (hu.symm.trans hq)
    exact hall _ _ _ hu' hf hp

/-- Parentheses that pass for a signature are those of a function, or of a call after an `&`, or
they follow a `use` that captures nothing. -/
theorem exists_closes_iff {c o : Nat} (hclose : (ofTokens ts).kind? c = some .closeParen)
    (ho : (ofTokens ts).partner? c = some o) (hopens : (ofTokens ts).OpensSignature o) :
    (∃ f, (ofTokens ts).ClosesSignature f c) ↔
      ¬ (ofTokens ts).ClosesReferencedCall c ∧ ¬ (ofTokens ts).ClosesLooseCapture c := by
  have hparen := opener_of_close hts hclose ho
  have hc := (partner?_comm hts).1 ho
  constructor
  · rintro ⟨f, hf⟩
    exact ⟨fun h => h.not_closes hts hf, fun h => h.not_closes hts hf⟩
  · rintro ⟨hcall, hcapture⟩
    have hfound {f : Nat} := introduces_iff (f := f) hparen
    rcases hopens with hword | ⟨hname, hbefore⟩
    · obtain ⟨p, hp⟩ : ∃ p, (ofTokens ts).previous? o = some p := by
        cases hp : (ofTokens ts).previous? o with
        | none => simp [hp, kindAt?] at hword
        | some p => exact ⟨p, rfl⟩
      rw [hp, kindAt?, Option.bind_some] at hword
      simp only [List.mem_cons, List.not_mem_nil, or_false] at hword
      rcases hword with hword | hword | hword
      · exact ⟨p, .parameters (hfound.2 ⟨Or.inl hword, Or.inl hp⟩) hc⟩
      · exact ⟨p, .parameters (hfound.2 ⟨Or.inr hword, Or.inl hp⟩) hc⟩
      · by_contra hnone
        exact hcapture ⟨o, p, ho, hp, hword, fun f o' q hq hf hpartner =>
          hnone ⟨f, .captures hf hpartner hq hword hp hparen hc⟩⟩
    · obtain ⟨n, hn, hname⟩ := Option.bind_eq_some_iff.1 hname
      rw [hn, previousOf?, Option.bind_some] at hbefore
      obtain ⟨a, ha⟩ : ∃ a, (ofTokens ts).previous? n = some a := by
        cases ha : (ofTokens ts).previous? n with
        | none => simp [ha, kindAt?] at hbefore
        | some a => exact ⟨a, rfl⟩
      rw [ha, kindAt?, Option.bind_some, List.mem_pair] at hbefore
      rcases hbefore with hword | hampersand
      · refine ⟨a, .parameters (hfound.2 ⟨Or.inl hword, Or.inr ⟨n, hn, ?_⟩⟩) hc⟩
        exact Or.inl ⟨Or.inr hname, ha⟩
      · by_contra hnone
        refine hcall ⟨o, n, a, ho, hn, hname, ha, hampersand, fun hword => hnone ?_⟩
        obtain ⟨f, hf, hkeyword⟩ : ∃ f, (ofTokens ts).previous? a = some f ∧
            ((ofTokens ts).kind? f = some .kwFunction ∨ (ofTokens ts).kind? f = some .kwFn) := by
          rcases List.mem_pair.1 hword with hword | hword <;>
            obtain ⟨f, hf, hword⟩ := Option.bind_eq_some_iff.1 hword
          · exact ⟨f, hf, Or.inl hword⟩
          · exact ⟨f, hf, Or.inr hword⟩
        refine ⟨f, .parameters (hfound.2 ⟨hkeyword, Or.inr ⟨n, hn, ?_⟩⟩) hc⟩
        exact Or.inr ⟨hname, a, ha, hampersand, hf⟩

end Signatures

/-- A colon after the signature of a function starts its return type. -/
theorem ClosesSignature.startsReturnType {l : Listing} {f c colon : Nat}
    (h : l.ClosesSignature f c) (hc : l.previous? colon = some c)
    (hcolon : l.kind? colon = some .colon) : l.StartsReturnType f colon := by
  have hnext := next?_of_previous? hc (significant_of_kind? hcolon rfl)
  cases h with
  | parameters hf hpartner =>
    rw [StartsReturnType, hf.parametersOpener?, Option.bind_some, hpartner, Option.bind_some,
      afterSignature?, hnext]
    simp [hcolon]
  | captures hf hp hu hword hq hparen hpartner =>
    have hnext' := next?_of_previous? hu (significant_of_kind? hword rfl)
    have hnext'' := next?_of_previous? hq (significant_of_kind? hparen rfl)
    rw [StartsReturnType, hf.parametersOpener?, Option.bind_some, hp, Option.bind_some,
      afterSignature?, hnext']
    simp [hword, hnext'', hpartner, hnext]

/-! ## Names after colons -/

/-- A name after a colon is known to be a return type iff the colon follows what passes for a
signature. -/
theorem announcesReturnType_of_leads {ts : List Token} (hts : ∀ t ∈ ts, t.Bare) {i colon : Nat}
    (hcolon : (ofTokens ts).kind? colon = some .colon) (hlt : colon < i)
    (hleads : (ofTokens ts).Leads colon i) :
    (ofTokens ts).announcesReturnType ((ofTokens ts).beforeWhole? i) = true ↔
      (ofTokens ts).FollowsSignature colon := by
  rw [← isReturnColon_iff hts hcolon, announcesReturnType_iff]
  have hne : (ofTokens ts).kind? colon ≠ some .nsSeparator := by rw [hcolon]; decide
  rcases (leads_iff (significant_of_kind? hcolon rfl) hne hlt).1 hleads with hwhole | ⟨hkind, hwhole⟩
  · have hother : (ofTokens ts).kindAt? (some colon) ≠ some .questionMark := by
      rw [kindAt?, Option.bind_some, hcolon]
      decide
    rw [hwhole, or_iff_left fun h => hother h.1]
  · have hother : (ofTokens ts).isReturnColon ((ofTokens ts).beforeWhole? i) ≠ true := fun h => by
      cases hkind.symm.trans (kindAt?_of_isReturnColon h)
    rw [hwhole, or_iff_right hother, and_iff_right hkind]

theorem ClosesReferencedCall.followsSignature {l : Listing} {c colon : Nat}
    (h : l.ClosesReferencedCall c) (hc : l.previous? colon = some c)
    (hclose : l.kind? c = some .closeParen) : l.FollowsSignature colon := by
  obtain ⟨o, n, a, ho, hn, hname, ha, hampersand, -⟩ := h
  refine ⟨c, o, hc, hclose, ho, Or.inr ⟨by rw [hn]; exact hname, ?_⟩⟩
  rw [hn, previousOf?, Option.bind_some, ha, kindAt?, Option.bind_some, hampersand]
  decide

theorem ClosesLooseCapture.followsSignature {l : Listing} {c colon : Nat}
    (h : l.ClosesLooseCapture c) (hc : l.previous? colon = some c)
    (hclose : l.kind? c = some .closeParen) : l.FollowsSignature colon := by
  obtain ⟨q, u, hq, hu, hword, -⟩ := h
  refine ⟨c, q, hc, hclose, hq, Or.inl ?_⟩
  rw [hu, kindAt?, Option.bind_some, hword]
  decide

/-- A name after a colon and a closing parenthesis that passes the other rules is no constant iff
the parentheses pass for a signature. It is a return type then, unless they are those of a call
after an `&`, or follow a `use` that captures nothing. -/
theorem isGlobalConstant_after_colon {ts : List Token} (hts : ∀ t ∈ ts, t.Bare)
    {i colon c : Nat}
    (hpasses : (ofTokens ts).PassesOtherRules i) (hleads : (ofTokens ts).Leads colon i)
    (hlt : colon < i) (hcolon : (ofTokens ts).kind? colon = some .colon)
    (hc : (ofTokens ts).previous? colon = some c)
    (hclose : (ofTokens ts).kind? c = some .closeParen) :
    ((ofTokens ts).isGlobalConstant i = false ↔ (ofTokens ts).FollowsSignature colon) ∧
      (((ofTokens ts).isGlobalConstant i = false →
          ∃ f, (ofTokens ts).ClosesSignature f c ∧ (ofTokens ts).StartsReturnType f colon) ↔
        ¬ (ofTokens ts).ClosesReferencedCall c ∧ ¬ (ofTokens ts).ClosesLooseCapture c) := by
  have hfirst : (ofTokens ts).isGlobalConstant i = false ↔
      (ofTokens ts).FollowsSignature colon := by
    refine Iff.trans ?_ (announcesReturnType_of_leads hts hcolon hlt hleads)
    rw [← Bool.not_eq_true, isGlobalConstant_iff_passes, and_iff_right hpasses, Bool.not_eq_false]
  refine ⟨hfirst, ?_⟩
  rw [hfirst]
  constructor
  · intro h
    refine ⟨fun hcall => ?_, fun hcapture => ?_⟩
    · obtain ⟨f, hf, -⟩ := h (hcall.followsSignature hc hclose)
      exact hcall.not_closes hts hf
    · obtain ⟨f, hf, -⟩ := h (hcapture.followsSignature hc hclose)
      exact hcapture.not_closes hts hf
  · rintro hnot ⟨c', o, hc', -, ho, hopens⟩
    obtain rfl := Option.some.inj (hc.symm.trans hc')
    obtain ⟨f, hf⟩ := (exists_closes_iff hts hclose ho hopens).2 hnot
    exact ⟨f, hf, hf.startsReturnType hc hcolon⟩

theorem isGlobalConstant_after_colon_closure :
    let l := ofText "<?php $f = function () use ($x): ?A;"
    (l.PassesOtherRules 19 ∧ l.Leads 16 19 ∧ l.kind? 16 = some .colon ∧
      l.previous? 16 = some 15 ∧ l.kind? 15 = some .closeParen ∧ l.isGlobalConstant 19 = false) ∧
      ∃ f, l.ClosesSignature f 15 ∧ l.StartsReturnType f 16 := by
  intro l
  obtain ⟨hpasses, hleads, hcolon, hc, hclose, hconstant, hopen, huse, hword, hparameters,
      hpartner, hfunction, hbetween, hparen⟩ :
      l.PassesOtherRules 19 ∧ l.Leads 16 19 ∧ l.kind? 16 = some .colon ∧
      l.previous? 16 = some 15 ∧ l.kind? 15 = some .closeParen ∧ l.isGlobalConstant 19 = false ∧
      l.partner? 15 = some 13 ∧ l.previous? 13 = some 11 ∧ l.kind? 11 = some .kwUse ∧
      l.previous? 11 = some 9 ∧ l.partner? 8 = some 9 ∧ l.kind? 6 = some .kwFunction ∧
      l.kindsAt (l.significantBetween 6 8) = [] ∧ l.kind? 8 = some .openParen := by
    decide +kernel
  have hintroduces : l.Introduces 6 8 := by
    refine ⟨Or.inl hfunction, by decide, ?_, hparen⟩
    rw [hbetween]
    decide
  refine ⟨⟨hpasses, hleads, hcolon, hc, hclose, hconstant⟩,
    (isGlobalConstant_after_colon (Source.tokens_bare _ _) hpasses hleads (by decide) hcolon hc
      hclose).2.2 ?_ hconstant⟩
  constructor
  · rintro ⟨o, n, a, ho, hn, hname, -⟩
    obtain rfl := Option.some.inj (hopen.symm.trans ho)
    obtain rfl := Option.some.inj (huse.symm.trans hn)
    cases hword.symm.trans hname
  · rintro ⟨q, u, hq, hu, -, hall⟩
    obtain rfl := Option.some.inj (hopen.symm.trans hq)
    obtain rfl := Option.some.inj (huse.symm.trans hu)
    exact hall 6 8 9 hparameters hintroduces hpartner

/-- The call in a conditional expression passes for a signature, so the constant after the colon is
not taken for one. -/
theorem constant_after_call :
    let l := ofText "<?php $a ? $b & f() : B;"
    (l.PassesOtherRules 16 ∧ l.Leads 14 16 ∧ l.kind? 14 = some .colon ∧
      l.previous? 14 = some 12 ∧ l.kind? 12 = some .closeParen ∧ l.isGlobalConstant 16 = false) ∧
      ¬ ∃ f, l.ClosesSignature f 12 := by
  intro l
  obtain ⟨hreads, hpartner, hname, hkind, hreference, hkind', hbefore⟩ :
      (l.PassesOtherRules 16 ∧ l.Leads 14 16 ∧ l.kind? 14 = some .colon ∧
        l.previous? 14 = some 12 ∧ l.kind? 12 = some .closeParen ∧
        l.isGlobalConstant 16 = false) ∧
      l.partner? 12 = some 11 ∧ l.previous? 11 = some 10 ∧ l.kind? 10 = some .name ∧
      l.previous? 10 = some 8 ∧ l.kind? 8 = some .ampersand ∧
      l.kindAt? (l.previous? 8) ∉ [some .kwFunction, some .kwFn] := by
    decide +kernel
  have hcall : l.ClosesReferencedCall 12 :=
    ⟨11, 10, 8, hpartner, hname, hkind, hreference, hkind', hbefore⟩
  refine ⟨hreads, ?_⟩
  rintro ⟨f, hf⟩
  exact hcall.not_closes (Source.tokens_bare _ _) hf

end Vintage.Listing
