import Vintage.Proofs.Signatures.Compact

/-!
# Names that are taken for constants

A name is taken for a constant unless the tokens around it show that it is something else. The
token before the whole name, a leading backslash included, is what counts; a return type is known
by the owner of the parentheses before its colon.

Results:
* `Listing.isGlobalConstant_iff`: what makes a name a constant.
* `Listing.LooksConstant`: what a name that is taken for a constant looks like.
* `Listing.isReturnColon_iff`: the colons that are known to be those of return types.
* `Listing.inClassList_eq_false`: where no list of classes is found.
-/

namespace Vintage

/-- Tokens before which no name is taken for a constant. -/
def TokenKind.barsConstant : TokenKind → Bool
  | .nsSeparator | .variableName | .ellipsis | .openParen | .openBrace | .doubleColon => true
  | _ => false

/-- Keywords that a list of classes follows. -/
def TokenKind.startsClassList : TokenKind → Bool
  | .kwExtends | .kwImplements | .kwCatch => true
  | _ => false

namespace Listing

/-! ## Neighbours -/

section Neighbours

variable {l : Listing} {p : Token → Bool} {i j : Nat} (hj : (l.get? j).any p = true)
include hj

theorem exists_lastBelow? {n : Nat} (hn : j < n) : ∃ k, l.lastBelow? p n = some k ∧ j ≤ k := by
  induction n with
  | zero => omega
  | succ n ih =>
    rw [lastBelow?]
    split
    · exact ⟨n, rfl, Nat.le_of_lt_succ hn⟩
    · rename_i hp
      refine ih (Nat.lt_of_le_of_ne (Nat.le_of_lt_succ hn) ?_)
      rintro rfl
      exact hp hj

theorem exists_firstAmong? {n : Nat} (hi : i ≤ j) (hn : j < i + n) :
    ∃ k, l.firstAmong? p n i = some k ∧ k ≤ j := by
  induction n generalizing i with
  | zero => omega
  | succ n ih =>
    rw [firstAmong?]
    split
    · exact ⟨i, rfl, hi⟩
    · rename_i hp
      refine ih (Nat.lt_of_le_of_ne hi ?_) (by omega)
      rintro rfl
      exact hp hj

theorem lt_size_of_any : j < l.size := by
  obtain ⟨t, ht, -⟩ := (Option.any_eq_true _ _).1 hj
  exact (Array.getElem?_eq_some_iff.1 ht).1

end Neighbours

section Neighbours

variable {l : Listing} {i j : Nat} (hj : (l.get? j).any Token.isSignificant = true)
include hj

theorem exists_previous? (hlt : j < i) : ∃ k, l.previous? i = some k ∧ j ≤ k :=
  exists_lastBelow? hj (Nat.lt_min.2 ⟨hlt, lt_size_of_any hj⟩)

theorem exists_next? (hlt : i < j) : ∃ k, l.next? i = some k ∧ i < k ∧ k ≤ j := by
  have hsize := lt_size_of_any hj
  obtain ⟨k, hk, hle⟩ := exists_firstAmong? hj (i := i + 1) (n := min l.size l.size - (i + 1)) hlt
    (by omega)
  exact ⟨k, hk, (firstAmong?_eq_some hk).1, hle⟩

end Neighbours

theorem next?_of_previous? {l : Listing} {c i : Nat} (h : l.previous? i = some c)
    (hi : (l.get? i).any Token.isSignificant = true) : l.next? c = some i := by
  obtain ⟨hlt, -, hlayout⟩ := previous?_eq_some_iff.1 h
  exact firstIn?_of_first hlt (lt_size_of_any hi) hi fun k hlow hhigh => hlayout k hlow hhigh

theorem significant_of_kind? {l : Listing} {i : Nat} {k : TokenKind} (hk : l.kind? i = some k)
    (hlayout : k.isLayout = false) : (l.get? i).any Token.isSignificant = true := by
  obtain ⟨t, ht, rfl⟩ := Option.map_eq_some_iff.1 hk
  rw [ht, Option.any_some, Token.isSignificant, hlayout]
  rfl

/-! ## Names that are used as constants -/

/-- The significant token before a name and its leading backslash. -/
def beforeWhole? (l : Listing) (i : Nat) : Option Nat :=
  if l.kindAt? (l.previous? i) == some .nsSeparator then l.previousOf? (l.previous? i)
  else l.previous? i

/-- The name is no later piece of a qualified one. -/
def Unqualified (l : Listing) (i : Nat) : Prop :=
  l.kindAt? (l.previous? i) = some .nsSeparator →
    l.kindAt? (l.previousOf? (l.previous? i)) ∉ [some .name, some .kwNamespace]

instance (l : Listing) (i : Nat) : Decidable (l.Unqualified i) :=
  inferInstanceAs (Decidable (_ → _))

theorem qualifier_of_unqualified {l : Listing} {i : Nat} (h : l.Unqualified i) :
    l.qualifier i =
      { fullyQualified := l.kindAt? (l.previous? i) == some .nsSeparator
        before := l.beforeWhole? i } := by
  rw [Unqualified] at h
  rw [qualifier, beforeWhole?]
  cases hp : l.previous? i with
  | none => rfl
  | some p =>
    rw [hp] at h
    by_cases hsep : l.kind? p = some .nsSeparator
    · have hnot := h hsep
      cases hq : l.previous? p with
      | none => simp [kindAt?, previousOf?, hsep, hq]
      | some q =>
        simp only [previousOf?, Option.bind_some, hq, kindAt?, List.mem_pair] at hnot
        simp [kindAt?, previousOf?, hsep, hq, hnot]
    · simp [kindAt?, hsep]

theorem namespaced_of_not_unqualified {l : Listing} {i : Nat} (h : ¬ l.Unqualified i) :
    (l.qualifier i).namespaced = true := by
  rw [Unqualified, Classical.not_imp, not_not] at h
  obtain ⟨hsep, hmem⟩ := h
  obtain ⟨p, hp, hsep⟩ := Option.bind_eq_some_iff.1 hsep
  rw [hp, previousOf?, Option.bind_some] at hmem
  obtain ⟨q, hq, hkind⟩ : ∃ q, l.previous? p = some q ∧
      (l.kind? q = some .name ∨ l.kind? q = some .kwNamespace) := by
    cases hq : l.previous? p with
    | none =>
      rw [hq] at hmem
      simp [kindAt?] at hmem
    | some q =>
      rw [hq] at hmem
      exact ⟨q, rfl, List.mem_pair.1 hmem⟩
  simp only [qualifier, hp, hq, hsep, Bool.or_eq_true, beq_iff_eq, if_true, if_pos hkind]

theorem followedByArguments?_eq_some {l : Listing} {i : Nat}
    (h : l.kindAt? (l.next? i) ≠ some .openParen) : l.followedByArguments? i = some false := by
  rw [kindAt?] at h
  rw [followedByArguments?]
  split
  · rename_i t ht
    obtain ⟨n, hn, ht⟩ := Option.bind_eq_some_iff.1 ht
    rw [hn, Option.bind_some, kind?, ht, Option.map_some, ne_eq, Option.some.injEq] at h
    rw [if_neg h]
  · rfl

/-- What makes a name a constant, with the token before the whole name. -/
theorem isGlobalConstant_iff (l : Listing) (i : Nat) :
    l.isGlobalConstant i = true ↔ l.kind? i = some .name ∧ l.Unqualified i ∧
      l.kindAt? (l.next? i) ≠ some .openParen ∧ l.declares (l.beforeWhole? i) = false ∧
      (l.kindAt? (l.beforeWhole? i)).any TokenKind.isMemberAccess = false ∧
      l.kindAt? (l.beforeWhole? i) ≠ some .kwNew ∧
      l.isOtherName i (l.beforeWhole? i) = false := by
  by_cases hname : l.kind? i = some .name
  · obtain ⟨t, ht, hkind⟩ := Option.map_eq_some_iff.1 hname
    by_cases hopen : l.kindAt? (l.next? i) = some .openParen
    · refine iff_of_false (fun h => ?_) fun h => h.2.2.1 hopen
      obtain ⟨n, hn, hopen⟩ := Option.bind_eq_some_iff.1 hopen
      obtain ⟨u, hu, hparen⟩ := Option.map_eq_some_iff.1 hopen
      rw [isGlobalConstant, occurrence?, ht, followedByArguments?, hn, Option.bind_some, hu] at h
      simp only [if_pos hkind, if_pos hparen] at h
      cases hpartner : u.partner <;> simp [hpartner] at h
    · by_cases hun : l.Unqualified i
      · have hbefore : (if l.kindAt? (l.previous? i) == some .nsSeparator then
            l.previousOf? (l.previous? i) else l.previous? i) = l.beforeWhole? i := rfl
        rw [isGlobalConstant, occurrence?, ht]
        simp only [if_pos hkind, followedByArguments?_eq_some hopen, Option.map_some,
          qualifier_of_unqualified hun, beforeName?, hbefore]
        simp [Context.isBound, hname, hun, hopen, and_assoc]
      · refine iff_of_false (fun h => ?_) fun h => hun h.2.1
        rw [isGlobalConstant, occurrence?, ht] at h
        simp [hkind, followedByArguments?_eq_some hopen, Context.isBound,
          namespaced_of_not_unqualified hun] at h
  · refine iff_of_false (fun h => ?_) fun h => hname h.1
    rw [isGlobalConstant, occurrence?] at h
    cases ht : l.get? i with
    | none => simp [ht] at h
    | some t =>
      rw [kind?, ht, Option.map_some, Option.some.injEq] at hname
      simp [ht, hname] at h

/-- The name at a position is not qualified with a namespace, and what follows leaves it open that
it is a constant. -/
structure LooksConstant (l : Listing) (i : Nat) : Prop where
  name : l.kind? i = some .name
  unqualified : l.Unqualified i
  previous : l.kindAt? (l.previous? i) ≠ some .kwNamespace
  next : (l.kindAt? (l.next? i)).any TokenKind.barsConstant = false

instance (l : Listing) (i : Nat) : Decidable (l.LooksConstant i) :=
  decidable_of_iff (l.kind? i = some .name ∧ l.Unqualified i ∧
      l.kindAt? (l.previous? i) ≠ some .kwNamespace ∧
      (l.kindAt? (l.next? i)).any TokenKind.barsConstant = false)
    ⟨fun h => ⟨h.1, h.2.1, h.2.2.1, h.2.2.2⟩,
      fun h => ⟨h.name, h.unqualified, h.previous, h.next⟩⟩

theorem any_barsConstant_eq_false_iff {k : Option TokenKind} :
    k.any TokenKind.barsConstant = false ↔
      k ≠ some .openParen ∧ k.any excludesConstantBefore = false := by
  cases k with
  | none => simp
  | some k => cases k <;> decide

/-- Wherever a name is taken for a constant, it looks like one. -/
theorem looksConstant_of_isGlobalConstant {l : Listing} {i : Nat}
    (h : l.isGlobalConstant i = true) : l.LooksConstant i := by
  obtain ⟨hname, hun, hopen, hdeclares, -, -, hother⟩ := (l.isGlobalConstant_iff i).1 h
  simp only [isOtherName, Bool.or_eq_false_iff] at hother
  refine ⟨hname, hun, fun hword => ?_, any_barsConstant_eq_false_iff.2 ⟨hopen, hother.1.1.1.1⟩⟩
  have hwhole : l.beforeWhole? i = l.previous? i := by
    rw [beforeWhole?, hword]
    rfl
  rw [hwhole, declares, hword] at hdeclares
  cases hdeclares

theorem announcesReturnType_of_isGlobalConstant {l : Listing} {i : Nat}
    (h : l.isGlobalConstant i = true) : l.announcesReturnType (l.beforeWhole? i) = false := by
  obtain ⟨-, -, -, -, -, -, hother⟩ := (l.isGlobalConstant_iff i).1 h
  simp only [isOtherName, Bool.or_eq_false_iff] at hother
  exact hother.2

theorem LooksConstant.before_ne {l : Listing} {i : Nat} (h : l.LooksConstant i) :
    l.kindAt? (l.beforeWhole? i) ≠ some .kwNamespace := by
  rw [beforeWhole?]
  split
  · rename_i hsep
    intro hword
    exact h.unqualified (eq_of_beq hsep) (by rw [hword]; simp)
  · exact h.previous

/-! ## Owners of parentheses -/

/-- The owner that is recorded at a position. -/
def owner? (l : Listing) (i : Nat) : Option Nat := (l.get? i).bind Token.parenOwner

section Owners

variable {ts : List Token} (hts : ∀ t ∈ ts, t.Bare)
include hts

theorem owner?_ofTokens (i : Nat) :
    (ofTokens ts).owner? i = ownerOf (linked (settleNames ts)) i := by
  rw [owner?, get?_ofTokens fun t ht => (hts t ht).scope, Option.bind_map]
  rfl

/-- The owner is the significant token before the parenthesis that opens, if that may own one. -/
theorem parenOwnerAt?_ofTokens {o p : Nat} :
    parenOwnerAt? (linkBrackets (settleNames ts).toArray) o = some p ↔
      (ofTokens ts).previous? o = some p ∧ ((ofTokens ts).kind? p).any ownsParens = true := by
  have hany (f : TokenKind → Bool) (k : Nat) : ((settleNames ts)[k]?.any fun t => f t.kind) =
      ((ofTokens ts).kind? k).any f := by
    rw [kind?_ofTokens_eq hts, Option.any_map]
  have hsig (k : Nat) : (settleNames ts)[k]?.any Token.isSignificant =
      ((ofTokens ts).get? k).any Token.isSignificant := by
    refine (hany (fun kind => !kind.isLayout) k).trans ?_
    rw [kind?, Option.any_map]
    rfl
  rw [parenOwnerAt?_eq_some_iff, isPrevious_linkBrackets,
    any_linkBrackets (settleNames ts) ownsParens, hany, previous?_eq_some_iff]
  simp only [← hsig]
  exact and_congr_left' ⟨fun h => ⟨h.lt, h.significant, h.layout⟩, fun h => ⟨h.1, h.2.1, h.2.2⟩⟩

theorem owner?_open {o : Nat} (ho : (ofTokens ts).kind? o = some .openParen) :
    (ofTokens ts).owner? o = parenOwnerAt? (linkBrackets (settleNames ts).toArray) o := by
  rw [kind?_ofTokens_eq hts] at ho
  rw [owner?_ofTokens hts, ownerOf_open ho]

theorem owner?_close {o c : Nat} (hc : (ofTokens ts).kind? c = some .closeParen)
    (ho : (ofTokens ts).partner? c = some o) :
    (ofTokens ts).owner? c = parenOwnerAt? (linkBrackets (settleNames ts).toArray) o := by
  have hbare := bare_settleNames hts
  rw [kind?_ofTokens_eq hts] at hc
  rw [owner?_ofTokens hts, ownerOf_close hc]
  exact (partnerOf_linked fun t ht => (hbare t ht).partner).2 ((partner?_ofTokens hts).1 ho)

theorem owner?_of_no_partner {c : Nat} (hc : (ofTokens ts).kind? c = some .closeParen)
    (ho : (ofTokens ts).partner? c = none) : (ofTokens ts).owner? c = none := by
  have hbare := bare_settleNames hts
  rw [kind?, get?_ofTokens fun t ht => (hts t ht).scope, linked, ownParens_getElem?] at hc
  rw [partner?, get?_ofTokens fun t ht => (hts t ht).scope, linked, ownParens_getElem?] at ho
  rw [owner?, get?_ofTokens fun t ht => (hts t ht).scope, linked, ownParens_getElem?]
  cases hu : (linkBrackets (settleNames ts).toArray)[c]? with
  | none => rfl
  | some u =>
    rw [hu, Option.map_some, Option.map_some, Option.map_some, Option.some.injEq] at hc
    rw [hu, Option.map_some, Option.map_some, Option.bind_some] at ho
    have hkind : u.kind = .closeParen := hc
    have hpartner : u.partner = none := ho
    have howner : u.parenOwner = none := by
      rw [linkBrackets_getElem?, List.getElem?_toArray, Option.map_eq_some_iff] at hu
      obtain ⟨t, ht, rfl⟩ := hu
      exact (hbare t (List.mem_of_getElem? ht)).parenOwner
    show parenOwnerOf? _ c u = none
    simp only [parenOwnerOf?, hkind, hpartner, howner]

end Owners

/-- The parenthesis at a position opens parameters or captured variables: it stands after
`function`, `fn`, `use`, or the name of a function. -/
def OpensSignature (l : Listing) (o : Nat) : Prop :=
  l.kindAt? (l.previous? o) ∈ [some .kwFunction, some .kwFn, some .kwUse] ∨
    l.kindAt? (l.previous? o) = some .name ∧
      l.kindAt? (l.previousOf? (l.previous? o)) ∈ [some .kwFunction, some .ampersand]

/-- The colon at a position follows parameters or captured variables. -/
def FollowsSignature (l : Listing) (colon : Nat) : Prop :=
  ∃ c o, l.previous? colon = some c ∧ l.kind? c = some .closeParen ∧ l.partner? c = some o ∧
    l.OpensSignature o

theorem isFunctionLike_iff {l : Listing} {owner : Option Nat} {o : Nat}
    (h : ∀ p, owner = some p ↔ l.previous? o = some p ∧ (l.kind? p).any ownsParens = true) :
    l.isFunctionLike owner = true ↔ l.OpensSignature o := by
  cases owner with
  | some p =>
    have hp := ((h p).1 rfl).1
    rw [isFunctionLike, OpensSignature, hp, kindAt?, kindAt?, Option.bind_some]
    cases l.kind? p with
    | none => simp
    | some k => cases k <;> simp
  | none =>
    refine iff_of_false (show ¬ false = true from Bool.false_ne_true) fun hopens => ?_
    obtain ⟨p, hp, howns⟩ : ∃ p, l.previous? o = some p ∧ (l.kind? p).any ownsParens = true := by
      cases hp : l.previous? o with
      | none => simp [OpensSignature, hp, kindAt?] at hopens
      | some p =>
        refine ⟨p, rfl, ?_⟩
        simp only [OpensSignature, hp, kindAt?, Option.bind_some, List.mem_cons, List.not_mem_nil,
          or_false] at hopens
        rcases hopens with (hk | hk | hk) | ⟨hk, -⟩ <;> rw [hk] <;> rfl
    cases (h p).2 ⟨hp, howns⟩

theorem isReturnColon_iff {ts : List Token} (hts : ∀ t ∈ ts, t.Bare) {colon : Nat}
    (hcolon : (ofTokens ts).kind? colon = some .colon) :
    (ofTokens ts).isReturnColon (some colon) = true ↔ (ofTokens ts).FollowsSignature colon := by
  have hkind : (ofTokens ts).kindAt? (some colon) = some .colon := hcolon
  rw [isReturnColon, hkind, previousOf?, Option.bind_some, FollowsSignature]
  cases hc : (ofTokens ts).previous? colon with
  | none => simp
  | some c =>
    obtain ⟨-, hsig, -⟩ := previous?_eq_some_iff.1 hc
    obtain ⟨t, ht, -⟩ := (Option.any_eq_true _ _).1 hsig
    have howner : (ofTokens ts).owner? c = t.parenOwner := by rw [owner?, ht, Option.bind_some]
    have hkind' : (ofTokens ts).kind? c = some t.kind := by rw [kind?, ht, Option.map_some]
    rw [Option.bind_some, ht]
    by_cases hclose : t.kind = .closeParen
    · rw [hclose] at hkind'
      cases ho : (ofTokens ts).partner? c with
      | none =>
        have hnone := howner.symm.trans (owner?_of_no_partner hts hkind' ho)
        simp [hnone, isFunctionLike, kindAt?, ho]
      | some o =>
        have howner' (p : Nat) : t.parenOwner = some p ↔ (ofTokens ts).previous? o = some p ∧
            ((ofTokens ts).kind? p).any ownsParens = true := by
          rw [← howner, owner?_close hts hkind' ho, parenOwnerAt?_ofTokens hts]
        have hlike := isFunctionLike_iff howner'
        simp [hclose, hlike, hkind', ho]
    · simp [hclose, hkind']

theorem kindAt?_of_isReturnColon {l : Listing} {colon : Option Nat}
    (h : l.isReturnColon colon = true) : l.kindAt? colon = some .colon := by
  rw [isReturnColon, Bool.and_eq_true] at h
  exact eq_of_beq h.1

/-- A return type follows its colon, with a `?` between them or not. -/
theorem announcesReturnType_iff {l : Listing} {before : Option Nat} :
    l.announcesReturnType before = true ↔ l.isReturnColon before = true ∨
      l.kindAt? before = some .questionMark ∧ l.isReturnColon (l.previousOf? before) = true := by
  have hcolon : l.isReturnColon before = true → l.kindAt? before = some .colon :=
    kindAt?_of_isReturnColon
  rw [announcesReturnType]
  split
  · rename_i hkind
    simp [hkind]
  · rename_i hkind
    simp_all
  · rename_i hkind
    simp_all

/-! ## Lists of classes -/

/-- No list of classes reaches over a token that is no piece of one, where no keyword for such a
list stands from there on. -/
theorem inClassList_eq_false {ts : List Token} (hts : ∀ t ∈ ts, t.Bare) {c p : Nat} {k : TokenKind}
    (hc : c < p) (hk : (ofTokens ts).kind? c = some k) (hlayout : k.isLayout = false)
    (hpiece : isListPiece k = false)
    (hkeywords : ∀ j, c ≤ j → j < p →
      ((ofTokens ts).kind? j).any TokenKind.startsClassList = false)
    (hopener : k = .openParen → (ofTokens ts).kindAt? ((ofTokens ts).previous? c) ≠ some .kwCatch) :
    (ofTokens ts).inClassList p = false := by
  obtain ⟨u, hu, rfl⟩ := Option.map_eq_some_iff.1 hk
  have hsig : u.isSignificant = true := by rw [Token.isSignificant, hlayout]; rfl
  have hcsig : ((ofTokens ts).get? c).any Token.isSignificant = true := by rw [hu]; exact hsig
  have hany : ((ofTokens ts).get? c).any (fun t => t.isSignificant && !isListPiece t.kind) =
      true := by
    rw [hu, Option.any_some, hsig, hpiece]
    rfl
  obtain ⟨j, hj, hcj⟩ := exists_lastBelow? hany (Nat.lt_min.2 ⟨hc, lt_size_of_any hany⟩)
  obtain ⟨hjp, hpass, -⟩ := lastBelow?_eq_some_iff.1 hj
  have hfound : (ofTokens ts).previousUnless? isListPiece p = some j := hj
  obtain ⟨t, ht, -⟩ := (Option.any_eq_true _ _).1 hpass
  have hkind : (ofTokens ts).kind? j = some t.kind := by rw [kind?, ht, Option.map_some]
  have hnot := hkeywords j hcj (by omega)
  have howner : t.kind = .openParen → (ofTokens ts).kindAt? t.parenOwner ≠ some .kwCatch := by
    intro hparen hcatch
    obtain ⟨o, ho, hword⟩ := Option.bind_eq_some_iff.1 hcatch
    have hprevious : (ofTokens ts).previous? j = some o := by
      rw [hparen] at hkind
      have howner := owner?_open hts hkind
      rw [owner?, ht, Option.bind_some, ho] at howner
      exact ((parenOwnerAt?_ofTokens hts).1 howner.symm).1
    rcases Nat.eq_or_lt_of_le hcj with rfl | hlt
    · obtain rfl : u = t := Option.some.inj (hu.symm.trans ht)
      refine hopener hparen ?_
      rw [hprevious]
      exact hword
    · obtain ⟨q, hq, hle⟩ := exists_previous? hcsig hlt
      obtain rfl : q = o := Option.some.inj (hq.symm.trans hprevious)
      have hlt' := (previous?_eq_some_iff.1 hq).1
      have hnot' := hkeywords q hle (by omega)
      rw [hword] at hnot'
      cases hnot'
  rw [hkind, Option.any_some] at hnot
  rw [inClassList, hfound, Option.bind_some, ht]
  cases hcase : t.kind <;> simp only [hcase]
  case openParen => exact beq_eq_false_iff_ne.2 (howner hcase)
  all_goals
    rw [hcase] at hnot
    cases hnot

end Listing

end Vintage
