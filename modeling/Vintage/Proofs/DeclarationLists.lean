import Mathlib.Data.List.Chain
import Vintage.Proofs.Signatures.TypeNames

/-!
# Lists of declared names

The names in `const A = 1, B = 2;` and in `use A, B;` are declared, all of them. Whether a name is
declared is told by the token before it, which is the keyword for the first name of the list only.
The later ones stand after commas, and they are taken for constants.

Results:
* `Listing.isChain_between`: the tokens between two positions stand next to each other.
* `Listing.previousUnless?_of_isChain`: a search backwards over neighbours.
* `Listing.isGlobalConstant_in_declarations`: which names of a list are taken for constants.
-/

namespace Vintage

namespace Listing

/-! ## Neighbours -/

/-- The two positions hold significant tokens with nothing but layout between them. -/
structure Adjacent (l : Listing) (a b : Nat) : Prop where
  previous : l.previous? b = some a
  next : l.next? a = some b

theorem adjacent_of_previous? {l : Listing} {a b : Nat} (h : l.previous? b = some a)
    (hb : (l.get? b).any Token.isSignificant = true) : l.Adjacent a b :=
  ⟨h, next?_of_previous? h hb⟩

/-- The significant tokens from one to another stand next to each other. -/
theorem isChain_between {l : Listing} {s e : Nat} (hs : (l.get? s).any Token.isSignificant = true)
    (he : (l.get? e).any Token.isSignificant = true) (hlt : s < e) :
    (s :: (l.significantBetween s e ++ [e])).IsChain l.Adjacent := by
  induction e using Nat.strong_induction_on with
  | _ e ih =>
    rcases previous?_cases hs hlt with hq | ⟨q, -, hq, hsq, hqe, -⟩
    · rw [significantBetween_nil hq]
      exact List.isChain_pair.2 (adjacent_of_previous? hq he)
    · have hsig := (previous?_eq_some_iff.1 hq).2.1
      rw [significantBetween_concat hq hsq, List.append_assoc, ← List.cons_append]
      refine List.isChain_append_cons_cons.2 ⟨ih q hqe hsig hsq, adjacent_of_previous? hq he, ?_⟩
      exact List.isChain_singleton e

section Searches

variable {l : Listing} {skip : TokenKind → Bool}

/-- A search backwards takes the token before, or goes on from there. -/
theorem previousUnless?_of_previous? {i q : Nat} {k : TokenKind} (hq : l.previous? i = some q)
    (hk : l.kind? q = some k) :
    l.previousUnless? skip i = if skip k then l.previousUnless? skip q else some q := by
  obtain ⟨hlt, hsig, hlayout⟩ := previous?_eq_some_iff.1 hq
  obtain ⟨t, ht, rfl⟩ := Option.map_eq_some_iff.1 hk
  rw [ht, Option.any_some] at hsig
  have hpass : (l.get? q).any (fun t => t.isSignificant && !skip t.kind) = !skip t.kind := by
    rw [ht, Option.any_some, hsig, Bool.true_and]
  have hnone {j : Nat} (hj : q < j) (hj' : j < i) :
      (l.get? j).any (fun t => t.isSignificant && !skip t.kind) = false := by
    have hj := hlayout j hj hj'
    cases hu : l.get? j with
    | none => rfl
    | some u =>
      rw [hu, Option.any_some] at hj
      rw [Option.any_some, hj, Bool.false_and]
  unfold previousUnless?
  cases hskip : skip t.kind with
  | false =>
    rw [if_neg Bool.false_ne_true]
    exact lastBefore?_eq_some_iff.2 ⟨hlt, by rw [hpass, hskip]; rfl, fun j hj hj' => hnone hj hj'⟩
  | true =>
    rw [if_pos rfl]
    rw [hskip] at hpass
    ext j
    rw [lastBefore?_eq_some_iff, lastBefore?_eq_some_iff]
    constructor
    · rintro ⟨hj, hp, hafter⟩
      rcases Nat.lt_trichotomy j q with hjq | rfl | hqj
      · exact ⟨hjq, hp, fun k hjk hkq => hafter k hjk (by omega)⟩
      · cases hpass.symm.trans hp
      · cases (hnone hqj hj).symm.trans hp
    · rintro ⟨hj, hp, hafter⟩
      refine ⟨by omega, hp, fun k hjk hki => ?_⟩
      rcases Nat.lt_trichotomy k q with hkq | rfl | hqk
      · exact hafter k hjk hkq
      · exact hpass
      · exact hnone hqk hki

theorem Adjacent.exists_kind {a b : Nat} (h : l.Adjacent a b) : ∃ k, l.kind? a = some k := by
  obtain ⟨t, ht, -⟩ := (Option.any_eq_true _ _).1 (previous?_eq_some_iff.1 h.previous).2.1
  exact ⟨t.kind, by rw [kind?, ht, Option.map_some]⟩

theorem exists_kind_of_isChain {x y : Nat} {xs : List Nat}
    (h : (x :: (xs ++ [y])).IsChain l.Adjacent) : ∀ p ∈ x :: xs, ∃ k, l.kind? p = some k := by
  induction xs generalizing x with
  | nil =>
    intro p hp
    rw [List.mem_singleton.1 hp]
    exact (List.isChain_pair.1 h).exists_kind
  | cons z xs ih =>
    obtain ⟨hadjacent, hchain⟩ := List.isChain_cons_cons.1 h
    exact List.forall_mem_cons.2 ⟨hadjacent.exists_kind, ih hchain⟩

/-- A search backwards over neighbours, the first of which is not skipped. -/
theorem previousUnless?_of_isChain {x y : Nat} {xs : List Nat}
    (h : (x :: (xs ++ [y])).IsChain l.Adjacent) (hx : (l.kind? x).any skip = false) :
    l.previousUnless? skip y =
      some ((xs.filter fun p => !(l.kind? p).any skip).getLast?.getD x) := by
  induction xs using List.reverseRecOn generalizing y with
  | nil =>
    have hadjacent : l.Adjacent x y := List.isChain_pair.1 h
    obtain ⟨k, hk⟩ := hadjacent.exists_kind
    rw [hk, Option.any_some] at hx
    rw [previousUnless?_of_previous? hadjacent.previous hk, hx, if_neg Bool.false_ne_true]
    rfl
  | append_singleton xs z ih =>
    rw [List.append_assoc, List.singleton_append, ← List.cons_append,
      List.isChain_append_cons_cons] at h
    obtain ⟨hchain, hadjacent, -⟩ := h
    obtain ⟨k, hk⟩ := hadjacent.exists_kind
    rw [previousUnless?_of_previous? hadjacent.previous hk, ih hchain, List.filter_append]
    cases hskip : skip k with
    | true => simp [hk, hskip]
    | false => simp [hk, hskip]

end Searches

/-! ## Lists with commas -/

/-- The positions are those of the entries, with a comma between any two. -/
inductive Listed (l : Listing) {α : Type} (positions : α → List Nat) : List Nat → List α → Prop
  | last (a : α) : Listed l positions (positions a) [a]
  | cons (a : α) {c : Nat} (hcomma : l.kind? c = some .comma) {ps : List Nat} {as : List α}
      (h : Listed l positions ps as) : Listed l positions (positions a ++ c :: ps) (a :: as)

namespace Listed

variable {l : Listing} {α : Type} {positions : α → List Nat} {ps : List Nat} {as : List α}

theorem forall_mem (h : l.Listed positions ps as) {P : Nat → Prop}
    (hcomma : ∀ c, l.kind? c = some .comma → P c) (has : ∀ a ∈ as, ∀ p ∈ positions a, P p) :
    ∀ p ∈ ps, P p := by
  induction h with
  | last a => exact has a List.mem_cons_self
  | cons a hc _ ih =>
    obtain ⟨ha, has⟩ := List.forall_mem_cons.1 has
    exact List.forall_mem_append.2 ⟨ha, List.forall_mem_cons.2 ⟨hcomma _ hc, ih has⟩⟩

theorem mem_positions (h : l.Listed positions ps as) {a : α} (ha : a ∈ as) {p : Nat}
    (hp : p ∈ positions a) : p ∈ ps := by
  induction h with
  | last => rwa [List.mem_singleton.1 ha] at hp
  | cons _ _ _ ih =>
    rcases List.mem_cons.1 ha with rfl | ha
    · exact List.mem_append_left _ hp
    · exact List.mem_append_right _ (List.mem_cons_of_mem _ (ih ha))

/-- Before an entry stands what stands before the list, or a comma after the entry before it; after
an entry stands a comma, or what stands after the list. -/
theorem neighbours (h : l.Listed positions ps as) {x e : Nat}
    (hchain : (x :: (ps ++ [e])).IsChain l.Adjacent) {j : Nat} {a : α} (ha : as[j]? = some a) :
    ∃ y z, (y :: (positions a ++ [z])).IsChain l.Adjacent ∧
      (z = e ∨ l.kind? z = some .comma) ∧
      (j = 0 ∧ y = x ∨ ∃ i b w, j = i + 1 ∧ as[i]? = some b ∧ l.kind? y = some .comma ∧
        (w :: (positions b ++ [y])).IsChain l.Adjacent) := by
  induction h generalizing x j with
  | last b =>
    cases j with
    | zero =>
      obtain rfl := Option.some.inj ha
      exact ⟨x, e, hchain, Or.inl rfl, Or.inl ⟨rfl, rfl⟩⟩
    | succ j => cases ha
  | @cons b c hcomma ps as h ih =>
    rw [List.append_assoc, List.cons_append, ← List.cons_append, List.isChain_split] at hchain
    obtain ⟨hfirst, hrest⟩ := hchain
    cases j with
    | zero =>
      obtain rfl := Option.some.inj ha
      exact ⟨x, c, hfirst, Or.inr hcomma, Or.inl ⟨rfl, rfl⟩⟩
    | succ j =>
      obtain ⟨y, z, hentry, hz, ⟨rfl, rfl⟩ | ⟨i, b', w, rfl, hb, hy, hbefore⟩⟩ := ih hrest ha
      · exact ⟨y, z, hentry, hz, Or.inr ⟨0, b, x, rfl, rfl, hcomma, hfirst⟩⟩
      · exact ⟨y, z, hentry, hz, Or.inr ⟨i + 1, b', w, rfl, hb, hy, hbefore⟩⟩

end Listed

/-! ## Names after keywords and commas -/

theorem not_isGlobalConstant_of_declares {l : Listing} {i s : Nat} {k : TokenKind}
    (hbefore : l.beforeWhole? i = some s) (hk : l.kind? s = some k)
    (hdeclares : k.declaresName = true) : l.isGlobalConstant i ≠ true := by
  intro h
  obtain ⟨-, -, -, hnot, -⟩ := (l.isGlobalConstant_iff i).1 h
  rw [hbefore, declares, kindAt?, Option.bind_some, hk] at hnot
  split at hnot
  · rename_i heq
    rw [Option.some.inj heq] at hdeclares
    cases hdeclares
  · rename_i heq
    rw [← Option.some.inj heq, hdeclares] at hnot
    cases hnot
  · rename_i heq
    cases heq

theorem isGlobalConstant_after_comma {l : Listing} {i c : Nat} (hname : l.kind? i = some .name)
    (hunqualified : l.Unqualified i) (hbefore : l.beforeWhole? i = some c)
    (hcomma : l.kind? c = some .comma) :
    l.isGlobalConstant i = true ↔
      (l.kindAt? (l.next? i)).any TokenKind.barsConstant = false ∧
        l.inClassList i = false ∧ l.kindAt? (l.next? i) ≠ some .colon := by
  have hkind : l.kindAt? (some c) = some .comma := hcomma
  rw [isGlobalConstant_iff, any_barsConstant_eq_false_iff, hbefore]
  simp [isOtherName, hname, hunqualified, hkind, declares, announcesReturnType, announcesClass,
    TokenKind.declaresName, TokenKind.isMemberAccess, precedesLabel, and_assoc]

/-! ## Lists of classes -/

/-- The last token that is no piece of a list of classes is a keyword that such a list follows. -/
def endsInClassList (ks : List TokenKind) : Bool :=
  (ks.filter fun k => !isListPiece k).getLast?.any TokenKind.startsClassList

theorem isListPiece_closer (b : Bracket) : isListPiece b.closer = false := by cases b <;> rfl

/-- The last token of a well-nested list that is no piece of a list of classes opens no bracket. -/
theorem getLast?_ne_openParen {p : TokenKind → Prop} {ks : List TokenKind} (h : Nested p ks) :
    (ks.filter fun k => !isListPiece k).getLast? ≠ some .openParen := by
  -- the last of a list is its last but one, if nothing follows
  have hlast {k : TokenKind} {ks : List TokenKind} (hk : k ≠ .openParen)
      (hks : ks.getLast? ≠ some .openParen) : some (ks.getLast?.getD k) ≠ some .openParen := by
    intro heq
    cases hcase : ks.getLast? with
    | none => exact hk (by rw [hcase] at heq; exact Option.some.inj heq)
    | some k' => exact hks (by rw [hcase] at heq ⊢; exact heq)
  induction h with
  | nil => simp
  | @plain p k ks hbracket _ _ ih =>
    by_cases hpiece : isListPiece k = true
    · rwa [List.filter_cons_of_neg (by simp [hpiece])]
    · rw [List.filter_cons_of_pos (by simpa using hpiece), List.getLast?_cons]
      exact hlast (TokenKind.ne_of_not_bracket hbracket .round).1 ih
  | group b _ _ _ ihrest =>
    rw [← List.cons_append, List.filter_append,
      List.filter_cons_of_pos (a := b.closer) (by simp [isListPiece_closer]),
      List.getLast?_append, List.getLast?_cons, Option.some_or]
    exact hlast (Bracket.opener_ne_closer .round b).symm ihrest

theorem startsClassList_iff {k : TokenKind} :
    k.startsClassList = true ↔ k = .kwImplements ∨ k = .kwExtends ∨ k = .kwCatch := by
  cases k <;> decide

theorem inClassList_eq {l : Listing} {i p : Nat} {k : TokenKind}
    (hp : l.previousUnless? isListPiece i = some p) (hk : l.kind? p = some k)
    (hne : k ≠ .openParen) : l.inClassList i = k.startsClassList := by
  obtain ⟨t, ht, rfl⟩ := Option.map_eq_some_iff.1 hk
  rw [inClassList, hp, Option.bind_some, ht]
  simp only
  split
  · rename_i heq
    rw [heq]
    rfl
  · rename_i heq
    rw [heq]
    rfl
  · rename_i heq
    rw [heq]
    rfl
  · rename_i heq
    exact absurd heq hne
  · rename_i hi he hc _
    refine (Bool.eq_false_iff.2 fun hstarts => ?_).symm
    rcases startsClassList_iff.1 hstarts with h | h | h
    · exact hi h
    · exact he h
    · exact hc h

theorem filter_kindsAt (l : Listing) (skip : TokenKind → Bool) (ps : List Nat) :
    (l.kindsAt ps).filter (fun k => !skip k) =
      l.kindsAt (ps.filter fun p => !(l.kind? p).any skip) := by
  induction ps with
  | nil => rfl
  | cons p ps ih =>
    cases hk : l.kind? p with
    | none => simpa [kindsAt, hk] using ih
    | some k => cases hskip : skip k <;> simpa [kindsAt, hk, hskip] using ih

/-- A list of classes before a name, told by a value before it. -/
theorem inClassList_after_value {l : Listing} {i c equal : Nat} {value : List Nat}
    (hi : l.previous? i = some c) (hcomma : l.kind? c = some .comma)
    (hequal : l.kind? equal = some .equal)
    (hchain : (equal :: (value ++ [c])).IsChain l.Adjacent) {p : TokenKind → Prop}
    (hvalue : Nested p (l.kindsAt value)) :
    l.inClassList i = endsInClassList (l.kindsAt value) := by
  have hkinds := exists_kind_of_isChain hchain
  have hfound : l.previousUnless? isListPiece i =
      some ((value.filter fun p => !(l.kind? p).any isListPiece).getLast?.getD equal) := by
    rw [previousUnless?_of_previous? hi hcomma, if_pos (show isListPiece .comma = true from rfl),
      previousUnless?_of_isChain hchain (by rw [hequal]; rfl)]
  have hfilter := l.filter_kindsAt isListPiece value
  rw [endsInClassList, hfilter]
  rcases List.eq_nil_or_concat' (value.filter fun p => !(l.kind? p).any isListPiece) with
    hnil | ⟨xs, p, hconcat⟩
  · rw [hnil] at hfound ⊢
    exact inClassList_eq hfound hequal (by decide)
  · have hmem : p ∈ value.filter fun p => !(l.kind? p).any isListPiece := by
      rw [hconcat]
      exact List.mem_append_right xs List.mem_cons_self
    obtain ⟨k, hk⟩ := hkinds p (List.mem_cons_of_mem _ (List.mem_of_mem_filter hmem))
    rw [hconcat, List.getLast?_concat] at hfound
    have hlast := getLast?_ne_openParen hvalue
    rw [hfilter, hconcat, kindsAt_concat hk, List.getLast?_concat] at hlast
    rw [hconcat, kindsAt_concat hk, List.getLast?_concat, Option.any_some]
    exact inClassList_eq hfound hk fun heq => hlast (by rw [heq])

/-! ## Pieces of names -/

end Listing

theorem PathSyntax.around {ks us vs : List TokenKind} {k : TokenKind} (h : PathSyntax ks)
    (hks : ks = us ++ k :: vs) (hk : k.isNameWord = true) :
    (us = [] ∨ ∃ us' w, w.isNameWord = true ∧ us = us' ++ [w, .nsSeparator]) ∧
      (vs = [] ∨ ∃ vs', vs = .nsSeparator :: vs') := by
  induction h generalizing us with
  | word _ =>
    rcases us with _ | ⟨u, us⟩
    · exact ⟨Or.inl rfl, Or.inl (List.cons.inj hks).2.symm⟩
    · simp at hks
  | @cons w ks hw _ ih =>
    rcases us with _ | ⟨u, _ | ⟨u', us⟩⟩
    · exact ⟨Or.inl rfl, Or.inr ⟨ks, (List.cons.inj hks).2.symm⟩⟩
    · obtain ⟨-, hrest⟩ := List.cons.inj hks
      rw [← (List.cons.inj hrest).1] at hk
      cases hk
    · obtain ⟨rfl, htail⟩ := List.cons.inj hks
      obtain ⟨rfl, hrest⟩ := List.cons.inj htail
      obtain ⟨rfl | ⟨us', w', hw', rfl⟩, hafter⟩ := ih hrest
      · exact ⟨Or.inr ⟨[], w, hw, rfl⟩, hafter⟩
      · exact ⟨Or.inr ⟨w :: .nsSeparator :: us', w', hw', rfl⟩, hafter⟩

/-- A piece of a name stands first, or after a leading backslash, or after a backslash and another
piece; it stands last, or before a backslash. -/
theorem NameSyntax.around {ks us vs : List TokenKind} {k : TokenKind} (h : NameSyntax ks)
    (hks : ks = us ++ k :: vs) (hk : k.isNameWord = true) :
    (us = [] ∨ us = [.nsSeparator] ∨
        ∃ us' w, w.isNameWord = true ∧ us = us' ++ [w, .nsSeparator]) ∧
      (vs = [] ∨ ∃ vs', vs = .nsSeparator :: vs') := by
  cases h with
  | path h =>
    obtain ⟨hbefore, hafter⟩ := h.around hks hk
    exact ⟨hbefore.imp id Or.inr, hafter⟩
  | global h =>
    rcases us with _ | ⟨u, us⟩
    · rw [← (List.cons.inj hks).1] at hk
      cases hk
    · obtain ⟨rfl, hrest⟩ := List.cons.inj hks
      obtain ⟨rfl | ⟨us', w, hw, rfl⟩, hafter⟩ := h.around hrest hk
      · exact ⟨Or.inr (Or.inl rfl), hafter⟩
      · exact ⟨Or.inr (Or.inr ⟨.nsSeparator :: us', w, hw, rfl⟩), hafter⟩

namespace Listing

theorem append_name_mem_iff {us vs : List TokenKind} :
    us ++ .name :: vs ∈ [[.name], [.nsSeparator, .name]] ↔
      (us = [] ∨ us = [.nsSeparator]) ∧ vs = [] := by
  rcases us with _ | ⟨u, _ | ⟨u', us⟩⟩ <;> simp

/-- Positions that all hold tokens, from the last one on. -/
theorem exists_concat_of_kindsAt {l : Listing} {ps : List Nat}
    (hps : ∀ p ∈ ps, ∃ k, l.kind? p = some k) {ks : List TokenKind} {k : TokenKind}
    (h : l.kindsAt ps = ks ++ [k]) :
    ∃ qs q, ps = qs ++ [q] ∧ l.kind? q = some k ∧ l.kindsAt qs = ks := by
  rcases List.eq_nil_or_concat' ps with rfl | ⟨qs, q, rfl⟩
  · simp [kindsAt] at h
  · obtain ⟨k', hk'⟩ := hps q (List.mem_append_right _ List.mem_cons_self)
    rw [kindsAt_concat hk'] at h
    obtain ⟨hks, hk⟩ := List.append_inj' h rfl
    exact ⟨qs, q, rfl, by rw [hk', (List.cons.inj hk).1], hks⟩

theorem eq_nil_of_kindsAt {l : Listing} {ps : List Nat} (hps : ∀ p ∈ ps, ∃ k, l.kind? p = some k)
    (h : l.kindsAt ps = []) : ps = [] := by
  rcases List.eq_nil_or_concat' ps with rfl | ⟨qs, q, rfl⟩
  · rfl
  · obtain ⟨k, hk⟩ := hps q (List.mem_append_right _ List.mem_cons_self)
    rw [kindsAt_concat hk] at h
    simp at h

theorem beforeWhole?_of_previous? {l : Listing} {i c : Nat} (h : l.previous? i = some c)
    (hc : l.kind? c ≠ some .nsSeparator) : l.beforeWhole? i = some c ∧ l.Unqualified i := by
  have hkind : l.kindAt? (l.previous? i) ≠ some .nsSeparator := by rwa [h]
  exact ⟨by rw [beforeWhole?, if_neg (by simpa using hkind), h], fun hsep => absurd hsep hkind⟩

theorem exists_cons_of_kindsAt {l : Listing} {ps : List Nat}
    (hps : ∀ p ∈ ps, ∃ k, l.kind? p = some k) {ks : List TokenKind} {k : TokenKind}
    (h : l.kindsAt ps = k :: ks) : ∃ q qs, ps = q :: qs ∧ l.kind? q = some k := by
  rcases ps with _ | ⟨q, qs⟩
  · cases h
  · obtain ⟨k', hk'⟩ := hps q List.mem_cons_self
    rw [kindsAt_cons hk'] at h
    exact ⟨q, qs, rfl, by rw [hk', (List.cons.inj h).1]⟩

section Names

variable {l : Listing} {y p : Nat} {xs : List Nat}
  (h : (y :: (xs ++ [p])).IsChain l.Adjacent)
include h

/-- The token before a name that stands first, or after a leading backslash. -/
theorem beforeWhole?_of_isChain
    (hy : l.kind? y ∉ [some .nsSeparator, some .name, some .kwNamespace])
    (hxs : l.kindsAt xs = [] ∨ l.kindsAt xs = [.nsSeparator]) :
    l.beforeWhole? p = some y ∧ l.Unqualified p := by
  have hkinds : ∀ q ∈ xs, ∃ k, l.kind? q = some k :=
    fun q hq => exists_kind_of_isChain h q (List.mem_cons_of_mem _ hq)
  simp only [List.mem_cons, List.not_mem_nil, or_false, not_or] at hy
  rcases hxs with hxs | hxs
  · obtain rfl := eq_nil_of_kindsAt hkinds hxs
    exact beforeWhole?_of_previous? (List.isChain_pair.1 h).previous hy.1
  · obtain ⟨qs, q, rfl, hq, hqs⟩ := exists_concat_of_kindsAt hkinds (show _ = [] ++ [_] from hxs)
    obtain rfl := eq_nil_of_kindsAt (fun r hr => hkinds r (List.mem_append_left _ hr)) hqs
    obtain ⟨hyq, hqp⟩ := List.isChain_cons_cons.1 h
    have hp : l.previous? p = some q := (List.isChain_pair.1 hqp).previous
    have hsep : l.kindAt? (l.previous? p) = some .nsSeparator := by rw [hp]; exact hq
    have hbefore : l.previousOf? (l.previous? p) = some y := by
      rw [hp, previousOf?, Option.bind_some, hyq.previous]
    refine ⟨by rw [beforeWhole?, hsep, beq_self_eq_true, if_pos rfl, hbefore], fun _ hmem => ?_⟩
    rw [hbefore, kindAt?, Option.bind_some, List.mem_pair] at hmem
    exact hmem.elim hy.2.1 hy.2.2

/-- A name after a backslash and another piece is qualified. -/
theorem not_unqualified_of_isChain {ks : List TokenKind} {w : TokenKind}
    (hw : w.isNameWord = true) (hxs : l.kindsAt xs = ks ++ [w, .nsSeparator]) :
    ¬ l.Unqualified p := by
  have hkinds : ∀ q ∈ xs, ∃ k, l.kind? q = some k :=
    fun q hq => exists_kind_of_isChain h q (List.mem_cons_of_mem _ hq)
  obtain ⟨qs, q, rfl, hq, hqs⟩ :=
    exists_concat_of_kindsAt hkinds (show _ = (ks ++ [w]) ++ [_] by rw [hxs, List.append_assoc]; rfl)
  obtain ⟨rs, r, rfl, hr, -⟩ :=
    exists_concat_of_kindsAt (fun r hr => hkinds r (List.mem_append_left _ hr)) hqs
  rw [List.append_assoc, List.append_assoc, ← List.cons_append] at h
  obtain ⟨-, hrq, hqp⟩ := List.isChain_append_cons_cons.1 h
  have hp : l.previous? p = some q := (List.isChain_cons_cons.1 hqp).1.previous
  intro hunqualified
  have hnot := hunqualified (by rw [hp]; exact hq)
  rw [hp, previousOf?, Option.bind_some, hrq.previous, kindAt?, Option.bind_some, hr] at hnot
  revert hnot hw
  cases w <;> decide

end Names

/-! ## Declared constants -/

/-- The positions of a constant in a declaration: its name, the equal sign and its value. -/
structure Assignment where
  name : Nat
  equal : Nat
  value : List Nat

namespace Assignment

/-- All positions, in order. -/
def positions (a : Assignment) : List Nat := a.name :: a.equal :: a.value

/-- The value is well nested and has no commas and semicolons outside of its brackets. -/
structure IsWritten (l : Listing) (a : Assignment) : Prop where
  name : l.kind? a.name = some .name
  equal : l.kind? a.equal = some .equal
  value : Nested (fun k => k ≠ .comma ∧ k ≠ .semicolon) (l.kindsAt a.value)

end Assignment

section Declarations

variable {l : Listing} {s e j : Nat} (hlt : s < e) (he : l.kind? e = some .semicolon)
include hlt he

theorem isChain_statement {k : TokenKind} (hs : l.kind? s = some k) (hk : k.isLayout = false) :
    (s :: (l.significantBetween s e ++ [e])).IsChain l.Adjacent :=
  isChain_between (significant_of_kind? hs hk) (significant_of_kind? he rfl) hlt

/-- A declared constant is taken for one that is used iff it is not the first of its list, and the
value before it does not end in what a list of classes starts with. -/
theorem isGlobalConstant_assigned (hs : l.kind? s = some .kwConst) {as : List Assignment}
    (hlist : l.Listed Assignment.positions (l.significantBetween s e) as)
    (has : ∀ a ∈ as, a.IsWritten l) {a : Assignment} (ha : as[j]? = some a) :
    l.isGlobalConstant a.name = true ↔
      ∃ i b, j = i + 1 ∧ as[i]? = some b ∧ endsInClassList (l.kindsAt b.value) = false := by
  obtain ⟨y, z, hchain, -, hbefore⟩ :=
    hlist.neighbours (isChain_statement hlt he hs rfl) ha
  obtain ⟨hprevious, hchain⟩ := List.isChain_cons_cons.1 hchain
  obtain ⟨hnext, -⟩ := List.isChain_cons_cons.1 hchain
  have hwritten := has a (List.mem_of_getElem? ha)
  rcases hbefore with ⟨rfl, rfl⟩ | ⟨i, b, w, rfl, hb, hcomma, hchain'⟩
  · have hwhole := (beforeWhole?_of_previous? hprevious.previous (by rw [hs]; decide)).1
    refine iff_of_false (not_isGlobalConstant_of_declares hwhole hs rfl) ?_
    rintro ⟨i, b, hi, -⟩
    cases hi
  · obtain ⟨hwhole, hunqualified⟩ :=
      beforeWhole?_of_previous? hprevious.previous (by rw [hcomma]; decide)
    have hequal : l.kindAt? (l.next? a.name) = some .equal := by
      rw [hnext.next]
      exact hwritten.equal
    have hvalue : (b.equal :: (b.value ++ [y])).IsChain l.Adjacent :=
      (List.isChain_cons_cons.1 (List.isChain_cons_cons.1 hchain').2).2
    have hwritten' := has b (List.mem_of_getElem? hb)
    rw [isGlobalConstant_after_comma hwritten.name hunqualified hwhole hcomma, hequal,
      inClassList_after_value hprevious.previous hcomma hwritten'.equal hvalue hwritten'.value]
    constructor
    · rintro ⟨-, hends, -⟩
      exact ⟨i, b, rfl, hb, hends⟩
    · rintro ⟨i', b', hi, hb', hends⟩
      obtain rfl : i = i' := Nat.succ.inj hi
      obtain rfl := Option.some.inj (hb.symm.trans hb')
      exact ⟨rfl, hends, by decide⟩

/-- No list of classes is found before the names of a `use`. -/
theorem inClassList_imported (hs : l.kind? s = some .kwUse) {names : List (List Nat)}
    (hlist : l.Listed id (l.significantBetween s e) names)
    (hnames : ∀ ps ∈ names, NameSyntax (l.kindsAt ps)) {p : Nat}
    (hp : p ∈ l.significantBetween s e) : l.inClassList p = false := by
  have hchain := isChain_statement hlt he hs rfl
  have hkinds := exists_kind_of_isChain hchain
  -- the tokens of the statement up to the name start no list of classes
  have hpieces : ∀ q ∈ l.significantBetween s e, ∀ k, l.kind? q = some k →
      k.startsClassList = false ∧ k ≠ .openParen := by
    refine hlist.forall_mem (fun c hcomma k hk => ?_) fun ps hps q hq k hk => ?_
    · obtain rfl := Option.some.inj (hcomma.symm.trans hk)
      decide
    · have hpiece := (hnames ps hps).isNamePiece k (mem_kindsAt hq hk)
      revert hpiece
      cases k <;> decide
  obtain ⟨pre, post, hsplit⟩ := List.append_of_mem hp
  rw [hsplit, List.append_assoc, List.cons_append, ← List.cons_append, List.isChain_split] at hchain
  have hfound : l.previousUnless? isListPiece p =
      some ((pre.filter fun q => !(l.kind? q).any isListPiece).getLast?.getD s) :=
    previousUnless?_of_isChain hchain.1 (by rw [hs]; rfl)
  cases hlast : (pre.filter fun q => !(l.kind? q).any isListPiece).getLast? with
  | none =>
    rw [hlast] at hfound
    exact inClassList_eq hfound hs (by decide)
  | some q =>
    rw [hlast] at hfound
    have hq : q ∈ l.significantBetween s e := by
      rw [hsplit]
      exact List.mem_append_left _ (List.mem_of_mem_filter (List.mem_of_getLast? hlast))
    obtain ⟨k, hk⟩ := hkinds q (List.mem_cons_of_mem _ hq)
    obtain ⟨hstarts, hparen⟩ := hpieces q hq k hk
    rw [inClassList_eq hfound hk hparen, hstarts]

/-- An imported name is taken for a constant iff it is not the first of its list and is not
qualified. -/
theorem isGlobalConstant_imported (hs : l.kind? s = some .kwUse) {names : List (List Nat)}
    (hlist : l.Listed id (l.significantBetween s e) names)
    (hnames : ∀ ps ∈ names, NameSyntax (l.kindsAt ps)) {ps : List Nat} (hps : names[j]? = some ps)
    {p : Nat} (hp : p ∈ ps) :
    l.isGlobalConstant p = true ↔
      0 < j ∧ l.kindsAt ps ∈ [[.name], [.nsSeparator, .name]] ∧ l.kind? p = some .name := by
  by_cases hname : l.kind? p = some .name
  swap
  · exact iff_of_false (fun h => hname (looksConstant_of_isGlobalConstant h).name)
      fun h => hname h.2.2
  obtain ⟨y, z, hchain, hz, hbefore⟩ := hlist.neighbours (isChain_statement hlt he hs rfl) hps
  obtain ⟨xs, ys, rfl⟩ := List.append_of_mem hp
  rw [id, List.append_assoc, List.cons_append, ← List.cons_append, List.isChain_split] at hchain
  obtain ⟨hleft, hright⟩ := hchain
  have hkinds : l.kindsAt (xs ++ p :: ys) = l.kindsAt xs ++ .name :: l.kindsAt ys := by
    rw [kindsAt_append, kindsAt_cons hname]
  obtain ⟨hus, hvs⟩ := (hnames _ (List.mem_of_getElem? hps)).around hkinds rfl
  rw [hkinds, append_name_mem_iff, and_iff_left hname]
  by_cases hpiece : (l.kindsAt xs = [] ∨ l.kindsAt xs = [.nsSeparator]) ∧ l.kindsAt ys = []
  swap
  · -- a piece after another one is qualified, and a piece before a backslash is no name by itself
    refine iff_of_false (fun h => hpiece ⟨?_, ?_⟩) fun h => hpiece h.2
    · rcases hus with hus | hus | ⟨us, w, hw, hus⟩
      · exact Or.inl hus
      · exact Or.inr hus
      · exact absurd (looksConstant_of_isGlobalConstant h).unqualified
          (not_unqualified_of_isChain hleft hw hus)
    · rcases hvs with hvs | ⟨vs, hvs⟩
      · exact hvs
      · have hnext := (looksConstant_of_isGlobalConstant h).next
        obtain ⟨q, qs, rfl, hq⟩ := exists_cons_of_kindsAt
          (fun q hq => exists_kind_of_isChain hright q (List.mem_cons_of_mem _ hq)) hvs
        rw [(List.isChain_cons_cons.1 hright).1.next, kindAt?, Option.bind_some, hq] at hnext
        cases hnext
  rw [and_iff_left hpiece]
  rcases hbefore with ⟨rfl, rfl⟩ | ⟨i, b, w, rfl, -, hcomma, -⟩
  · have hwhole := (beforeWhole?_of_isChain hleft (by rw [hs]; decide) hpiece.1).1
    exact iff_of_false (not_isGlobalConstant_of_declares hwhole hs rfl) (Nat.lt_irrefl 0)
  · obtain ⟨hwhole, hunqualified⟩ :=
      beforeWhole?_of_isChain hleft (by rw [hcomma]; decide) hpiece.1
    obtain rfl := eq_nil_of_kindsAt
      (fun q hq => exists_kind_of_isChain hright q (List.mem_cons_of_mem _ hq)) hpiece.2
    have hlists := inClassList_imported hlt he hs hlist hnames
      (hlist.mem_positions (List.mem_of_getElem? hps) hp)
    rw [isGlobalConstant_after_comma hname hunqualified hwhole hcomma,
      (List.isChain_pair.1 hright).next, kindAt?, Option.bind_some, hlists]
    refine iff_of_true ?_ (Nat.succ_pos i)
    rcases hz with rfl | hz
    · rw [he]
      decide
    · rw [hz]
      decide

end Declarations

/-- Of the names that a statement declares or imports, the first is never taken for a constant. A
later constant is taken for one that is used, unless the value before it ends in what a list of
classes starts with; a later import is, unless it is qualified. -/
theorem isGlobalConstant_in_declarations (l : Listing) {s e : Nat} (hlt : s < e)
    (he : l.kind? e = some .semicolon) :
    (∀ as, l.kind? s = some .kwConst →
      l.Listed Assignment.positions (l.significantBetween s e) as → (∀ a ∈ as, a.IsWritten l) →
      ∀ j a, as[j]? = some a → (l.isGlobalConstant a.name = true ↔
        ∃ i b, j = i + 1 ∧ as[i]? = some b ∧ endsInClassList (l.kindsAt b.value) = false)) ∧
    (∀ names, l.kind? s = some .kwUse → l.Listed id (l.significantBetween s e) names →
      (∀ ps ∈ names, NameSyntax (l.kindsAt ps)) →
      ∀ j ps, names[j]? = some ps → ∀ p ∈ ps, (l.isGlobalConstant p = true ↔
        0 < j ∧ l.kindsAt ps ∈ [[.name], [.nsSeparator, .name]] ∧ l.kind? p = some .name)) :=
  ⟨fun _ hs hlist has _ _ => isGlobalConstant_assigned hlt he hs hlist has,
    fun _ hs hlist hnames _ _ hps _ => isGlobalConstant_imported hlt he hs hlist hnames hps⟩

/-- Two constants, the first with an array as its value, and three imports. -/
theorem isGlobalConstant_in_declarations_two :
    let l := ofText "<?php const A = [1, 2], B = 3; use C, \\D, E\\F;"
    (l.kind? 2 = some .kwConst ∧ l.kind? 21 = some .semicolon ∧
        l.isGlobalConstant 4 = false ∧ l.isGlobalConstant 16 = true) ∧
      l.kind? 23 = some .kwUse ∧ l.kind? 35 = some .semicolon ∧
        l.isGlobalConstant 25 = false ∧ l.isGlobalConstant 29 = true ∧
        l.isGlobalConstant 34 = false := by
  intro l
  let a : Assignment := ⟨4, 6, [8, 9, 10, 12, 13]⟩
  let b : Assignment := ⟨16, 18, [20]⟩
  obtain ⟨hconst, hend, hbetween, ha, ha', hb, hb', hcomma, hvalue, hvalue'⟩ :
      l.kind? 2 = some .kwConst ∧ l.kind? 21 = some .semicolon ∧
      l.significantBetween 2 21 = a.positions ++ 14 :: b.positions ∧
      l.kind? 4 = some .name ∧ l.kind? 6 = some .equal ∧ l.kind? 16 = some .name ∧
      l.kind? 18 = some .equal ∧ l.kind? 14 = some .comma ∧
      l.kindsAt a.value = [.openSquare, .integer, .comma, .integer, .closeSquare] ∧
      l.kindsAt b.value = [.integer] := by
    decide +kernel
  obtain ⟨huse, hend', hbetween', hfirst, hsecond, hnames₁, hnames₂, hnames₃, hname⟩ :
      l.kind? 23 = some .kwUse ∧ l.kind? 35 = some .semicolon ∧
      l.significantBetween 23 35 = [25] ++ 26 :: ([28, 29] ++ 30 :: [32, 33, 34]) ∧
      l.kind? 26 = some .comma ∧ l.kind? 30 = some .comma ∧ l.kindsAt [25] = [.name] ∧
      l.kindsAt [28, 29] = [.nsSeparator, .name] ∧
      l.kindsAt [32, 33, 34] = [.name, .nsSeparator, .name] ∧ l.kind? 29 = some .name := by
    decide +kernel
  have hinner : Nested (fun _ => True) [.integer, .comma, .integer] :=
    .plain rfl trivial (.plain rfl trivial (.plain rfl trivial .nil))
  have hwritten : ∀ c ∈ [a, b], c.IsWritten l := by
    refine List.forall_mem_cons.2 ⟨⟨ha, ha', ?_⟩, List.forall_mem_singleton.2 ⟨hb, hb', ?_⟩⟩
    · rw [hvalue]
      exact .group .square hinner .nil
    · rw [hvalue']
      exact .plain rfl (by decide) .nil
  have hlisted : l.Listed Assignment.positions (l.significantBetween 2 21) [a, b] :=
    hbetween ▸ .cons a hcomma (.last b)
  have hdeclared :=
    (isGlobalConstant_in_declarations l (by decide) hend).1 [a, b] hconst hlisted hwritten
  have hsyntax : ∀ ps ∈ [[25], [28, 29], [32, 33, 34]], NameSyntax (l.kindsAt ps) := by
    refine List.forall_mem_cons.2 ⟨?_, List.forall_mem_cons.2 ⟨?_, List.forall_mem_singleton.2 ?_⟩⟩
    · rw [hnames₁]
      exact .path (.word rfl) (by decide)
    · rw [hnames₂]
      exact .global (.word rfl)
    · rw [hnames₃]
      exact .path (.cons rfl (.word rfl)) (by decide)
  have hlisted' : l.Listed id (l.significantBetween 23 35) [[25], [28, 29], [32, 33, 34]] :=
    hbetween' ▸ .cons [25] hfirst (.cons [28, 29] hsecond (.last [32, 33, 34]))
  have himported :=
    (isGlobalConstant_in_declarations l (by decide) hend').2 _ huse hlisted' hsyntax
  refine ⟨⟨hconst, hend, ?_, ?_⟩, huse, hend', ?_, ?_, ?_⟩
  · refine Bool.eq_false_iff.2 fun h => ?_
    obtain ⟨i, -, hi, -⟩ := (hdeclared 0 a rfl).1 h
    cases hi
  · refine (hdeclared 1 b rfl).2 ⟨0, a, rfl, rfl, ?_⟩
    rw [hvalue]
    decide
  · exact Bool.eq_false_iff.2 fun h =>
      Nat.lt_irrefl 0 ((himported 0 [25] rfl 25 (by decide)).1 h).1
  · exact (himported 1 [28, 29] rfl 29 (by decide)).2 ⟨by decide, by rw [hnames₂]; decide, hname⟩
  · refine Bool.eq_false_iff.2 fun h => ?_
    have hqualified := ((himported 2 [32, 33, 34] rfl 34 (by decide)).1 h).2.1
    rw [hnames₃] at hqualified
    exact absurd hqualified (by decide)

/-- The second name of a declaration, and that of an import, is taken for a constant. -/
theorem later_names_as_constants :
    let constants := ofText "<?php const A = 1, B = 2;"
    let imports := ofText "<?php use A, B;"
    (constants.kind? 2 = some .kwConst ∧ constants.kind? 16 = some .semicolon ∧
        constants.significantBetween 2 16 = [4, 6, 8, 9, 11, 13, 15] ∧
        constants.kindsAt [4, 6, 8, 9, 11, 13, 15] =
          [.name, .equal, .integer, .comma, .name, .equal, .integer] ∧
        constants.isGlobalConstant 11 = true) ∧
      imports.kind? 2 = some .kwUse ∧ imports.kind? 8 = some .semicolon ∧
        imports.significantBetween 2 8 = [4, 5, 7] ∧
        imports.kindsAt [4, 5, 7] = [.name, .comma, .name] ∧ imports.isGlobalConstant 7 = true := by
  decide +kernel

end Listing

end Vintage
