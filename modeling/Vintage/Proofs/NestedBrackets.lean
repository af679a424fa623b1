import Vintage.Listing.Signature
import Vintage.Proofs.LinkedBrackets

/-!
# Well-nested stretches of a listing

The three kinds of brackets are paired independently of each other, and the tokens around a stretch
may have brackets of any kind left open. If the brackets of the stretch are well nested across the
kinds, all that has no effect inside: each opening bracket has as partner the token that ends it in
the nesting.

Results:
* `Nested`: the grammar of well-nested kinds, with a condition on what stands outside of brackets.
* `Nested.pairsFrom_append`: the stack of a kind is after a well-nested stretch as it was before.
* `Listing.Spells.partner?_group`: the partner of the bracket that opens a group.
* `Listing.Spells.exists_partner`: every bracket of a well-nested stretch is closed in it.
-/

namespace Vintage

/-! ## The grammar -/

/-- The kind is one of the six brackets. -/
def TokenKind.isBracket : TokenKind → Bool
  | .openParen | .closeParen | .openSquare | .closeSquare | .openBrace | .closeBrace => true
  | _ => false

/-- The kinds are well nested across the three kinds of brackets, and all that stand outside of
brackets satisfy `p`. -/
inductive Nested : (p : TokenKind → Prop) → List TokenKind → Prop
  | nil {p : TokenKind → Prop} : Nested p []
  | plain {p : TokenKind → Prop} {k : TokenKind} {ks : List TokenKind}
      (hbracket : k.isBracket = false) (hp : p k) (h : Nested p ks) : Nested p (k :: ks)
  | group {p : TokenKind → Prop} (b : Bracket) {inner rest : List TokenKind}
      (hinner : Nested (fun _ => True) inner) (hrest : Nested p rest) :
      Nested p (b.opener :: (inner ++ b.closer :: rest))

theorem Bracket.isBracket_opener (b : Bracket) : b.opener.isBracket = true := by
  cases b <;> rfl

theorem Bracket.isBracket_closer (b : Bracket) : b.closer.isBracket = true := by
  cases b <;> rfl

theorem TokenKind.ne_of_not_bracket {k : TokenKind} (h : k.isBracket = false) (b : Bracket) :
    k ≠ b.opener ∧ k ≠ b.closer := by
  constructor
  · rintro rfl
    exact Bool.noConfusion (b.isBracket_opener.symm.trans h)
  · rintro rfl
    exact Bool.noConfusion (b.isBracket_closer.symm.trans h)

theorem TokenKind.opensGroup_iff {k : TokenKind} :
    k.opensGroup = true ↔ ∃ b : Bracket, k = b.opener := by
  constructor
  · intro h
    cases k <;> first | exact ⟨.round, rfl⟩ | exact ⟨.square, rfl⟩ | exact ⟨.curly, rfl⟩ | cases h
  · rintro ⟨b, rfl⟩
    cases b <;> rfl

theorem TokenKind.opensGroup_of_not_bracket {k : TokenKind} (h : k.isBracket = false) :
    k.opensGroup = false := by
  refine Bool.eq_false_iff.2 fun hopens => ?_
  obtain ⟨b, rfl⟩ := opensGroup_iff.1 hopens
  exact (ne_of_not_bracket h b).1 rfl

namespace Nested

theorem mono {p q : TokenKind → Prop} (hpq : ∀ k, p k → q k) {ks : List TokenKind}
    (h : Nested p ks) : Nested q ks := by
  induction h with
  | nil => exact .nil
  | plain hbracket hp _ ih => exact .plain hbracket (hpq _ hp) (ih hpq)
  | group b hinner _ _ ih => exact .group b hinner (ih hpq)

theorem append {p : TokenKind → Prop} {ks js : List TokenKind} (h : Nested p ks)
    (hjs : Nested p js) : Nested p (ks ++ js) := by
  induction h with
  | nil => exact hjs
  | plain hbracket hp _ ih => exact .plain hbracket hp (ih hjs)
  | group b hinner _ _ ih =>
    rw [List.cons_append, List.append_assoc, List.cons_append]
    exact .group b hinner (ih hjs)

/-- Brackets apart, everything satisfies the condition. -/
theorem of_forall {p : TokenKind → Prop} {ks : List TokenKind}
    (h : ∀ k ∈ ks, k.isBracket = false ∧ p k) : Nested p ks := by
  induction ks with
  | nil => exact .nil
  | cons k ks ih =>
    obtain ⟨⟨hbracket, hp⟩, hks⟩ := List.forall_mem_cons.1 h
    exact .plain hbracket hp (ih hks)

/-! ## The stack of one kind -/

/-- A well-nested stretch has its own pairs, whatever is open before it, and leaves the stack as it
was. -/
theorem pairsFrom_append {p : TokenKind → Prop} {ks : List TokenKind} (h : Nested p ks)
    (b : Bracket) {ts : List Token} (hts : ts.map Token.kind = ks) (i : Nat) (opened : List Nat)
    (rest : List Token) :
    b.pairsFrom i opened (ts ++ rest) =
      b.pairsFrom i [] ts ++ b.pairsFrom (i + ts.length) opened rest := by
  induction h generalizing ts i opened rest with
  | nil =>
    obtain rfl := List.map_eq_nil_iff.1 hts
    rfl
  | @plain p k ks hbracket _ _ ih =>
    obtain ⟨t, us, rfl, rfl, hus⟩ := List.map_eq_cons_iff.1 hts
    obtain ⟨hopener, hcloser⟩ := TokenKind.ne_of_not_bracket hbracket b
    rw [List.cons_append, Nests.pairsFrom_skip hopener hcloser,
      Nests.pairsFrom_skip hopener hcloser, ih hus, List.length_cons,
      show i + 1 + us.length = i + (us.length + 1) by omega]
  | @group p b' inner outer _ _ ihinner ihrest =>
    obtain ⟨o, us, rfl, ho, hus⟩ := List.map_eq_cons_iff.1 hts
    obtain ⟨vs, ws, rfl, hvs, hws⟩ := List.map_eq_append_iff.1 hus
    obtain ⟨c, ws, rfl, hc, hws⟩ := List.map_eq_cons_iff.1 hws
    have hlen : i + (o :: (vs ++ c :: ws)).length = i + 1 + vs.length + 1 + ws.length := by
      simp only [List.length_cons, List.length_append]
      omega
    rw [hlen, List.cons_append, List.append_assoc, List.cons_append]
    by_cases hb : b' = b
    · subst hb
      rw [Nests.pairsFrom_open ho, Nests.pairsFrom_open ho, ihinner hvs, ihinner hvs (i + 1) [i],
        Nests.pairsFrom_close hc, Nests.pairsFrom_close hc, ihrest hws, List.append_assoc,
        List.cons_append]
    · have hopener : o.kind ≠ b.opener := by
        rw [ho]
        exact fun he => hb (Bracket.opener_inj he)
      have hopener' : o.kind ≠ b.closer := by
        rw [ho]
        exact b'.opener_ne_closer b
      have hcloser : c.kind ≠ b.opener := by
        rw [hc]
        exact (b.opener_ne_closer b').symm
      have hcloser' : c.kind ≠ b.closer := by
        rw [hc]
        exact fun he => hb (Bracket.closer_inj he)
      rw [Nests.pairsFrom_skip hopener hopener', Nests.pairsFrom_skip hopener hopener', ihinner hvs,
        ihinner hvs (i + 1) [], Nests.pairsFrom_skip hcloser hcloser',
        Nests.pairsFrom_skip hcloser hcloser', ihrest hws, List.append_assoc]

end Nested

/-- The pairs that are closed before a position are found before it, and what is open there does not
depend on what follows. -/
theorem Bracket.exists_pairsFrom_append (b : Bracket) (ts : List Token) (i : Nat)
    (opened : List Nat) : ∃ closed opened',
      (∀ o ∈ opened', o ∈ opened ∨ o < i + ts.length) ∧ ∀ rest, b.pairsFrom i opened (ts ++ rest) =
        closed ++ b.pairsFrom (i + ts.length) opened' rest := by
  induction ts generalizing i opened with
  | nil => exact ⟨[], opened, fun o ho => Or.inl ho, fun rest => rfl⟩
  | cons t ts ih =>
    have hlen : i + (t :: ts).length = i + 1 + ts.length := by
      rw [List.length_cons]
      omega
    simp only [List.cons_append, pairsFrom_cons, hlen]
    split
    · obtain ⟨closed, opened', hopened, h⟩ := ih (i + 1) (i :: opened)
      refine ⟨closed, opened', fun o ho => ?_, h⟩
      rcases hopened o ho with hmem | hlt
      · exact (List.mem_cons.1 hmem).symm.imp_right fun he => by omega
      · exact Or.inr hlt
    · split
      · cases opened with
        | nil => exact ih (i + 1) []
        | cons o opened =>
          obtain ⟨closed, opened', hopened, h⟩ := ih (i + 1) opened
          exact ⟨(o, i) :: closed, opened',
            fun o' ho => (hopened o' ho).imp_left (List.mem_cons_of_mem o),
            fun rest => congrArg ((o, i) :: ·) (h rest)⟩
      · exact ih (i + 1) opened

/-- A well-nested group is a pair of its kind, wherever it stands. -/
theorem Bracket.mem_pairs_of_group (b : Bracket) {p : TokenKind → Prop} {inner : List TokenKind}
    (hinner : Nested p inner) {ts : List Token} {rest : List TokenKind} {i : Nat}
    (hts : (ts.drop i).map Token.kind = b.opener :: (inner ++ b.closer :: rest)) :
    (i, i + 1 + inner.length) ∈ b.pairs ts := by
  obtain ⟨o, us, hdrop, ho, hus⟩ := List.map_eq_cons_iff.1 hts
  obtain ⟨vs, ws, rfl, rfl, hws⟩ := List.map_eq_append_iff.1 hus
  obtain ⟨c, ws, rfl, hc, -⟩ := List.map_eq_cons_iff.1 hws
  have hi : (ts.take i).length = i := by
    refine List.length_take_of_le (Nat.le_of_lt ?_)
    refine Nat.lt_of_not_le fun hle => ?_
    rw [List.drop_eq_nil_of_le hle] at hdrop
    cases hdrop
  obtain ⟨closed, opened, -, h⟩ := b.exists_pairsFrom_append (ts.take i) 0 []
  have h := h (ts.drop i)
  rw [List.take_append_drop, hi, hdrop, Nat.zero_add, Nests.pairsFrom_open ho,
    hinner.pairsFrom_append b rfl, Nests.pairsFrom_close hc] at h
  rw [pairs, h, List.length_map]
  refine List.mem_append_right _ (List.mem_append_right _ (List.mem_cons.2 (Or.inl rfl)))

/-! ## Stretches of a listing -/

namespace Listing

theorem exists_get? {l : Listing} {i : Nat} (h : i < l.size) :
    ∃ t, l.get? i = some t ∧ l.kind? i = some t.kind := by
  obtain ⟨t, ht⟩ : ∃ t, l.get? i = some t := ⟨_, Array.getElem?_eq_getElem h⟩
  exact ⟨t, ht, by rw [kind?, ht, Option.map_some]⟩

theorem lt_size_of_kind? {l : Listing} {i : Nat} {kind : TokenKind} (h : l.kind? i = some kind) :
    i < l.size := by
  obtain ⟨t, ht, -⟩ := Option.map_eq_some_iff.1 h
  exact (Array.getElem?_eq_some_iff.1 ht).1

/-- The kinds of the tokens from position `i` on begin with `ks`. -/
def Spells (l : Listing) (i : Nat) (ks : List TokenKind) : Prop :=
  ∀ n, n < ks.length → l.kind? (i + n) = ks[n]?

section Spells

variable {l : Listing} {i : Nat}

theorem spells_nil : l.Spells i [] := fun _ h => absurd h (Nat.not_lt_zero _)

theorem spells_cons {k : TokenKind} {ks : List TokenKind} :
    l.Spells i (k :: ks) ↔ l.kind? i = some k ∧ l.Spells (i + 1) ks := by
  constructor
  · intro h
    refine ⟨h 0 (by simp), fun n hn => ?_⟩
    have := h (n + 1) (Nat.succ_lt_succ hn)
    rwa [List.getElem?_cons_succ, show i + (n + 1) = i + 1 + n by omega] at this
  · rintro ⟨hk, hks⟩ n hn
    cases n with
    | zero => exact hk
    | succ n =>
      rw [List.getElem?_cons_succ, show i + (n + 1) = i + 1 + n by omega]
      exact hks n (Nat.lt_of_succ_lt_succ hn)

theorem spells_append {ks js : List TokenKind} :
    l.Spells i (ks ++ js) ↔ l.Spells i ks ∧ l.Spells (i + ks.length) js := by
  induction ks generalizing i with
  | nil => exact ⟨fun h => ⟨spells_nil, h⟩, fun h => h.2⟩
  | cons k ks ih =>
    rw [List.cons_append, spells_cons, spells_cons, ih, and_assoc, List.length_cons,
      show i + 1 + ks.length = i + (ks.length + 1) by omega]

theorem Spells.mem {ks : List TokenKind} (h : l.Spells i ks) {j : Nat} (hij : i ≤ j)
    (hj : j < i + ks.length) : ∃ k ∈ ks, l.kind? j = some k := by
  have hlt : j - i < ks.length := by omega
  have := h (j - i) hlt
  rw [show i + (j - i) = j by omega, List.getElem?_eq_getElem hlt] at this
  exact ⟨_, List.getElem_mem hlt, this⟩

theorem spells_stretch {stop : Nat} (hstop : stop ≤ l.size) :
    l.Spells i ((l.stretch i stop).map Token.kind) ∧
      ((l.stretch i stop).map Token.kind).length = stop - i := by
  have hlength : ((l.stretch i stop).map Token.kind).length = stop - i := by
    rw [List.length_map, stretch, Array.length_toList, Array.size_extract]
    exact congrArg (· - i) (Nat.min_eq_left hstop)
  refine ⟨fun n hn => ?_, hlength⟩
  rw [hlength] at hn
  have hn' : n < min stop l.tokens.size - i := by
    rwa [show min stop l.tokens.size = stop from Nat.min_eq_left hstop]
  rw [List.getElem?_map, stretch, Array.getElem?_toList, Array.getElem?_extract, if_pos hn']
  rfl

end Spells

section Partners

variable {ts : List Token} (hts : ∀ t ∈ ts, t.Bare)
include hts

theorem partner?_ofTokens {i j : Nat} :
    (ofTokens ts).partner? i = some j ↔
      ∃ b : Bracket, (i, j) ∈ b.pairs (settleNames ts) ∨ (j, i) ∈ b.pairs (settleNames ts) := by
  have hbare := bare_settleNames hts
  rw [← partnerOf_linked fun t ht => (hbare t ht).partner, partner?,
    get?_ofTokens fun t ht => (hts t ht).scope, Option.bind_map]
  rfl

theorem kind?_ofTokens_eq (i : Nat) :
    (ofTokens ts).kind? i = (settleNames ts)[i]?.map Token.kind :=
  kind?_eq_settleNames (fun t ht => (hts t ht).scope) i

/-- The partner of an opening bracket is a later closing one. -/
theorem lt_of_partner? {b : Bracket} {i j : Nat} (hi : (ofTokens ts).kind? i = some b.opener)
    (h : (ofTokens ts).partner? i = some j) :
    i < j ∧ (ofTokens ts).kind? j = some b.closer := by
  rw [kind?_ofTokens_eq hts] at hi ⊢
  obtain ⟨b', hpair | hpair⟩ := (partner?_ofTokens hts).1 h
  · obtain ⟨hlt, hopener, hcloser⟩ := b'.kind_of_mem_pairs hpair
    rw [Bracket.opener_inj (Option.some.inj (hi.symm.trans hopener))]
    exact ⟨hlt, hcloser⟩
  · have hcloser := (b'.kind_of_mem_pairs hpair).2.2
    exact absurd (Option.some.inj (hi.symm.trans hcloser)) (b.opener_ne_closer b')

/-- The earlier one of two partners opens. -/
theorem opener_of_partner? {i j : Nat} (h : (ofTokens ts).partner? i = some j) (hlt : i < j) :
    ∃ b : Bracket, (ofTokens ts).kind? i = some b.opener := by
  rw [kind?_ofTokens_eq hts]
  obtain ⟨b, hpair | hpair⟩ := (partner?_ofTokens hts).1 h
  · exact ⟨b, (b.kind_of_mem_pairs hpair).2.1⟩
  · have hlt' := (b.kind_of_mem_pairs hpair).1
    simp only at hlt'
    omega

/-- The settled kinds from a position on. -/
theorem Spells.map_drop {i : Nat} {ks : List TokenKind} (h : (ofTokens ts).Spells i ks) :
    ∃ rest, ((settleNames ts).drop i).map Token.kind = ks ++ rest := by
  refine ⟨(((settleNames ts).drop i).drop ks.length).map Token.kind, ?_⟩
  have htake : (((settleNames ts).drop i).take ks.length).map Token.kind = ks := by
    refine List.ext_getElem? fun n => ?_
    rw [List.getElem?_map, List.getElem?_take]
    split
    · rename_i hn
      rw [← h n hn, kind?_ofTokens_eq hts, List.getElem?_drop]
    · rw [List.getElem?_eq_none (by omega), Option.map_none]
  conv => rhs; lhs; rw [← htake]
  rw [← List.map_append, List.take_append_drop]

/-- The bracket that opens a well-nested group has the one that ends it as partner. -/
theorem Spells.partner?_group {p : TokenKind → Prop} {b : Bracket} {inner rest : List TokenKind}
    {i : Nat} (h : (ofTokens ts).Spells i (b.opener :: (inner ++ b.closer :: rest)))
    (hinner : Nested p inner) : (ofTokens ts).partner? i = some (i + 1 + inner.length) := by
  obtain ⟨more, hmore⟩ := h.map_drop hts
  rw [List.cons_append, List.append_assoc, List.cons_append] at hmore
  exact (partner?_ofTokens hts).2 ⟨b, Or.inl (b.mem_pairs_of_group hinner hmore)⟩

/-- Every bracket that opens in a well-nested stretch is closed in it. -/
theorem Spells.exists_partner {p : TokenKind → Prop} {ks : List TokenKind} (hks : Nested p ks)
    {i : Nat} (h : (ofTokens ts).Spells i ks) {j : Nat} (hij : i ≤ j) (hj : j < i + ks.length)
    {b : Bracket} (hkind : (ofTokens ts).kind? j = some b.opener) :
    ∃ e, (ofTokens ts).partner? j = some e ∧ j < e ∧ e < i + ks.length := by
  induction hks generalizing i with
  | nil => exact absurd hj (by simp only [List.length_nil]; omega)
  | @plain p k ks hbracket _ _ ih =>
    obtain ⟨hk, hks⟩ := spells_cons.1 h
    rw [List.length_cons] at hj ⊢
    by_cases hji : j = i
    · subst hji
      exact absurd (Option.some.inj (hk.symm.trans hkind))
        (TokenKind.ne_of_not_bracket hbracket b).1
    · obtain ⟨e, he, hje, hlt⟩ := ih hks (by omega) (by omega)
      exact ⟨e, he, hje, by omega⟩
  | @group p b' inner rest hinner _ ihinner ihrest =>
    have hpartner := h.partner?_group hts hinner
    obtain ⟨-, hks⟩ := spells_cons.1 h
    obtain ⟨hin, hks⟩ := spells_append.1 hks
    obtain ⟨hcloser, hout⟩ := spells_cons.1 hks
    simp only [List.length_cons, List.length_append] at hj ⊢
    rcases Nat.lt_trichotomy j (i + 1 + inner.length) with hlt | rfl | hgt
    · by_cases hji : j = i
      · subst hji
        exact ⟨_, hpartner, by omega, by omega⟩
      · obtain ⟨e, he, hje, hlt⟩ := ihinner hin (by omega) hlt
        exact ⟨e, he, hje, by omega⟩
    · exact absurd (Option.some.inj (hkind.symm.trans hcloser)) (b.opener_ne_closer b')
    · obtain ⟨e, he, hje, hlt⟩ := ihrest hout (by omega) (by omega)
      exact ⟨e, he, hje, by omega⟩

end Partners

end Listing

end Vintage
