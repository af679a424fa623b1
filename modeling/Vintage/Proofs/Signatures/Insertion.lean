import Vintage.Proofs.KeywordNames
import Vintage.Proofs.Layout.Renumbering
import Vintage.Proofs.Signatures.Compact

/-!
# Tokens put into a listing

An attribute group is put in somewhere in a listing without layout, after a parenthesis or a comma.
The tokens before it stay, and those after it move on. Brackets that are closed before the group, or
opened after it, keep their partners, and so do parentheses around it. Square brackets around it do
not, since the `]` of the group closes one of them.

So a list of parameters is read as before, but for the item that the group is put into.

Results:
* `Listing.inserts_attributes`: what stays and what moves on.
* `Listing.Moves.parameter?`: items that are spelled alike declare parameters that look alike.
* `Listing.Inserts.reading_before`, `Listing.Inserts.reading_after`: the walk through the list.
-/

namespace Vintage

/-! ## Kinds around what is put in -/

/-- The kind and the text of a token. -/
def Token.spelling (t : Token) : TokenKind × String := (t.kind, t.text)

theorem map_kind_of_spelling {ts us : List Token}
    (h : us.map Token.spelling = ts.map Token.spelling) :
    us.map Token.kind = ts.map Token.kind := by
  have := congrArg (List.map Prod.fst) h
  rwa [List.map_map, List.map_map] at this

/-- The same keywords become names after the one as after the other. -/
structure Before.Alike (b c : Before) : Prop where
  selectsMember : c.selectsMember = b.selectsMember
  declares : c.declares = b.declares
  function : (c.last == some .kwFunction) = (b.last == some .kwFunction)

theorem Before.Alike.push {b c : Before} (h : b.Alike c) (kind : TokenKind) :
    (b.push kind).Alike (c.push kind) := by
  unfold Before.push
  split
  · exact h
  · refine ⟨rfl, ?_, rfl⟩
    cases kind <;> first | rfl | exact h.function

/-- After a token that neither selects a member nor declares anything. -/
theorem Before.alike_of_last {b c : Before} {k j : TokenKind} (hb : b.last = some k)
    (hc : c.last = some j) (hk : k ∈ [.openParen, .comma]) (hj : j = .closeSquare) : b.Alike c := by
  obtain ⟨last, lastButOne⟩ := b
  obtain ⟨last', lastButOne'⟩ := c
  subst hb hc hj
  rcases List.mem_pair.1 hk with rfl | rfl <;> exact ⟨rfl, rfl, rfl⟩

theorem settledAt_alike {b c : Before} (h : b.Alike c) {t u : Token} {ts us : List Token}
    (ht : u.kind = t.kind) (hts : us.map Token.kind = ts.map Token.kind) :
    settledAt c u us = settledAt b t ts := by
  have hnext : (us.find? Token.isSignificant).map Token.kind =
      (ts.find? Token.isSignificant).map Token.kind := by
    have hfind (vs : List Token) : (vs.find? Token.isSignificant).map Token.kind =
        (vs.map Token.kind).find? fun kind => !kind.isLayout := by
      rw [List.find?_map]
      rfl
    rw [hfind, hfind, hts]
  rw [settledAt, settledAt, settledKind, settledKind, ht, hnext, h.selectsMember, h.declares]

/-- What follows is spelled alike if it was spelled alike at first. -/
theorem settleFrom_alike {b c : Before} (h : b.Alike c) {ts us : List Token}
    (hts : us.map Token.spelling = ts.map Token.spelling) :
    (settleFrom c us).map Token.spelling = (settleFrom b ts).map Token.spelling := by
  induction ts generalizing us b c with
  | nil =>
    obtain rfl := List.map_eq_nil_iff.1 hts
    rfl
  | cons t ts ih =>
    obtain ⟨u, us, rfl, ht, hus⟩ := List.map_eq_cons_iff.1 hts
    obtain ⟨hkind, htext⟩ := Prod.mk.inj ht
    have hsettled := settledAt_alike h hkind (map_kind_of_spelling hus)
    rw [settleFrom_cons, settleFrom_cons, List.map_cons, List.map_cons, hsettled,
      ih (h.push _) hus]
    exact congrArg (· :: _) (Prod.ext rfl htext)

/-- Names are settled in what stands up to a token that is no keyword without regard to what
follows, and then in what follows. -/
theorem exists_settleFrom_append {ts : List Token} (hts : ∀ t ∈ ts, t.isSignificant = true)
    {last : Token} (hlast : ts.getLast? = some last)
    (hkind : (last.kind.isReserved || last.kind == .magicConstant) = false) (b : Before) :
    ∃ (us : List Token) (c : Before), us.length = ts.length ∧ c.last = some last.kind ∧
      ∀ rest, settleFrom b (ts ++ rest) = us ++ settleFrom c rest := by
  induction ts generalizing b with
  | nil => cases hlast
  | cons t ts ih =>
    cases ts with
    | nil =>
      obtain rfl : t = last := Option.some.inj hlast
      have ht : ¬ t.kind.isLayout = true := by
        simpa [Token.isSignificant] using hts t List.mem_cons_self
      refine ⟨[t], b.push t.kind, rfl, by rw [Before.push, if_neg ht], fun rest => ?_⟩
      have hsettled : settledAt b t rest = t.kind := by
        rw [settledAt, if_neg (Bool.eq_false_iff.1 hkind)]
      rw [List.singleton_append, settleFrom_cons, hsettled]
      rfl
    | cons u ts =>
      have hu : u.isSignificant = true := hts u (by simp)
      obtain ⟨us, c, hlength, hc, hrest⟩ := ih (fun v hv => hts v (List.mem_cons_of_mem t hv))
        (by rwa [List.getLast?_cons_cons] at hlast) (b.push (settledAt b t (u :: ts)))
      refine ⟨{ t with kind := settledAt b t (u :: ts) } :: us, c, congrArg (· + 1) hlength, hc,
        fun rest => ?_⟩
      have hsettled : settledAt b t (u :: ts ++ rest) = settledAt b t (u :: ts) := by
        rw [settledAt, settledAt, List.cons_append, List.find?_cons_of_pos hu,
          List.find?_cons_of_pos hu]
      rw [List.cons_append, settleFrom_cons, hsettled, hrest]
      rfl

/-! ## Brackets around what is put in -/

/-- Pairs of brackets whose opening one is not among `below` move along with what follows. -/
theorem Bracket.mem_pairsFrom_moved (b : Bracket) {ts us : List Token}
    (hts : us.map Token.kind = ts.map Token.kind) (move : Nat → Nat) {i n : Nat}
    (hmove : ∀ j, i ≤ j → move j = j + n) (opened below below' : List Nat) {x y : Nat}
    (h : (x, y) ∈ b.pairsFrom i (opened ++ below) ts) (hx : x ∉ below) :
    (move x, move y) ∈ b.pairsFrom (i + n) (opened.map move ++ below') us := by
  induction ts generalizing us i opened below below' with
  | nil => cases h
  | cons t ts ih =>
    obtain ⟨u, us, rfl, ht, hus⟩ := List.map_eq_cons_iff.1 hts
    have hih := ih hus (i := i + 1) fun j hj => hmove j (by omega)
    rw [pairsFrom_cons] at h ⊢
    rw [ht, show i + n + 1 = i + 1 + n by omega]
    split at h
    · rename_i hopen
      rw [if_pos hopen, ← hmove i (Nat.le_refl i)]
      exact hih (i :: opened) below below' h hx
    · rename_i hopen
      rw [if_neg hopen]
      split at h
      · rename_i hclose
        rw [if_pos hclose]
        cases opened with
        | cons o opened =>
          rcases List.mem_cons.1 h with he | h
          · obtain ⟨hopener, hcloser⟩ := Prod.mk.inj he
            rw [hopener, hcloser, hmove i (Nat.le_refl i)]
            exact List.mem_cons_self
          · exact List.mem_cons_of_mem _ (hih opened below below' h hx)
        | nil =>
          -- the bracket closes one of those below, whatever these are
          have hrest : (x, y) ∈ b.pairsFrom (i + 1) ([] ++ below.tail) ts := by
            cases below with
            | nil => exact h
            | cons o below =>
              rcases List.mem_cons.1 h with he | h
              · exact absurd (List.mem_cons.2 (Or.inl (Prod.mk.inj he).1)) hx
              · exact h
          have hnot : x ∉ below.tail := fun hmem => hx (List.mem_of_mem_tail hmem)
          cases below' with
          | nil => exact hih [] below.tail [] hrest hnot
          | cons o below' =>
            exact List.mem_cons_of_mem _ (hih [] below.tail below' hrest hnot)
      · rename_i hclose
        rw [if_neg hclose]
        exact hih opened below below' h hx

/-- An attribute group leaves the stack as it was, but for the one of its closing bracket. -/
theorem Bracket.exists_pairsFrom_attributes (b : Bracket) {p : TokenKind → Prop}
    {ks : List TokenKind} (hks : Nested p ks) {ts : List Token}
    (hts : ts.map Token.kind = .attributeStart :: (ks ++ [.closeSquare])) (i : Nat)
    (opened : List Nat) (rest : List Token) : ∃ inner opened', b.pairsFrom i opened (ts ++ rest) =
      inner ++ b.pairsFrom (i + ts.length) opened' rest ∧ (b ≠ .square → opened' = opened) := by
  obtain ⟨o, us, rfl, ho, hus⟩ := List.map_eq_cons_iff.1 hts
  obtain ⟨vs, ws, rfl, hvs, hws⟩ := List.map_eq_append_iff.1 hus
  obtain ⟨c, ws, rfl, hc, hws⟩ := List.map_eq_cons_iff.1 hws
  obtain rfl := List.map_eq_nil_iff.1 hws
  have hlength : i + (o :: (vs ++ [c])).length = i + 1 + vs.length + 1 := by
    simp only [List.length_cons, List.length_append, List.length_nil]
    omega
  have hskip : o.kind ≠ b.opener ∧ o.kind ≠ b.closer :=
    TokenKind.ne_of_not_bracket (by rw [ho]; rfl) b
  rw [hlength, List.cons_append, List.append_assoc, Nests.pairsFrom_skip hskip.1 hskip.2,
    hks.pairsFrom_append b hvs, List.singleton_append]
  by_cases hb : b = .square
  · subst hb
    cases opened with
    | nil => exact ⟨_, [], by rw [Nests.pairsFrom_close_nil hc], fun hne => absurd rfl hne⟩
    | cons o' opened =>
      refine ⟨Bracket.square.pairsFrom (i + 1) [] vs ++ [(o', i + 1 + vs.length)], opened, ?_,
        fun hne => absurd rfl hne⟩
      rw [Nests.pairsFrom_close hc, List.append_assoc, List.singleton_append]
  · have hopener : c.kind ≠ b.opener := by
      rw [hc]
      exact fun he => b.opener_ne_closer .square he.symm
    have hcloser : c.kind ≠ b.closer := by
      rw [hc]
      exact fun he => hb (Bracket.closer_inj he.symm)
    exact ⟨_, opened, by rw [Nests.pairsFrom_skip hopener hcloser], fun _ => rfl⟩

/-- Pairs that are closed before an attribute group stay, those that open after it move on, and
parentheses and braces around it keep together. -/
theorem Bracket.mem_pairs_attributes (b : Bracket) {us ts vs ts' : List Token}
    (hts : ts'.map Token.kind = ts.map Token.kind) {p : TokenKind → Prop} {ks : List TokenKind}
    (hks : Nested p ks) (hvs : vs.map Token.kind = .attributeStart :: (ks ++ [.closeSquare]))
    {x y : Nat} (h : (x, y) ∈ b.pairs (us ++ ts)) :
    (y < us.length → (x, y) ∈ b.pairs (us ++ (vs ++ ts'))) ∧
    (us.length ≤ x → (x + vs.length, y + vs.length) ∈ b.pairs (us ++ (vs ++ ts'))) ∧
    (b ≠ .square → x < us.length → us.length ≤ y →
      (x, y + vs.length) ∈ b.pairs (us ++ (vs ++ ts'))) := by
  obtain ⟨closed, opened, hopened, hclosed⟩ := b.exists_pairsFrom_append us 0 []
  obtain ⟨inner, opened', hinner, hsame⟩ := b.exists_pairsFrom_attributes hks hvs
    us.length opened ts'
  simp only [Nat.zero_add] at hopened hclosed
  have hbelow : ∀ o ∈ opened, o < us.length := fun o ho =>
    (hopened o ho).resolve_left List.not_mem_nil
  have hearlier : (x, y) ∈ closed → x < y ∧ y < us.length := by
    intro hmem
    have hus := hclosed []
    rw [List.append_nil, pairsFrom, List.append_nil] at hus
    obtain ⟨hlt, -, hy⟩ := b.kind_of_mem_pairs (show (x, y) ∈ b.pairs us by rwa [pairs, hus])
    obtain ⟨t, ht, -⟩ := Option.map_eq_some_iff.1 hy
    exact ⟨hlt, (List.getElem?_eq_some_iff.1 ht).1⟩
  have hlater : (x, y) ∈ b.pairsFrom us.length opened ts → us.length ≤ y := fun hmem =>
    (b.mem_pairsFrom hmem).1
  rw [pairs, hclosed, List.mem_append] at h
  rw [pairs, hclosed, hinner]
  refine ⟨fun hy => ?_, fun hx => ?_, fun hb hx hy => ?_⟩
  · have hmem := h.resolve_right fun hmem => by
      have := hlater hmem
      omega
    exact List.mem_append_left _ hmem
  · have hmem := h.resolve_left fun hmem => by
      have := hearlier hmem
      omega
    have hnot : x ∉ opened := fun ho => by
      have := hbelow x ho
      omega
    exact List.mem_append_right _ (List.mem_append_right _
      (b.mem_pairsFrom_moved hts (· + vs.length) (fun _ _ => rfl) [] opened opened' hmem hnot))
  · have hmem := h.resolve_left fun hmem => by
      have := hearlier hmem
      omega
    -- what is open before the group stays where it is
    have hstay : opened.map (fun j => if j < us.length then j else j + vs.length) = opened :=
      (List.map_congr_left fun o ho => if_pos (hbelow o ho)).trans (List.map_id' opened)
    have hmoved := b.mem_pairsFrom_moved hts (fun j => if j < us.length then j else j + vs.length)
      (fun j hj => if_neg (Nat.not_lt.2 hj)) opened [] [] (by rwa [List.append_nil])
      List.not_mem_nil
    rw [hstay, List.append_nil, if_pos hx, if_neg (Nat.not_lt.2 hy)] at hmoved
    rw [hsame hb]
    exact List.mem_append_right _ (List.mem_append_right _ hmoved)

/-! ## Listings -/

namespace Listing

/-- The listings have no layout, and the second one is the first one with `n` tokens put in at
position `q`. Brackets around them keep their partners as far as they are closed before them, open
after them, or are parentheses. -/
structure Inserts (l l' : Listing) (q n : Nat) : Prop where
  compact : l.Compact
  compact' : l'.Compact
  size : l'.size = l.size + n
  before : ∀ i, i < q → (l'.get? i).map Token.spelling = (l.get? i).map Token.spelling
  after : ∀ i, q ≤ i → (l'.get? (i + n)).map Token.spelling = (l.get? i).map Token.spelling
  closed : ∀ i p, l.partner? i = some p → i ≤ p → p < q → l'.partner? i = some p
  opened : ∀ i p, l.partner? i = some p → i ≤ p → q ≤ i → l'.partner? (i + n) = some (p + n)
  parens : ∀ i p, l.kind? i = some .openParen → l.partner? i = some p → i < q → q ≤ p →
    l'.partner? i = some (p + n)

theorem map_spelling_get? {ts : List Token} (hts : ∀ t ∈ ts, t.Bare) (i : Nat) :
    ((ofTokens ts).get? i).map Token.spelling = (settleNames ts)[i]?.map Token.spelling := by
  rw [get?_ofTokens fun t ht => (hts t ht).scope, linked, ownParens_getElem?,
    linkBrackets_getElem?, List.getElem?_toArray, Option.map_map, Option.map_map, Option.map_map]
  rfl

theorem map_text_get? {ts : List Token} (hts : ∀ t ∈ ts, t.Bare) (i : Nat) :
    ((ofTokens ts).get? i).map Token.text = ts[i]?.map Token.text := by
  have hspelling := congrArg (Option.map Prod.snd) (map_spelling_get? hts i)
  rw [Option.map_map, Option.map_map,
    getElem?_settleNames (kind?_eq_settleNames fun t ht => (hts t ht).scope), Option.map_map]
    at hspelling
  exact hspelling

theorem kind_of_settledAt {b : Before} {t : Token} {ts : List Token} {kind : TokenKind}
    (h : settledAt b t ts = kind) (hkind : kind ≠ .name) : t.kind = kind := by
  refine Classical.byContradiction fun hne => ?_
  have hchanged : settledAt b t ts ≠ t.kind := fun he => hne (he.symm.trans h)
  exact hkind (h.symm.trans (settledAt_changed hchanged).2)

theorem compact_ofTokens {ts : List Token} (hbare : ∀ t ∈ ts, t.Bare)
    (hsig : ∀ t ∈ ts, t.isSignificant = true) : (ofTokens ts).Compact := by
  have hembeds := embeds_withStructure hbare
  rw [List.filter_eq_self.2 hsig] at hembeds
  exact hembeds.significant

section OfTokens

variable {ts post group post' : List Token}

/-- An attribute group that is put in after a parenthesis or a comma. -/
theorem inserts_attributes (hbare : ∀ t ∈ ts ++ post, t.Bare)
    (hbare' : ∀ t ∈ ts ++ (group ++ post'), t.Bare)
    (hsig : ∀ t ∈ ts ++ post, t.isSignificant = true)
    (hsig' : ∀ t ∈ ts ++ (group ++ post'), t.isSignificant = true)
    (hpost : post'.map Token.spelling = post.map Token.spelling) {last : Token}
    (hlast : ts.getLast? = some last) (hkind : last.kind ∈ [.openParen, .comma])
    {p : TokenKind → Prop} {ks : List TokenKind} (hks : Nested p ks)
    (hgroup : (ofTokens (ts ++ (group ++ post'))).Spells ts.length
      (.attributeStart :: (ks ++ [.closeSquare])))
    (hlength : group.length = ks.length + 2) :
    (ofTokens (ts ++ post)).Inserts (ofTokens (ts ++ (group ++ post'))) ts.length group.length := by
  -- the last token of the group is no keyword
  obtain ⟨closer, hcloser, hclose⟩ : ∃ closer, group.getLast? = some closer ∧
      closer.kind = .closeSquare := by
    have hlt : group.length - 1 < group.length := by omega
    have hkind := hgroup (group.length - 1) (by simp; omega)
    rw [kind?_ofTokens fun t ht => (hbare' t ht).scope, List.getElem?_append_right (by omega),
      Nat.add_sub_cancel_left, List.getElem?_append_left hlt, List.getElem?_eq_getElem hlt,
      Option.map_some, List.getElem?_cons, if_neg (by omega), List.getElem?_append_right (by omega),
      show group.length - 1 - 1 - ks.length = 0 by omega, List.getElem?_cons_zero,
      Option.some.injEq] at hkind
    refine ⟨_, ?_, kind_of_settledAt hkind (by decide)⟩
    rw [List.getLast?_eq_getElem?, List.getElem?_eq_getElem hlt]
  obtain ⟨us, b, hus, hb, hsettle⟩ := exists_settleFrom_append
    (fun t ht => hsig t (List.mem_append_left _ ht)) hlast
    (by revert hkind; cases last.kind <;> decide) {}
  obtain ⟨vs, c, hvs, hc, hsettle'⟩ := exists_settleFrom_append
    (fun t ht => hsig' t (List.mem_append_right _ (List.mem_append_left _ ht))) hcloser
    (by rw [hclose]; rfl) b
  have halike : b.Alike c := Before.alike_of_last hb hc hkind hclose
  have hrest := settleFrom_alike halike hpost
  have hold : settleNames (ts ++ post) = us ++ settleFrom b post := hsettle post
  have hnew : settleNames (ts ++ (group ++ post')) = us ++ (vs ++ settleFrom c post') := by
    rw [settleNames, hsettle, hsettle']
  have hkinds : vs.map Token.kind = .attributeStart :: (ks ++ [.closeSquare]) := by
    obtain ⟨rest, hrest⟩ := hgroup.map_drop hbare'
    rw [hnew, ← hus, List.drop_left, List.map_append] at hrest
    refine (List.append_inj hrest ?_).1
    rw [List.length_map, hvs, hlength, List.length_cons, List.length_append, List.length_singleton]
  have hpairs (b : Bracket) {x y : Nat} (h : (x, y) ∈ b.pairs (settleNames (ts ++ post))) :=
    b.mem_pairs_attributes (map_kind_of_spelling hrest) hks hkinds (hold ▸ h)
  rw [hus, hvs, ← hnew] at hpairs
  have hpartner {i p : Nat} (h : (ofTokens (ts ++ post)).partner? i = some p) (hle : i ≤ p) :
      ∃ b : Bracket, (i, p) ∈ b.pairs (settleNames (ts ++ post)) := by
    obtain ⟨b, hmem | hmem⟩ := (partner?_ofTokens hbare).1 h
    · exact ⟨b, hmem⟩
    · have := (b.kind_of_mem_pairs hmem).1
      simp only at this
      omega
  have hlinked {b : Bracket} {i p : Nat}
      (h : (i, p) ∈ b.pairs (settleNames (ts ++ (group ++ post')))) :=
    (partner?_ofTokens hbare').2 ⟨b, Or.inl h⟩
  refine ⟨compact_ofTokens hbare hsig, compact_ofTokens hbare' hsig', ?_, fun i hi => ?_,
    fun i hi => ?_, fun i p h hle hp => ?_, fun i p h hle hi => ?_, fun i p hkind h hi hp => ?_⟩
  · have hequal := congrArg List.length hpost
    rw [List.length_map, List.length_map] at hequal
    rw [size, size, size_withStructure fun t ht => (hbare t ht).scope,
      size_withStructure fun t ht => (hbare' t ht).scope]
    simp only [List.length_append]
    omega
  · rw [map_spelling_get? hbare, map_spelling_get? hbare', hold, hnew,
      List.getElem?_append_left (by omega), List.getElem?_append_left (by omega)]
  · have hspelling := congrArg (·[i - ts.length]?) hrest
    simp only [List.getElem?_map] at hspelling
    rw [map_spelling_get? hbare, map_spelling_get? hbare', hold, hnew,
      List.getElem?_append_right (by omega), List.getElem?_append_right (by omega),
      List.getElem?_append_right (by omega), hus, hvs,
      show i + group.length - ts.length - group.length = i - ts.length by omega, hspelling]
  · obtain ⟨b, hmem⟩ := hpartner h hle
    exact hlinked ((hpairs b hmem).1 hp)
  · obtain ⟨b, hmem⟩ := hpartner h hle
    exact hlinked ((hpairs b hmem).2.1 hi)
  · obtain ⟨b, hmem⟩ := hpartner h (by omega)
    refine hlinked ((hpairs b hmem).2.2 ?_ hi hp)
    rintro rfl
    have hopener := (Bracket.square.kind_of_mem_pairs hmem).2.1
    rw [← kind?_ofTokens_eq hbare, hkind] at hopener
    cases hopener

end OfTokens

end Listing

/-! ## What is read of a parameter -/

/-- The name of a parameter, whether it is a reference, and the text of its type. -/
def Parameter.shape (p : Parameter) : String × Bool × Option String :=
  (p.name, p.byReference, p.type.map TypeHint.text)

namespace Listing

/-- The text of the type between two tokens. -/
def typeText? (l : Listing) (ends : Option (Nat × Nat)) : Option String :=
  (ends.bind fun (first, last) => l.typeHint? first (last + 1)).map TypeHint.text

section Shapes

variable {l : Listing} {start stop : Nat}

theorem Compact.typeText?_some (hl : l.Compact) {e : Nat × Nat} (hle : e.1 ≤ e.2)
    (hsize : e.2 < l.size) :
    l.typeText? (some e) = some (l.textAt (List.range' e.1 (e.2 + 1 - e.1))) := by
  obtain ⟨first, last⟩ := e
  obtain ⟨n, rfl⟩ : ∃ n, last = first + n := ⟨last - first, by simp only at hle; omega⟩
  rw [typeText?, Option.bind_some]
  simp only
  rw [hl.typeHint? hsize, Listing.hintOf?, endsOf?_range',
    show first + n + 1 - first = n + 1 by omega]
  rfl

theorem parameter?_eq_none
    (h : l.firstIn? (fun t => t.kind == .variableName) start stop = none) :
    l.parameter? (l.item start stop) = some none := by
  rw [parameter?, item]
  simp only [h]

/-- What is read of a parameter is what is read before its variable. -/
theorem map_shape_parameter? {v : Nat}
    (h : l.firstIn? (fun t => t.kind == .variableName) start stop = some v) :
    (l.parameter? (l.item start stop)).map (Option.map Parameter.shape) =
      (l.headFrom? (v - start) start 0 {}).map fun head =>
        some (((l.get? v).map Token.text).getD "", head.byReference, l.typeText? head.type) := by
  rw [parameter?, item]
  simp only [h, Option.map_map]
  rfl

end Shapes

/-! ## Items before and after -/

/-- The tokens from position `i` up to position `stop` are spelled in the second listing as in the
first one, `d` positions further on. -/
def Moves (l l' : Listing) (d i stop : Nat) : Prop :=
  ∀ j, i ≤ j → j < stop → (l'.get? (j + d)).map Token.spelling = (l.get? j).map Token.spelling

section Moves

variable {l l' : Listing} {d i stop : Nat}

theorem Moves.kind? (h : l.Moves l' d i stop) {j : Nat} (hlow : i ≤ j) (hhigh : j < stop) :
    l'.kind? (j + d) = l.kind? j := by
  have := congrArg (Option.map Prod.fst) (h j hlow hhigh)
  rwa [Option.map_map, Option.map_map] at this

theorem Moves.text (h : l.Moves l' d i stop) {j : Nat} (hlow : i ≤ j) (hhigh : j < stop) :
    (l'.get? (j + d)).map Token.text = (l.get? j).map Token.text := by
  have := congrArg (Option.map Prod.snd) (h j hlow hhigh)
  rwa [Option.map_map, Option.map_map] at this

theorem Moves.mono (h : l.Moves l' d i stop) {i' stop' : Nat} (hi : i ≤ i') (hstop : stop' ≤ stop) :
    l.Moves l' d i' stop' := fun j hlow hhigh => h j (by omega) (by omega)

theorem Moves.firstAmong? {n : Nat} (h : l.Moves l' d i (i + n)) (kind : TokenKind) :
    l'.firstAmong? (fun t => t.kind == kind) n (i + d) =
      (l.firstAmong? (fun t => t.kind == kind) n i).map (· + d) := by
  induction n generalizing i with
  | zero => rfl
  | succ n ih =>
    rw [Listing.firstAmong?, Listing.firstAmong?, any_kind_beq, any_kind_beq,
      h.kind? (Nat.le_refl i) (by omega), show i + d + 1 = i + 1 + d by omega,
      ih (h.mono (by omega) (by omega))]
    split <;> rfl

theorem Moves.firstIn? (h : l.Moves l' d i stop) (hstop : stop ≤ l.size)
    (hstop' : stop + d ≤ l'.size) (kind : TokenKind) :
    l'.firstIn? (fun t => t.kind == kind) (i + d) (stop + d) =
      (l.firstIn? (fun t => t.kind == kind) i stop).map (· + d) := by
  rw [Listing.firstIn?, Listing.firstIn?, Nat.min_eq_left hstop, Nat.min_eq_left hstop',
    show stop + d - (i + d) = stop - i by omega]
  by_cases hi : i ≤ stop
  · exact Moves.firstAmong? (h.mono (Nat.le_refl i) (by omega)) kind
  · rw [show stop - i = 0 by omega]
    rfl

theorem Moves.textAt {n : Nat} (h : l.Moves l' d i (i + n)) :
    l'.textAt (List.range' (i + d) n) = l.textAt (List.range' i n) := by
  rw [Listing.textAt, Listing.textAt]
  congr 1
  induction n generalizing i with
  | zero => rfl
  | succ n ih =>
    have hrest := ih (h.mono (Nat.le_succ i) (by omega))
    rw [List.range'_succ, List.range'_succ, show i + d + 1 = i + 1 + d by omega,
      List.filterMap_cons, List.filterMap_cons, h.text (Nat.le_refl i) (by omega), hrest]

theorem headFrom?_resume {n i resume : Nat} (h : resume ≤ i) (head : ParameterHead) :
    l.headFrom? n i resume head = l.headFrom? n i 0 head := by
  induction n generalizing i head with
  | zero => rfl
  | succ n ih =>
    have hih := ih (i := i + 1) (by omega)
    rw [Listing.headFrom?, Listing.headFrom?, if_neg (by omega), if_neg (Nat.not_lt_zero i)]
    simp only [hih]

/-- The type lies among the tokens that are read. -/
theorem headFrom?_ends {n i resume low : Nat} {head head' : ParameterHead}
    (h : l.headFrom? n i resume head = some head')
    (hhead : ∀ e ∈ head.type, low ≤ e.1 ∧ e.1 ≤ e.2 ∧ e.2 < i) (hlow : low ≤ i) :
    ∀ e ∈ head'.type, low ≤ e.1 ∧ e.1 ≤ e.2 ∧ e.2 < i + n := by
  induction n generalizing i resume head with
  | zero =>
    cases h
    exact hhead
  | succ n ih =>
    have hnext : ∀ e ∈ head.type, low ≤ e.1 ∧ e.1 ≤ e.2 ∧ e.2 < i + 1 := fun e he => by
      have := hhead e he
      omega
    have hadd : ∀ e ∈ (head.addType i).type, low ≤ e.1 ∧ e.1 ≤ e.2 ∧ e.2 < i + 1 := by
      intro e he
      obtain rfl : ((head.type.map (·.1)).getD i, i) = e := Option.some.inj he
      cases htype : head.type with
      | none => exact ⟨hlow, Nat.le_refl i, Nat.lt_succ_self i⟩
      | some ends =>
        obtain ⟨hfirst, hle, hlast⟩ := hhead ends htype
        exact ⟨hfirst, Nat.le_of_lt (Nat.lt_of_le_of_lt hle hlast), Nat.lt_succ_self i⟩
    rw [show i + (n + 1) = i + 1 + n by omega]
    rw [Listing.headFrom?] at h
    split at h
    · exact ih h hnext (by omega)
    · split at h
      · cases h
      · split at h
        · split at h
          · exact ih h hnext (by omega)
          · cases h
        · split at h
          · refine ih h ?_ (by omega)
            split
            · exact hnext
            · exact hadd
          · split at h
            · exact ih h hadd (by omega)
            · exact ih h hnext (by omega)

/-- The same is read before a variable. -/
theorem Moves.headFrom? (hl : l.Compact) (hl' : l'.Compact) {n : Nat}
    (h : l.Moves l' d i (i + n + 1)) (hsize : i + n < l.size) (hsize' : i + n + d < l'.size)
    (resume : Nat) (head : ParameterHead) :
    l'.headFrom? n (i + d) (resume + d) (Thins.moveHead (· + d) head) =
      (l.headFrom? n i resume head).map (Thins.moveHead (· + d)) := by
  induction n generalizing i resume head with
  | zero => rfl
  | succ n ih =>
    have hih := ih (h.mono (Nat.le_succ i) (by omega)) (by omega) (by omega)
    rw [show i + 1 + d = i + d + 1 by omega] at hih
    obtain ⟨t, ht, hkind⟩ := exists_get? (l := l) (i := i) (by omega)
    obtain ⟨t', ht', hkind'⟩ := exists_get? (l := l') (i := i + d) (by omega)
    have hsame : t'.kind = t.kind := by
      have := h.kind? (Nat.le_refl i) (by omega)
      rwa [hkind, hkind', Option.some.injEq] at this
    have hfirst := Moves.firstIn? (h.mono (Nat.le_refl i) (show i + 1 + n ≤ _ by omega))
      (by omega) (by omega) .closeSquare
    rw [show i + 1 + n + d = i + d + 1 + n by omega] at hfirst
    have hmark : l'.marksReference (i + d) = l.marksReference i := by
      rw [hl.marksReference, hl'.marksReference, show i + d + 1 = i + 1 + d by omega,
        h.kind? (Nat.le_succ i) (by omega)]
    have hadd : (Thins.moveHead (· + d) head).addType (i + d) =
        Thins.moveHead (· + d) (head.addType i) := Thins.addType_moveHead head i
    rw [Listing.headFrom?, Listing.headFrom?, ht, ht']
    simp only [Nat.add_lt_add_iff_right, hsame, hmark, hfirst, hadd]
    split
    · exact hih resume head
    · split
      · cases l.firstIn? (fun u => u.kind == .closeSquare) i (i + 1 + n) with
        | none => rfl
        | some closer =>
          have := hih (closer + 1) head
          rwa [show closer + 1 + d = closer + d + 1 by omega] at this
      · split
        · split
          · exact hih resume { head with byReference := true }
          · exact hih resume (head.addType i)
        · split
          · exact hih resume (head.addType i)
          · exact hih resume head

theorem Moves.headFrom?_start (hl : l.Compact) (hl' : l'.Compact) {v : Nat}
    (h : l.Moves l' d i (v + 1)) (hi : i ≤ v) (hv : v < l.size) (hv' : v + d < l'.size) :
    l'.headFrom? (v - i) (i + d) 0 {} =
      (l.headFrom? (v - i) i 0 {}).map (Thins.moveHead (· + d)) := by
  have hread := Moves.headFrom? hl hl' (n := v - i) (h.mono (Nat.le_refl i) (by omega))
    (by omega) (by omega) 0 {}
  rwa [headFrom?_resume (by omega)] at hread

/-- The text of a type is the same. -/
theorem Moves.typeText? (hl : l.Compact) (hl' : l'.Compact) (h : l.Moves l' d i stop)
    (hstop : stop ≤ l.size) (hstop' : stop + d ≤ l'.size) {ends : Option (Nat × Nat)}
    (hends : ∀ e ∈ ends, i ≤ e.1 ∧ e.1 ≤ e.2 ∧ e.2 < stop) :
    l'.typeText? (ends.map (Prod.map (· + d) (· + d))) = l.typeText? ends := by
  cases ends with
  | none => rfl
  | some e =>
    obtain ⟨hlow, hle, hhigh⟩ := hends e rfl
    rw [hl.typeText?_some hle (by omega), Option.map_some, Prod.map,
      hl'.typeText?_some (by simp only; omega) (by simp only; omega)]
    simp only
    rw [show e.2 + d + 1 - (e.1 + d) = e.2 + 1 - e.1 by omega]
    exact congrArg some (Moves.textAt (h.mono hlow (by omega)))

/-- The same is read of a parameter. -/
theorem Moves.parameter? (hl : l.Compact) (hl' : l'.Compact) (h : l.Moves l' d i stop)
    (hstop : stop ≤ l.size) (hstop' : stop + d ≤ l'.size) :
    (l'.parameter? (l'.item (i + d) (stop + d))).map (Option.map Parameter.shape) =
      (l.parameter? (l.item i stop)).map (Option.map Parameter.shape) := by
  have hfirst := h.firstIn? hstop hstop' .variableName
  cases hvariable : l.firstIn? (fun t => t.kind == .variableName) i stop with
  | none =>
    rw [hvariable] at hfirst
    rw [parameter?_eq_none hvariable, parameter?_eq_none hfirst]
  | some v =>
    rw [hvariable] at hfirst
    obtain ⟨hlow, hhigh, -⟩ := firstIn?_eq_some hvariable
    have hread := Moves.headFrom?_start hl hl' (h.mono (Nat.le_refl i) hhigh) hlow (by omega)
      (by omega)
    rw [map_shape_parameter? hvariable, map_shape_parameter? hfirst,
      show v + d - (i + d) = v - i by omega, hread, Option.map_map]
    cases hhead : l.headFrom? (v - i) i 0 {} with
    | none => rfl
    | some head =>
      have htype := h.typeText? hl hl' hstop hstop' fun e he => by
        have := headFrom?_ends hhead nofun (Nat.le_refl i) e he
        omega
      simp only [Option.map_some, Function.comp_apply, h.text hlow hhigh, Thins.moveHead, htype]

end Moves

/-- What is read of the parameters that the items declare. -/
def shapes? (l : Listing) (items : List Item) : Option (List (String × Bool × Option String)) :=
  (l.parametersOf? items).map (List.map Parameter.shape)

theorem shapes?_cons (l : Listing) (item : Item) (items : List Item) :
    l.shapes? (item :: items) = ((l.parameter? item).map (Option.map Parameter.shape)).bind fun s =>
      (l.shapes? items).map (s.toList ++ ·) := by
  rw [shapes?, parametersOf?, shapes?]
  cases l.parameter? item with
  | none => rfl
  | some p =>
    cases l.parametersOf? items with
    | none => rfl
    | some ps => cases p <;> rfl

section Reading

variable {l : Listing} {stop i start : Nat} {read : Option (List Item)}

/-- The first item starts where the item at hand does. -/
theorem Reading.exists_head (h : l.Reading stop i start read) {items : List Item}
    (hsome : read = some items) (hi : i ≤ stop) :
    ∃ e rest, items = l.item start e :: rest ∧ i ≤ e ∧ e ≤ stop := by
  induction h generalizing items with
  | done => exact ⟨_, [], (Option.some.inj hsome).symm, Nat.le_refl _, Nat.le_refl _⟩
  | unclosed => cases hsome
  | comma _ h =>
    obtain ⟨rest, -, rfl⟩ := Option.map_eq_some_iff.1 hsome
    exact ⟨_, rest, rfl, Nat.le_refl _, Nat.le_of_lt h⟩
  | pass _ _ _ hforward _ ih =>
    obtain ⟨e, rest, hitems, hlow, hhigh⟩ := ih hsome (Nat.min_le_right _ _)
    exact ⟨e, rest, hitems, by omega, hhigh⟩

/-- All other items start later. -/
theorem Reading.start_of_mem (h : l.Reading stop i start read) {items : List Item}
    (hsome : read = some items) {item : Item} (hmem : item ∈ items) :
    item.start = start ∨ i < item.start := by
  induction h generalizing items with
  | done =>
    cases hsome
    exact Or.inl (List.mem_singleton.1 hmem ▸ rfl)
  | unclosed => cases hsome
  | comma =>
    rename_i ih
    obtain ⟨rest, hrest, rfl⟩ := Option.map_eq_some_iff.1 hsome
    rcases List.mem_cons.1 hmem with rfl | hmem
    · exact Or.inl rfl
    · have := ih hrest hmem
      omega
  | pass h _ _ hforward _ ih =>
    have := ih hsome hmem
    omega

theorem Reading.unique (h : l.Reading stop i start read) {read' : Option (List Item)}
    (h' : l.Reading stop i start read') : read = read' := by
  induction h generalizing read' with
  | done =>
    cases h' with
    | done => rfl
    | unclosed _ h => exact absurd h (Nat.lt_irrefl _)
    | comma _ h => exact absurd h (Nat.lt_irrefl _)
    | pass h => exact absurd h (Nat.lt_irrefl _)
  | unclosed _ h hnone =>
    cases h' with
    | done => exact absurd h (Nat.lt_irrefl _)
    | unclosed => rfl
    | comma _ _ hcomma => cases hnone.symm.trans (following?_comma hcomma)
    | pass _ _ hk => cases hnone.symm.trans hk
  | comma _ h hcomma _ ih =>
    cases h' with
    | done => exact absurd h (Nat.lt_irrefl _)
    | unclosed _ _ hnone => cases hnone.symm.trans (following?_comma hcomma)
    | comma _ _ _ hread => rw [ih hread]
    | pass _ hne => exact absurd hcomma hne
  | pass h hne hk _ _ ih =>
    cases h' with
    | done => exact absurd h (Nat.lt_irrefl _)
    | unclosed _ _ hnone => cases hnone.symm.trans hk
    | comma _ _ hcomma => exact absurd hcomma hne
    | pass _ _ hk' _ hread =>
      obtain rfl := Option.some.inj (hk.symm.trans hk')
      exact ih hread

end Reading

namespace Inserts

variable {l l' : Listing} {q n : Nat}

theorem moves_before (h : l.Inserts l' q n) (i : Nat) {stop : Nat} (hstop : stop ≤ q) :
    l.Moves l' 0 i stop := fun j _ hj => h.before j (by omega)

theorem moves_after (h : l.Inserts l' q n) {i : Nat} (hi : q ≤ i) (stop : Nat) :
    l.Moves l' n i stop := fun j hj _ => h.after j (by omega)

theorem kind?_before (h : l.Inserts l' q n) {i : Nat} (hi : i < q) : l'.kind? i = l.kind? i :=
  (h.moves_before i (Nat.le_refl q)).kind? (Nat.le_refl i) hi

theorem kind?_after (h : l.Inserts l' q n) {i : Nat} (hi : q ≤ i) :
    l'.kind? (i + n) = l.kind? i :=
  (h.moves_after hi (i + 1)).kind? (Nat.le_refl i) (Nat.lt_succ_self i)

theorem following?_before (h : l.Inserts l' q n) {i k : Nat} (hi : i < k)
    (hk : l.following? i = some k) (hkq : k ≤ q) : l'.following? i = some k := by
  rw [following?, h.kind?_before (Nat.lt_of_lt_of_le hi hkq)]
  rw [following?] at hk
  split at hk
  · rename_i hopens
    obtain ⟨p, hp, rfl⟩ := Option.map_eq_some_iff.1 hk
    rw [if_pos hopens, h.closed i p hp (Nat.le_of_lt_succ hi) hkq]
    rfl
  · rename_i hopens
    rw [if_neg hopens]
    exact hk

theorem following?_after (h : l.Inserts l' q n) {i k : Nat} (hi : i < k)
    (hk : l.following? i = some k) (hq : q ≤ i) : l'.following? (i + n) = some (k + n) := by
  rw [following?, h.kind?_after hq]
  rw [following?] at hk
  split at hk
  · rename_i hopens
    obtain ⟨p, hp, rfl⟩ := Option.map_eq_some_iff.1 hk
    rw [if_pos hopens, h.opened i p hp (Nat.le_of_lt_succ hi) hq, Option.map_some,
      show p + n + 1 = p + 1 + n by omega]
  · rename_i hopens
    rw [if_neg hopens, ← Option.some.inj hk, show i + n + 1 = i + 1 + n by omega]

/-- After what is put in, the walk goes on as it did before; the item at hand may start anywhere. -/
theorem reading_after (h : l.Inserts l' q n) {stop i start : Nat} {read : Option (List Item)}
    (hread : l.Reading stop i start read) {e : Nat} {rest : List Item}
    (hsome : read = some (l.item start e :: rest)) (hi : q ≤ i) (hstop : stop ≤ l.size)
    (start' : Nat) : ∃ rest', l'.shapes? rest' = l.shapes? rest ∧
      l'.Reading (stop + n) (i + n) start' (some (l'.item start' (e + n) :: rest')) := by
  induction hread generalizing e rest start' with
  | done =>
    obtain ⟨he, rfl⟩ := List.cons.inj (Option.some.inj hsome)
    obtain rfl : stop = e := congrArg Item.stop he
    exact ⟨[], rfl, .done start'⟩
  | unclosed => cases hsome
  | @comma i start read hlt hcomma hread ih =>
    obtain ⟨items, rfl, hitems⟩ := Option.map_eq_some_iff.1 hsome
    obtain ⟨he, rfl⟩ := List.cons.inj hitems
    obtain rfl : i = e := congrArg Item.stop he
    obtain ⟨e, rest, rfl, hlow, hhigh⟩ := hread.exists_head rfl hlt
    obtain ⟨rest', hshapes, hread'⟩ := ih rfl (by omega) (i + 1 + n)
    have hparameter := Moves.parameter? h.compact h.compact'
      (h.moves_after (i := i + 1) (by omega) e) (by omega) (by have := h.size; omega)
    refine ⟨l'.item (i + 1 + n) (e + n) :: rest', ?_, ?_⟩
    · rw [shapes?_cons, shapes?_cons, hparameter, hshapes]
    · have hlt' : i + n < stop + n := by omega
      rw [show i + 1 + n = i + n + 1 by omega] at hread' ⊢
      exact .comma start' hlt' ((h.kind?_after hi).trans hcomma) hread'
  | @pass i start k read hlt hne hk hforward hread ih =>
    obtain ⟨rest', hshapes, hread'⟩ := ih hsome (by omega) start'
    refine ⟨rest', hshapes, .pass (by omega) ?_ (h.following?_after hforward hk hi) (by omega) ?_⟩
    · rwa [h.kind?_after hi]
    · rwa [show min (k + n) (stop + n) = min k stop + n by omega]

/-- Before what is put in, the walk is the same up to the item that starts there. -/
theorem reading_before (h : l.Inserts l' q n) {stop i start : Nat} {read : Option (List Item)}
    (hread : l.Reading stop i start read) {items : List Item} (hsome : read = some items)
    (hitem : ∃ item ∈ items, item.start = q) (hstart : start ≤ i) (hi : i < q) (hqstop : q ≤ stop)
    (hstop : stop ≤ l.size) : ∃ xs ys, items = xs ++ ys ∧ l.Reading stop q q (some ys) ∧
      ∀ zs, l'.Reading (stop + n) q q (some zs) → ∃ xs', l'.shapes? xs' = l.shapes? xs ∧
        l'.Reading (stop + n) i start (some (xs' ++ zs)) := by
  obtain ⟨item, hmem, hq⟩ := hitem
  induction hread generalizing items with
  | done =>
    cases hsome
    rw [List.mem_singleton.1 hmem] at hq
    simp only [Listing.item] at hq
    omega
  | unclosed => cases hsome
  | @comma i start read hlt hcomma hread ih =>
    obtain ⟨rest, rfl, rfl⟩ := Option.map_eq_some_iff.1 hsome
    have hmem : item ∈ rest := by
      rcases List.mem_cons.1 hmem with rfl | hmem
      · simp only [Listing.item] at hq
        omega
      · exact hmem
    have hcomma' := (h.kind?_before hi).trans hcomma
    have hparameter := Moves.parameter? h.compact h.compact'
      (h.moves_before start (Nat.le_of_lt hi)) (by omega) (by have := h.size; omega)
    rw [Nat.add_zero, Nat.add_zero] at hparameter
    rcases Nat.eq_or_lt_of_le (Nat.succ_le_of_lt hi) with rfl | hlt'
    · refine ⟨[l.item start i], rest, rfl, hread, fun zs hzs => ⟨[l'.item start i], ?_, ?_⟩⟩
      · rw [shapes?_cons, shapes?_cons, hparameter]
        rfl
      · exact .comma start (by omega) hcomma' hzs
    · obtain ⟨xs, ys, rfl, hys, hgo⟩ := ih rfl (Nat.le_refl _) hlt' hmem
      refine ⟨l.item start i :: xs, ys, rfl, hys, fun zs hzs => ?_⟩
      obtain ⟨xs', hshapes, hread'⟩ := hgo zs hzs
      refine ⟨l'.item start i :: xs', ?_, .comma start (by omega) hcomma' hread'⟩
      rw [shapes?_cons, shapes?_cons, hparameter, hshapes]
  | @pass i start k read hlt hne hk hforward hread ih =>
    have hmin : min k stop < q := by
      refine Nat.lt_of_not_le fun hle => ?_
      have := hread.start_of_mem hsome hmem
      omega
    obtain ⟨xs, ys, rfl, hys, hgo⟩ := ih hsome (by omega) hmin hmem
    refine ⟨xs, ys, rfl, hys, fun zs hzs => ?_⟩
    obtain ⟨xs', hshapes, hread'⟩ := hgo zs hzs
    refine ⟨xs', hshapes,
      .pass (by omega) ?_ (h.following?_before hforward hk (by omega)) hforward ?_⟩
    · rwa [h.kind?_before hi]
    · rwa [show min k (stop + n) = min k stop by omega]

end Inserts
end Listing
end Vintage
