import Vintage.Proofs.Signatures.Insertion

/-!
# Attribute groups before parameters

An attribute group stands before a parameter, in a listing without layout. The list of parameters is
cut at the commas of the group as at any others, since the bracket that opens the group is not taken
for one. The part after the last of these commas is read with the parameter. Where there are none,
the group is skipped up to the first `]`, which may belong to an array in it. So a part of the group
may be left over, and all of it that passes for a piece of a type makes the type longer.

Results:
* `LeftOver`: the part that is left over.
* `Listing.exists_resumes`: how the list is read through the group.
* `Listing.Inserts.map_shape_parameter?`: the parameter after the group.
* `Listing.exists_shapes?_attributes`: the whole list of parameters.
-/

namespace Vintage

/-! ## Attribute groups -/

/-- Contents of an attribute group without variables, references and other attributes, well nested
in all brackets. -/
structure ConstantContents (ks : List TokenKind) : Prop where
  nested : Nested (fun _ => True) ks
  noVariables : .variableName ∉ ks
  noAttributes : .attributeStart ∉ ks
  noReferences : ¬ [.ampersand, .ellipsis] <:+: ks

/-- The part of the contents that is not skipped. A group without commas outside of brackets is
skipped up to its first `]`. Another one is cut at these commas as if they stood between parameters,
and its last piece has no `#[` to be skipped from. -/
inductive LeftOver : List TokenKind → List TokenKind → Prop
  | single {ks : List TokenKind} (h : Nested (· ≠ .comma) ks) :
      LeftOver ks (ks.dropWhile (· != .closeSquare)).tail
  | several {ks rest : List TokenKind} (h : Nested (fun _ => True) ks)
      (hrest : Nested (· ≠ .comma) rest) : LeftOver (ks ++ .comma :: rest) rest

/-- Well-nested kinds have no comma outside of their brackets, or a last one. -/
theorem Nested.last_comma {p : TokenKind → Prop} {ks : List TokenKind} (h : Nested p ks) :
    Nested (· ≠ .comma) ks ∨ ∃ front rest, ks = front ++ .comma :: rest ∧
      Nested (fun _ => True) front ∧ Nested (· ≠ .comma) rest := by
  induction h with
  | nil => exact Or.inl .nil
  | @plain p k ks hbracket _ _ ih =>
    rcases ih with hks | ⟨front, rest, rfl, hfront, hrest⟩
    · by_cases hk : k = .comma
      · subst hk
        exact Or.inr ⟨[], ks, rfl, .nil, hks⟩
      · exact Or.inl (.plain hbracket hk hks)
    · exact Or.inr ⟨k :: front, rest, rfl, .plain hbracket trivial hfront, hrest⟩
  | @group p b inner outer hinner _ _ ih =>
    rcases ih with hks | ⟨front, rest, rfl, hfront, hrest⟩
    · exact Or.inl (.group b hinner hks)
    · refine Or.inr ⟨b.opener :: (inner ++ b.closer :: front), rest, ?_, .group b hinner hfront,
        hrest⟩
      simp only [List.cons_append, List.append_assoc]

theorem exists_leftOver {ks : List TokenKind} (h : Nested (fun _ => True) ks) :
    ∃ left, LeftOver ks left := by
  rcases h.last_comma with hks | ⟨front, rest, rfl, hfront, hrest⟩
  · exact ⟨_, .single hks⟩
  · exact ⟨rest, .several hfront hrest⟩

namespace Listing

/-! ## The walk through a group -/

theorem Reading.token {l : Listing} {stop i start : Nat} {read : Option (List Item)}
    {kind : TokenKind} (hk : l.kind? i = some kind) (hopens : kind.opensGroup = false)
    (hcomma : kind ≠ .comma) (hi : i < stop) (h : l.Reading stop (i + 1) start read) :
    l.Reading stop i start read := by
  refine .pass hi ?_ (following?_of_not_opens ?_) (Nat.lt_succ_self i) ?_
  · rw [hk]
    exact fun he => hcomma (Option.some.inj he)
  · rw [hk]
    exact hopens
  · rwa [Nat.min_eq_left hi]

/-- The item from `start` up to `stop` has no variable. -/
def NoVariable (l : Listing) (start stop : Nat) : Prop :=
  ∀ j, start ≤ j → j < stop → l.kind? j ≠ some .variableName

theorem NoVariable.extend {l : Listing} {start i stop : Nat} (h : l.NoVariable start i)
    (hmore : l.NoVariable i stop) : l.NoVariable start stop := fun j hlow hhigh => by
  rcases Nat.lt_or_ge j i with hlt | hge
  · exact h j hlow hlt
  · exact hmore j hge hhigh

theorem Spells.noVariable {l : Listing} {i : Nat} {ks : List TokenKind} (h : l.Spells i ks)
    (hks : .variableName ∉ ks) : l.NoVariable i (i + ks.length) := fun j hlow hhigh hj => by
  obtain ⟨k, hmem, hk⟩ := h.mem hlow hhigh
  obtain rfl := Option.some.inj (hj.symm.trans hk)
  exact hks hmem

/-- An item without a variable declares no parameter. -/
theorem NoVariable.shapes?_cons {l : Listing} {start stop : Nat} (h : l.NoVariable start stop)
    (items : List Item) : l.shapes? (l.item start stop :: items) = l.shapes? items := by
  have hnone : l.firstIn? (fun t => t.kind == .variableName) start stop = none := by
    refine Option.eq_none_iff_forall_ne_some.2 fun v hv => ?_
    obtain ⟨hlow, hhigh, t, ht, hkind⟩ := firstIn?_eq_some hv
    refine h v hlow hhigh ?_
    rw [kind?, ht, Option.map_some, eq_of_beq hkind]
  rw [Listing.shapes?_cons, parameter?_eq_none hnone]
  cases l.shapes? items <;> rfl

section Walk

variable {ts : List Token} (hts : ∀ t ∈ ts, t.Bare)
include hts

theorem Spells.reading_group {p : TokenKind → Prop} {b : Bracket} {inner rest : List TokenKind}
    {i stop start : Nat} (h : (ofTokens ts).Spells i (b.opener :: (inner ++ b.closer :: rest)))
    (hinner : Nested p inner) (hstop : i + 1 + inner.length + 1 ≤ stop) {read : Option (List Item)}
    (hread : (ofTokens ts).Reading stop (i + 1 + inner.length + 1) start read) :
    (ofTokens ts).Reading stop i start read := by
  have hk := (spells_cons.1 h).1
  refine .pass (k := i + 1 + inner.length + 1) (by omega) ?_ ?_ (by omega) ?_
  · rw [hk]
    cases b <;> exact nofun
  · rw [following?, hk, Option.any_some, if_pos (TokenKind.opensGroup_iff.2 ⟨b, rfl⟩),
      h.partner?_group hts hinner]
    rfl
  · rwa [Nat.min_eq_left hstop]

/-- A well-nested stretch without commas outside of its brackets stays in the item at hand. -/
theorem Spells.reading_nested {p : TokenKind → Prop} (hp : ∀ k, p k → k ≠ .comma)
    {ks : List TokenKind} (hks : Nested p ks) {i stop start : Nat}
    (h : (ofTokens ts).Spells i ks) (hstop : i + ks.length ≤ stop) {read : Option (List Item)}
    (hread : (ofTokens ts).Reading stop (i + ks.length) start read) :
    (ofTokens ts).Reading stop i start read := by
  induction hks generalizing i with
  | nil => exact hread
  | @plain p k ks hbracket hk _ ih =>
    obtain ⟨hi, hks⟩ := spells_cons.1 h
    rw [List.length_cons] at hstop hread
    rw [show i + (ks.length + 1) = i + 1 + ks.length by omega] at hread
    exact .token hi (TokenKind.opensGroup_of_not_bracket hbracket) (hp k hk) (by omega)
      (ih hp hks (by omega) hread)
  | @group p b inner rest hinner _ _ ih =>
    obtain ⟨-, hks⟩ := spells_cons.1 h
    obtain ⟨-, hks⟩ := spells_append.1 hks
    obtain ⟨-, hrest⟩ := spells_cons.1 hks
    simp only [List.length_cons, List.length_append] at hstop hread
    refine h.reading_group hts hinner (by omega) (ih hp hrest (by omega) ?_)
    rwa [show i + 1 + inner.length + 1 + rest.length =
      i + (inner.length + (rest.length + 1) + 1) by omega]

/-- A well-nested stretch without variables declares nothing, wherever it is cut by commas. -/
theorem Spells.reading_pieces {p : TokenKind → Prop} {ks : List TokenKind} (hks : Nested p ks)
    {i stop : Nat} (h : (ofTokens ts).Spells i ks) (hvariables : .variableName ∉ ks)
    (hstop : i + ks.length ≤ stop) {shapes : Option (List (String × Bool × Option String))}
    (hread : ∀ start, (ofTokens ts).NoVariable start (i + ks.length) → ∃ items,
      (ofTokens ts).shapes? items = shapes ∧
        (ofTokens ts).Reading stop (i + ks.length) start (some items))
    (start : Nat) (hstart : (ofTokens ts).NoVariable start i) : ∃ items,
      (ofTokens ts).shapes? items = shapes ∧ (ofTokens ts).Reading stop i start (some items) := by
  induction hks generalizing i start with
  | nil => exact hread start hstart
  | @plain p k ks hbracket hk _ ih =>
    obtain ⟨hi, hks⟩ := spells_cons.1 h
    have hone : (ofTokens ts).NoVariable i (i + 1) := fun j hlow hhigh =>
      h.noVariable hvariables j hlow (by rw [List.length_cons]; omega)
    have hlength : i + (k :: ks).length = i + 1 + ks.length := by
      rw [List.length_cons]
      omega
    rw [hlength] at hstop hread
    have hih := ih hks (fun hmem => hvariables (List.mem_cons_of_mem k hmem)) hstop hread
    by_cases hcomma : k = .comma
    · subst hcomma
      obtain ⟨items, hshapes, hread⟩ := hih (i + 1) fun j hlow hhigh => by omega
      exact ⟨_, (hstart.shapes?_cons items).trans hshapes, .comma start (by omega) hi hread⟩
    · obtain ⟨items, hshapes, hread⟩ := hih start (hstart.extend hone)
      exact ⟨items, hshapes, .token hi (TokenKind.opensGroup_of_not_bracket hbracket) hcomma
        (by omega) hread⟩
  | @group p b inner rest hinner _ _ ih =>
    obtain ⟨-, hks⟩ := spells_cons.1 h
    obtain ⟨-, hks⟩ := spells_append.1 hks
    obtain ⟨-, hrest⟩ := spells_cons.1 hks
    have hlength : i + (b.opener :: (inner ++ b.closer :: rest)).length =
        i + 1 + inner.length + 1 + rest.length := by
      simp only [List.length_cons, List.length_append]
      omega
    rw [hlength] at hstop hread
    have hinside : (ofTokens ts).NoVariable i (i + 1 + inner.length + 1) := fun j hlow hhigh =>
      h.noVariable hvariables j hlow (by omega)
    obtain ⟨items, hshapes, hitems⟩ := ih hrest (fun hmem => hvariables (by simp [hmem])) hstop
      hread start (hstart.extend hinside)
    exact ⟨items, hshapes, h.reading_group hts hinner (by omega) hitems⟩

end Walk

/-! ## What is left over -/

/-- After an attribute group at position `q` the item at hand starts at `r`, and its parameter is
read from `s` on. What stands there before the end of the group has, among the kinds that types are
made of, those of the list. -/
structure Resumes (l : Listing) (q n stop : Nat) (left : List TokenKind) (r s : Nat) : Prop where
  low : q ≤ r
  le : r ≤ s
  lt : q < s
  high : s ≤ q + n
  pieces : ∀ k, k ≠ .closeSquare → (k ∈ left ↔ ∃ j, s ≤ j ∧ j < q + n ∧ l.kind? j = some k)
  head : ∀ v, q + n ≤ v → l.headFrom? (v - r) r 0 {} = l.headFrom? (v - s) s 0 {}
  reading : ∀ items, l.Reading stop (q + n) r (some items) →
    ∃ items', l.shapes? items' = l.shapes? items ∧ l.Reading stop q q (some items')

theorem Spells.mem_iff {l : Listing} {i : Nat} {ks : List TokenKind} (h : l.Spells i ks)
    (k : TokenKind) : k ∈ ks ↔ ∃ j, i ≤ j ∧ j < i + ks.length ∧ l.kind? j = some k := by
  constructor
  · intro hk
    obtain ⟨j, hj, rfl⟩ := List.mem_iff_getElem.1 hk
    refine ⟨i + j, by omega, by omega, ?_⟩
    rw [h j hj, List.getElem?_eq_getElem hj]
  · rintro ⟨j, hlow, hhigh, hj⟩
    obtain ⟨k', hmem, hk'⟩ := h.mem hlow hhigh
    exact Option.some.inj (hk'.symm.trans hj) ▸ hmem

theorem headFrom?_skip {l : Listing} {d i resume : Nat} (n : Nat) (head : ParameterHead)
    (h : i + d ≤ resume) :
    l.headFrom? (d + n) i resume head = l.headFrom? n (i + d) resume head := by
  induction d generalizing i with
  | zero => rw [Nat.zero_add, Nat.add_zero]
  | succ d ih =>
    rw [show d + 1 + n = d + n + 1 by omega, headFrom?, if_pos (by omega), ih (by omega),
      show i + 1 + d = i + (d + 1) by omega]

/-- An attribute is skipped up to the first `]`. -/
theorem headFrom?_attribute {l : Listing} {i c v : Nat} (hi : l.kind? i = some .attributeStart)
    (hc : l.kind? c = some .closeSquare) (hic : i < c) (hcv : c < v)
    (hbefore : ∀ j, i < j → j < c → l.kind? j ≠ some .closeSquare) (head : ParameterHead) :
    l.headFrom? (v - i) i 0 head = l.headFrom? (v - (c + 1)) (c + 1) 0 head := by
  obtain ⟨t, ht, hkind⟩ := Option.map_eq_some_iff.1 hi
  have hfirst : l.firstIn? (fun u => u.kind == .closeSquare) i v = some c := by
    refine firstIn?_of_first (Nat.le_of_lt hic) hcv ?_ fun j hlow hhigh => ?_
    · rw [any_kind_beq, hc]
      rfl
    · rw [any_kind_beq, beq_eq_false_iff_ne]
      rcases Nat.eq_or_lt_of_le hlow with rfl | hlow
      · rw [hi]
        decide
      · exact hbefore j hlow hhigh
  rw [show v - i = v - (i + 1) + 1 by omega, headFrom?, if_neg (Nat.not_lt_zero i), ht]
  simp only [if_pos hkind]
  rw [show i + 1 + (v - (i + 1)) = v by omega, hfirst]
  simp only
  rw [show v - (i + 1) = c - i + (v - (c + 1)) by omega, headFrom?_skip _ _ (by omega),
    headFrom?_resume (by omega), show i + 1 + (c - i) = c + 1 by omega]

/-- A group without commas outside of its brackets is skipped up to the first `]`. -/
theorem exists_first_closeSquare (ks : List TokenKind) :
    ∃ skipped rest, ks ++ [.closeSquare] = skipped ++ .closeSquare :: rest ∧
      .closeSquare ∉ skipped ∧
      ∀ k, k ≠ .closeSquare → (k ∈ (ks.dropWhile (· != .closeSquare)).tail ↔ k ∈ rest) := by
  induction ks with
  | nil => exact ⟨[], [], rfl, List.not_mem_nil, fun k _ => Iff.rfl⟩
  | cons k ks ih =>
    by_cases hk : k = .closeSquare
    · subst hk
      refine ⟨[], ks ++ [.closeSquare], rfl, List.not_mem_nil, fun k hk => ?_⟩
      rw [List.mem_append, List.mem_singleton, or_iff_left hk]
      rfl
    · obtain ⟨skipped, rest, heq, hskipped, hrest⟩ := ih
      refine ⟨k :: skipped, rest, congrArg (k :: ·) heq, ?_, fun j hj => ?_⟩
      · rw [List.mem_cons, not_or]
        exact ⟨Ne.symm hk, hskipped⟩
      · rw [List.dropWhile_cons, if_pos (bne_iff_ne.2 hk), hrest j hj]

theorem exists_resumes {ts : List Token} (hts : ∀ t ∈ ts, t.Bare)
    {ks left : List TokenKind} (hleft : LeftOver ks left) (hvariables : .variableName ∉ ks)
    {q stop : Nat} (h : (ofTokens ts).Spells q (.attributeStart :: (ks ++ [.closeSquare])))
    (hstop : q + (ks.length + 2) ≤ stop) :
    ∃ r s, (ofTokens ts).Resumes q (ks.length + 2) stop left r s := by
  obtain ⟨hopen, hrest⟩ := spells_cons.1 h
  cases hleft with
  | single hnested =>
    obtain ⟨skipped, rest, heq, hskipped, hmem⟩ := exists_first_closeSquare ks
    have hlength : ks.length = skipped.length + rest.length := by
      have := congrArg List.length heq
      simp only [List.length_append, List.length_cons, List.length_nil] at this
      omega
    have hrest' := hrest
    rw [heq] at hrest'
    obtain ⟨hskip, hrest'⟩ := spells_append.1 hrest'
    obtain ⟨hclose, hover⟩ := spells_cons.1 hrest'
    refine ⟨q, q + 1 + skipped.length + 1, Nat.le_refl q, by omega, by omega, by omega,
      fun k hk => ?_, fun v hv => ?_, fun items hitems => ⟨items, rfl, ?_⟩⟩
    · rw [hmem k hk, hover.mem_iff, show q + 1 + skipped.length + 1 + rest.length =
        q + (ks.length + 2) by omega]
    · refine headFrom?_attribute hopen hclose (by omega) (by omega) (fun j hlow hhigh hj => ?_) _
      obtain ⟨k, hk, hkind⟩ := hskip.mem hlow hhigh
      exact hskipped (Option.some.inj (hkind.symm.trans hj) ▸ hk)
    · obtain ⟨hks, hlast⟩ := spells_append.1 hrest
      refine .token hopen rfl (by decide) (by omega) ?_
      refine hks.reading_nested hts (fun _ hk => hk) hnested (by omega) ?_
      refine .token (spells_cons.1 hlast).1 rfl (by decide) (by omega) ?_
      rwa [show q + 1 + ks.length + 1 = q + (ks.length + 2) by omega]
  | @several front left hfront hnested =>
    rw [List.length_append, List.length_cons] at hstop ⊢
    rw [List.append_assoc, List.cons_append] at hrest
    obtain ⟨hspells, hrest⟩ := spells_append.1 hrest
    obtain ⟨hcomma, hover⟩ := spells_cons.1 hrest
    obtain ⟨hleft, hlast⟩ := spells_append.1 hover
    refine ⟨q + 1 + front.length + 1, q + 1 + front.length + 1, by omega, Nat.le_refl _, by omega,
      by omega, fun k hk => ?_, fun v hv => rfl, fun items hitems => ?_⟩
    · have hmem := hover.mem_iff k
      rw [List.mem_append, List.mem_singleton, or_iff_left hk, List.length_append,
        List.length_singleton] at hmem
      rw [hmem, show q + 1 + front.length + 1 + (left.length + 1) =
        q + (front.length + (left.length + 1) + 2) by omega]
    · have hfrom : (ofTokens ts).Reading stop (q + 1 + front.length + 1)
          (q + 1 + front.length + 1) (some items) := by
        refine hleft.reading_nested hts (fun _ hk => hk) hnested (by omega) ?_
        refine .token (spells_cons.1 hlast).1 rfl (by decide) (by omega) ?_
        rwa [show q + 1 + front.length + 1 + left.length + 1 =
          q + (front.length + (left.length + 1) + 2) by omega]
      have hgroup : (ofTokens ts).Spells q (.attributeStart :: front) :=
        spells_cons.2 ⟨hopen, hspells⟩
      have hnone : TokenKind.variableName ∉ TokenKind.attributeStart :: front := fun hmem =>
        (List.mem_cons.1 hmem).elim nofun fun hmem => hvariables (List.mem_append_left _ hmem)
      refine hgroup.reading_pieces hts (.plain rfl trivial hfront) hnone
        (by rw [List.length_cons]; omega) (fun start hstart => ?_) q fun j hlow hhigh => by omega
      rw [List.length_cons, show q + (front.length + 1) = q + 1 + front.length by omega] at hstart ⊢
      exact ⟨_, hstart.shapes?_cons items, .comma start (by omega) hcomma hfrom⟩

/-! ## The parameter after the group -/

end Listing

/-- The kind may pass for a piece of a type. -/
def TokenKind.passesForType (k : TokenKind) : Bool := k.isTypePiece || k == .ampersand

theorem isInfix_of_getElem? {ks : List TokenKind} {m : Nat} {a b : TokenKind}
    (ha : ks[m]? = some a) (hb : ks[m + 1]? = some b) : [a, b] <:+: ks := by
  obtain ⟨hm, rfl⟩ := List.getElem?_eq_some_iff.1 ha
  obtain ⟨hm', rfl⟩ := List.getElem?_eq_some_iff.1 hb
  refine ⟨ks.take m, ks.drop (m + 1 + 1), ?_⟩
  rw [List.append_assoc, List.cons_append, List.singleton_append, ← List.drop_eq_getElem_cons hm',
    ← List.drop_eq_getElem_cons hm, List.take_append_drop]

namespace Listing

/-- In a group without references every `&` passes for a piece of a type. -/
theorem taken_of_constantContents {ks : List TokenKind} (hks : ConstantContents ks) {l : Listing}
    (hl : l.Compact) {q : Nat} (h : l.Spells q (.attributeStart :: (ks ++ [.closeSquare])))
    {j : Nat} (hlow : q ≤ j) (hhigh : j < q + (ks.length + 2)) :
    l.takenForReference j = false ∧ l.takenForType j = (l.kind? j).any TokenKind.passesForType := by
  obtain ⟨hopen, hrest⟩ := spells_cons.1 h
  obtain ⟨hinside, hlast⟩ := spells_append.1 hrest
  have hclose := (spells_cons.1 hlast).1
  have hmark (hj : l.kind? j = some .ampersand) : l.marksReference j = false := by
    have hne : j ≠ q := by
      rintro rfl
      cases hj.symm.trans hopen
    have hne' : j ≠ q + 1 + ks.length := by
      rintro rfl
      cases hj.symm.trans hclose
    obtain ⟨m, rfl⟩ : ∃ m, j = q + 1 + m := ⟨j - (q + 1), by omega⟩
    rw [hl.marksReference]
    rcases Nat.eq_or_lt_of_le (show m + 1 ≤ ks.length by omega) with hend | hm
    · rw [show q + 1 + m + 1 = q + 1 + ks.length by omega, hclose]
      rfl
    · have ha := (hinside m (by omega)).symm.trans hj
      have hb := hinside (m + 1) hm
      rw [show q + 1 + (m + 1) = q + 1 + m + 1 by omega] at hb
      rw [hb, Bool.or_eq_false_iff, beq_eq_false_iff_ne, beq_eq_false_iff_ne]
      exact ⟨fun hk => hks.noVariables (List.mem_of_getElem? hk),
        fun hk => hks.noReferences (isInfix_of_getElem? ha hk)⟩
  rw [takenForReference, takenForType]
  cases hj : l.kind? j with
  | none => exact ⟨rfl, rfl⟩
  | some k =>
    by_cases hand : k = .ampersand
    · subst hand
      rw [hmark hj]
      exact ⟨rfl, rfl⟩
    · rw [Option.any_some, Option.any_some, TokenKind.passesForType, beq_eq_false_iff_ne.2 hand,
        beq_eq_false_iff_ne.2 fun he => hand (Option.some.inj he)]
      exact ⟨rfl, rfl⟩

theorem headFrom?_andThen (l : Listing) (n i resume : Nat) (head more : ParameterHead) :
    l.headFrom? n i resume (head.andThen more) =
      (l.headFrom? n i resume more).map head.andThen := by
  induction n generalizing i resume more with
  | zero => rfl
  | succ n ih =>
    have hadd : (head.andThen more).addType i = head.andThen (more.addType i) := by
      obtain ⟨byReference, type⟩ := head
      obtain ⟨byReference', type'⟩ := more
      cases type <;> cases type' <;> rfl
    have hreference : { head.andThen more with byReference := true } =
        head.andThen { more with byReference := true } := by
      simp only [ParameterHead.andThen, Bool.or_true]
    rw [headFrom?, headFrom?, hadd, hreference]
    split
    · exact ih (i + 1) resume more
    · split
      · rfl
      · split
        · split
          · exact ih (i + 1) _ more
          · rfl
        · split
          · split
            · exact ih (i + 1) resume _
            · exact ih (i + 1) resume _
          · split
            · exact ih (i + 1) resume _
            · exact ih (i + 1) resume more

section Resumes

variable {l : Listing} {ks left : List TokenKind} {q stop r s : Nat}

theorem Resumes.not_attributeStart (hks : ConstantContents ks)
    (hgroup : l.Spells q (.attributeStart :: (ks ++ [.closeSquare])))
    (h : l.Resumes q (ks.length + 2) stop left r s) {j : Nat} (hj : s ≤ j)
    (hj' : j < s + (q + (ks.length + 2) - s)) : l.kind? j ≠ some .attributeStart := by
  intro hkind
  have hlt := h.lt
  obtain ⟨k, hmem, hk⟩ := (spells_cons.1 hgroup).2.mem (show q + 1 ≤ j by omega)
    (by rw [List.length_append, List.length_singleton]; omega)
  obtain rfl := Option.some.inj (hk.symm.trans hkind)
  rcases List.mem_append.1 hmem with hmem | hmem
  · exact hks.noAttributes hmem
  · cases List.mem_singleton.1 hmem

/-- Nothing of the group is taken for a type iff nothing that is left over of it passes for a piece
of a type. -/
theorem Resumes.leak_eq_none_iff (hl : l.Compact) (hks : ConstantContents ks)
    (hgroup : l.Spells q (.attributeStart :: (ks ++ [.closeSquare])))
    (h : l.Resumes q (ks.length + 2) stop left r s) :
    (l.headIn s (q + (ks.length + 2) - s)).type = none ↔ ∀ k ∈ left, k.passesForType = false := by
  have hnone (ps : List Nat) : endsOf? ps = none ↔ ps = [] := by
    refine ⟨fun h => ?_, fun h => h ▸ rfl⟩
    refine Classical.byContradiction fun hne => ?_
    obtain ⟨first, last, hends⟩ := endsOf?_ne_none hne
    cases h.symm.trans hends
  have hlt := h.lt
  have htaken {j : Nat} (hj : j ∈ List.range' s (q + (ks.length + 2) - s)) :
      l.takenForType j = (l.kind? j).any TokenKind.passesForType := by
    rw [List.mem_range'_1] at hj
    exact (taken_of_constantContents hks hl hgroup (by omega) (by omega)).2
  have hclose {k : TokenKind} (hk : k.passesForType = true) : k ≠ .closeSquare := by
    rintro rfl
    cases hk
  rw [headIn, hnone, List.filter_eq_nil_iff]
  constructor
  · intro hall k hk
    refine Bool.eq_false_iff.2 fun hpasses => ?_
    obtain ⟨j, hlow, hhigh, hj⟩ := (h.pieces k (hclose hpasses)).1 hk
    have hmem : j ∈ List.range' s (q + (ks.length + 2) - s) := List.mem_range'_1.2 (by omega)
    refine hall j hmem ?_
    rw [htaken hmem, hj]
    exact hpasses
  · intro hall j hmem htype
    rw [htaken hmem, Option.any_eq_true] at htype
    obtain ⟨k, hj, hpasses⟩ := htype
    rw [List.mem_range'_1] at hmem
    have := hall k ((h.pieces k (hclose hpasses)).2 ⟨j, hmem.1, by omega, hj⟩)
    cases hpasses.symm.trans this

end Resumes

theorem parametersOpener?_eq_some {l : Listing} {f o : Nat} (h : l.parametersOpener? f = some o) :
    (l.kind? f = some .kwFunction ∨ l.kind? f = some .kwFn) ∧ f < o ∧
      l.kind? o = some .openParen := by
  rw [parametersOpener?] at h
  split at h
  · rename_i hkind
    obtain ⟨hfirst, hparen⟩ := Option.filter_eq_some_iff.1 h
    exact ⟨(Bool.or_eq_true_iff.1 hkind).imp eq_of_beq eq_of_beq, (firstIn?_eq_some hfirst).1,
      eq_of_beq hparen⟩
  · cases h

namespace Inserts

variable {l l' : Listing} {q n : Nat}

/-- A type that begins in what is put in, before some text, is another type. -/
theorem typeText?_extendEnds_iff (h : l.Inserts l' q n) (hq : q ≤ l.size)
    {ends leak : Option (Nat × Nat)}
    (hends : ∀ e ∈ ends, q ≤ e.1 ∧ e.1 ≤ e.2 ∧ e.2 < l.size) {c : Nat} (hc : c < q + n) {t : Token}
    (ht : l'.get? c = some t) (htext : t.text ≠ "")
    (hleak : ∀ e ∈ leak, e.1 ≤ e.2 ∧ e.2 ≤ c) :
    l'.typeText? (extendEnds leak (ends.map (Prod.map (· + n) (· + n)))) = l.typeText? ends ↔
      leak = none := by
  have hsize := h.size
  have hmoves : l'.typeText? (ends.map (Prod.map (· + n) (· + n))) = l.typeText? ends :=
    (h.moves_after (Nat.le_refl q) l.size).typeText? h.compact h.compact' (Nat.le_refl _)
      (by omega) hends
  cases leak with
  | none =>
    refine iff_of_true (Eq.trans ?_ hmoves) rfl
    cases ends <;> rfl
  | some e =>
    refine iff_of_false (fun heq => ?_) nofun
    rw [← hmoves] at heq
    obtain ⟨hle, hhigh⟩ := hleak e rfl
    cases ends with
    | none =>
      rw [Option.map_none, extendEnds, h.compact'.typeText?_some hle (by omega)] at heq
      cases heq
    | some ends =>
      obtain ⟨hlow, hle', hhigh'⟩ := hends ends rfl
      obtain ⟨x, y⟩ := e
      obtain ⟨first, last⟩ := ends
      simp only at hlow hle' hhigh' hle hhigh
      have hwhole : extendEnds (some (x, y)) (some (first + n, last + n)) =
          some (x, last + n) := rfl
      rw [Option.map_some, Prod.map, hwhole, h.compact'.typeText?_some (by simp only; omega)
        (by simp only; omega), h.compact'.typeText?_some (by simp only; omega)
        (by simp only; omega), Option.some.injEq] at heq
      -- the type is the base one with something before it
      have hsplit : List.range' x (last + n + 1 - x) = List.range' x (first + n - x) ++
          List.range' (first + n) (last + n + 1 - (first + n)) := by
        rw [show last + n + 1 - x = first + n - x + (last + n + 1 - (first + n)) by omega,
          ← List.range'_append_1, show x + (first + n - x) = first + n by omega]
      have hmem : c ∈ List.range' x (first + n - x) := List.mem_range'_1.2 (by omega)
      rw [hsplit, textAt_append] at heq
      have hnil := congrArg String.toList heq
      rw [String.toList_append, List.append_left_eq_self, String.toList_eq_nil_iff] at hnil
      exact textAt_ne_empty hmem ht htext hnil

section Attributes

variable {ks left : List TokenKind} {stop r s : Nat}

/-- The tokens before the variable: first what is left over of the group, then all others. -/
theorem headFrom?_attributes (h : l.Inserts l' q (ks.length + 2)) (hks : ConstantContents ks)
    (hgroup : l'.Spells q (.attributeStart :: (ks ++ [.closeSquare])))
    (hresumes : l'.Resumes q (ks.length + 2) stop left r s) {v : Nat} (hqv : q ≤ v)
    (hv : v < l.size) :
    l'.headFrom? (v + (ks.length + 2) - r) r 0 {} = (l.headFrom? (v - q) q 0 {}).map fun head =>
      { byReference := head.byReference
        type := extendEnds (l'.headIn s (q + (ks.length + 2) - s)).type
          (head.type.map (Prod.map (· + (ks.length + 2)) (· + (ks.length + 2)))) } := by
  have hattributes := fun j hj => hresumes.not_attributeStart hks hgroup (j := j) hj
  obtain ⟨hlow, hle, hlt, hhigh, -, hhead, -⟩ := hresumes
  have hsize := h.size
  have hreference : (l'.headIn s (q + (ks.length + 2) - s)).byReference = false := by
    rw [headIn, List.any_eq_false]
    intro j hj
    rw [List.mem_range'_1] at hj
    rw [(taken_of_constantContents hks h.compact' hgroup (by omega) (by omega)).1]
    exact Bool.false_ne_true
  have hmoved := (h.moves_after (Nat.le_refl q) (v + 1)).headFrom?_start h.compact h.compact' hqv hv
    (by omega)
  have hempty : l'.headIn s (q + (ks.length + 2) - s) =
      (l'.headIn s (q + (ks.length + 2) - s)).andThen {} := by
    rw [ParameterHead.andThen, Bool.or_false]
    rfl
  rw [hhead _ (by omega), show v + (ks.length + 2) - s = q + (ks.length + 2) - s + (v - q) by omega,
    headFrom?_append (by omega) hattributes (Nat.zero_le s), ParameterHead.empty_andThen, hempty,
    headFrom?_andThen, show s + (q + (ks.length + 2) - s) = q + (ks.length + 2) by omega, hmoved,
    Option.map_map]
  congr 1
  funext head
  simp only [Function.comp_apply, ParameterHead.andThen, hreference, Thins.moveHead, Bool.false_or,
    extendEnds]

/-- What is read of the parameter that an attribute group is put before: its type is another one iff
something that is left over of the group passes for a piece of a type. -/
theorem map_shape_parameter? (h : l.Inserts l' q (ks.length + 2)) (hks : ConstantContents ks)
    (hgroup : l'.Spells q (.attributeStart :: (ks ++ [.closeSquare])))
    (hresumes : l'.Resumes q (ks.length + 2) stop left r s) {t : Token}
    (ht : l'.get? (q + 1 + ks.length) = some t) (htext : t.text ≠ "") {e : Nat} (he : e ≤ l.size)
    {shape : String × Bool × Option String}
    (hshape : (l.parameter? (l.item q e)).map (Option.map Parameter.shape) = some (some shape)) :
    ∃ text, (l'.parameter? (l'.item r (e + (ks.length + 2)))).map (Option.map Parameter.shape) =
        some (some (shape.1, shape.2.1, text)) ∧
      (text = shape.2.2 ↔ ∀ k ∈ left, k.passesForType = false) := by
  have hlow := hresumes.low
  have hhigh := hresumes.high
  have hle := hresumes.le
  have hsize := h.size
  cases hvariable : l.firstIn? (fun t => t.kind == .variableName) q e with
  | none =>
    rw [parameter?_eq_none hvariable] at hshape
    cases hshape
  | some v =>
    obtain ⟨hqv, hve, u, hu, hkind⟩ := firstIn?_eq_some hvariable
    have hfirst : l'.firstIn? (fun t => t.kind == .variableName) r (e + (ks.length + 2)) =
        some (v + (ks.length + 2)) := by
      refine firstIn?_of_first (by omega) (by omega) ?_ fun j hj hj' => ?_
      · rw [any_kind_beq, h.kind?_after hqv, ← any_kind_beq, hu]
        exact hkind
      · rw [any_kind_beq]
        rcases Nat.lt_or_ge j (q + (ks.length + 2)) with hlt | hge
        · refine beq_eq_false_iff_ne.2 (hgroup.noVariable ?_ j (by omega) ?_)
          · simp [hks.noVariables]
          · simpa using hlt
        · obtain ⟨i, rfl⟩ : ∃ i, j = i + (ks.length + 2) := ⟨j - (ks.length + 2), by omega⟩
          rw [h.kind?_after (by omega), ← any_kind_beq]
          exact firstAmong?_before hvariable (by omega) (by omega)
    rw [Listing.map_shape_parameter? hvariable, Option.map_eq_some_iff] at hshape
    obtain ⟨head, hhead, hshape⟩ := hshape
    obtain rfl := Option.some.inj hshape
    have hends := headFrom?_ends hhead nofun (Nat.le_refl q)
    have hleak : ∀ e ∈ (l'.headIn s (q + (ks.length + 2) - s)).type,
        e.1 ≤ e.2 ∧ e.2 ≤ q + 1 + ks.length := by
      intro e he
      have hread := headFrom?_eq (l := l') (i := s) (n := q + (ks.length + 2) - s) (by omega)
        fun j hj => hresumes.not_attributeStart hks hgroup hj
      have := headFrom?_ends hread nofun (Nat.le_refl s) e he
      omega
    refine ⟨l'.typeText? (extendEnds (l'.headIn s (q + (ks.length + 2) - s)).type (head.type.map
      (Prod.map (· + (ks.length + 2)) (· + (ks.length + 2))))), ?_, ?_⟩
    · rw [Listing.map_shape_parameter? hfirst,
        h.headFrom?_attributes hks hgroup hresumes hqv (by omega), hhead,
        (h.moves_after hqv (v + 1)).text (Nat.le_refl v) (Nat.lt_succ_self v)]
      rfl
    · rw [← hresumes.leak_eq_none_iff h.compact' hks hgroup]
      refine h.typeText?_extendEnds_iff (by omega) (fun e he => ?_) (by omega) ht htext hleak
      have := hends e he
      omega

end Attributes

/-- The parenthesis that opens the parameters is found as before. -/
theorem parametersOpener? (h : l.Inserts l' q n) {f o : Nat} (ho : l.parametersOpener? f = some o)
    (hoq : o < q) : l'.parametersOpener? f = some o := by
  have hany (l : Listing) (j : Nat) :
      ((l.get? j).any fun t => t.isSignificant && t.kind != .ampersand && t.kind != .name) =
        (l.kind? j).any fun k => !k.isLayout && k != .ampersand && k != .name := by
    rw [kind?]
    cases l.get? j <;> rfl
  rw [Listing.parametersOpener?] at ho ⊢
  split at ho
  · rename_i hf
    obtain ⟨hfirst, hparen⟩ := Option.filter_eq_some_iff.1 ho
    obtain ⟨hlow, -, t, ht, hp⟩ := firstIn?_eq_some hfirst
    have hfirst' : l'.firstFrom? (fun t => t.isSignificant && t.kind != .ampersand &&
        t.kind != .name) (f + 1) = some o := by
      refine firstIn?_of_first hlow ?_ ?_ fun j hj hj' => ?_
      · exact lt_size_of_kind? ((h.kind?_before hoq).trans (eq_of_beq hparen))
      · rw [hany, h.kind?_before hoq, ← hany, ht]
        exact hp
      · rw [hany, h.kind?_before (by omega), ← hany]
        exact firstAmong?_before hfirst hj hj'
    rw [h.kind?_before (by omega), if_pos hf, hfirst', Option.filter_some, h.kind?_before hoq,
      if_pos hparen]
  · cases ho

/-- The walk through a list, up to the item that starts where something is put in. -/
theorem exists_reading (h : l.Inserts l' q n) {o stop : Nat} {items : List Item}
    (hread : l.Reading stop (o + 1) (o + 1) (some items)) (hoq : o < q) (hqstop : q ≤ stop)
    (hstop : stop ≤ l.size) (hitem : ∃ item ∈ items, item.start = q) :
    ∃ xs ys, items = xs ++ ys ∧ l.Reading stop q q (some ys) ∧
      ∀ zs, l'.Reading (stop + n) q q (some zs) → ∃ xs', l'.shapes? xs' = l.shapes? xs ∧
        l'.Reading (stop + n) (o + 1) (o + 1) (some (xs' ++ zs)) := by
  rcases Nat.eq_or_lt_of_le (Nat.succ_le_of_lt hoq) with rfl | hlt
  · exact ⟨[], items, rfl, hread, fun zs hzs => ⟨[], rfl, hzs⟩⟩
  · exact h.reading_before hread rfl hitem (Nat.le_refl _) hlt hqstop hstop

end Inserts

theorem shapes?_append (l : Listing) (xs ys : List Item) :
    l.shapes? (xs ++ ys) = (l.shapes? xs).bind fun shapes => (l.shapes? ys).map (shapes ++ ·) := by
  induction xs with
  | nil =>
    show l.shapes? ys = (l.shapes? ys).map ([] ++ ·)
    cases l.shapes? ys <;> rfl
  | cons x xs ih =>
    rw [List.cons_append, shapes?_cons, shapes?_cons, ih]
    cases (l.parameter? x).map (Option.map Parameter.shape) with
    | none => rfl
    | some shape =>
      simp only [Option.bind_some]
      cases l.shapes? xs with
      | none => rfl
      | some shapes =>
        simp only [Option.bind_some, Option.map_some, Option.map_map, Function.comp_def,
          List.append_assoc]

/-! ## Lists of parameters -/

section OfTokens

variable {pre post group post' : List Token} {ks left : List TokenKind}

/-- Before an item stands a parenthesis or a comma. -/
theorem exists_last_of_item {ts : List Token} (hts : ∀ t ∈ pre ++ ts, t.Bare) {o stop : Nat}
    {items : List Item} (htiles : (ofTokens (pre ++ ts)).Tiles stop (o + 1) items)
    (ho : (ofTokens (pre ++ ts)).kind? o = some .openParen) {item : Item} (hmem : item ∈ items)
    (hstart : item.start = pre.length) :
    ∃ last, pre.getLast? = some last ∧ last.kind ∈ [.openParen, .comma] := by
  obtain ⟨i, kind, hi, hkind, hmem⟩ : ∃ i kind, pre.length = i + 1 ∧
      (ofTokens (pre ++ ts)).kind? i = some kind ∧ kind ∈ [.openParen, .comma] := by
    rcases htiles.start_of_mem hmem with heq | ⟨c, -, -, hcomma, heq⟩
    · exact ⟨o, _, hstart.symm.trans heq, ho, by simp⟩
    · exact ⟨c, _, hstart.symm.trans heq, hcomma, by simp⟩
  have hlt : i < pre.length := by omega
  have hname : kind ≠ .name := by
    rintro rfl
    cases hmem
    contradiction
  rw [kind?_ofTokens fun t ht => (hts t ht).scope, List.getElem?_append_left hlt,
    List.getElem?_eq_getElem hlt, Option.map_some, Option.some.injEq] at hkind
  refine ⟨pre[i], ?_, ?_⟩
  · rw [List.getLast?_eq_getElem?, hi, Nat.add_sub_cancel, List.getElem?_eq_getElem hlt]
  · rw [kind_of_settledAt hkind hname]
    exact hmem

/-- A list of parameters without layout, with an attribute group put before one of them. -/
theorem exists_shapes?_attributes {us us' : List Token} (hus : us = pre ++ post)
    (hus' : us' = pre ++ (group ++ post')) (hbare : ∀ t ∈ us, t.Bare) (hbare' : ∀ t ∈ us', t.Bare)
    (hsig : ∀ t ∈ us, t.isSignificant = true) (hsig' : ∀ t ∈ us', t.isSignificant = true)
    (hpost : post'.map Token.spelling = post.map Token.spelling) (hks : ConstantContents ks)
    (hleft : LeftOver ks left)
    (hgroup : (ofTokens us').Spells pre.length (.attributeStart :: (ks ++ [.closeSquare])))
    (hlength : group.length = ks.length + 2) {t : Token}
    (ht : (ofTokens us').get? (pre.length + 1 + ks.length) = some t) (htext : t.text ≠ "")
    {f o : Nat} (ho : (ofTokens us).parametersOpener? f = some o) {items : List Item}
    (hitems : (ofTokens us).allItems? o = some items) {item : Item} (hmem : item ∈ items)
    (hstart : item.start = pre.length) {p : Parameter}
    (hp : (ofTokens us).parameter? item = some (some p))
    {shapes : List (String × Bool × Option String)}
    (hshapes : (ofTokens us).shapes? items = some shapes) :
    f < pre.length ∧ (ofTokens us').parametersOpener? f = some o ∧
      ∃ items', (ofTokens us').allItems? o = some items' ∧
      ∃ before shape after text, shapes = before ++ shape :: after ∧
        (ofTokens us').shapes? items' = some (before ++ (shape.1, shape.2.1, text) :: after) ∧
        (text = shape.2.2 ↔ ∀ k ∈ left, k.passesForType = false) := by
  subst hus hus'
  obtain ⟨-, hfo, hparen⟩ := parametersOpener?_eq_some ho
  obtain ⟨c, hc⟩ : ∃ c, (ofTokens (pre ++ post)).partner? o = some c := by
    rw [allItems?] at hitems
    split at hitems
    · cases hitems
    · exact ⟨_, by assumption⟩
  obtain ⟨hoc, hclose⟩ := lt_of_partner? hbare (b := .round) hparen hc
  have hread := reading_allItems? hbare hparen hc
  rw [hitems] at hread
  obtain ⟨htiles, -⟩ := hread.tiles rfl (Nat.le_refl _) hoc
  obtain ⟨last, hlast, hkind⟩ := exists_last_of_item hbare htiles hparen hmem hstart
  have h := inserts_attributes hbare hbare' hsig hsig' hpost hlast hkind hks.nested hgroup hlength
  rw [hlength] at h
  have hcsize : c < (ofTokens (pre ++ post)).size := lt_size_of_kind? hclose
  obtain ⟨hoq, hqc⟩ : o < pre.length ∧ pre.length ≤ c := by
    rcases htiles.start_of_mem hmem with heq | ⟨d, hd, hd', -, heq⟩ <;> omega
  obtain ⟨xs, ys, rfl, hys, hgo⟩ := h.exists_reading hread hoq hqc (Nat.le_of_lt hcsize)
    ⟨item, hmem, hstart⟩
  obtain ⟨e, rest, rfl, hqe, hec⟩ := hys.exists_head rfl hqc
  obtain rfl : item = (ofTokens (pre ++ post)).item pre.length e :=
    htiles.eq_of_start hmem (List.mem_append_right _ List.mem_cons_self) hstart
  obtain ⟨r, s, hresumes⟩ := exists_resumes hbare' hleft hks.noVariables hgroup
    (show pre.length + (ks.length + 2) ≤ c + (ks.length + 2) by omega)
  obtain ⟨rest', hrest, hread'⟩ := h.reading_after hys rfl (Nat.le_refl _) (Nat.le_of_lt hcsize) r
  obtain ⟨zs, hzs, hread'⟩ := hresumes.reading _ hread'
  obtain ⟨xs', hxs, hread'⟩ := hgo zs hread'
  have hparen' := (h.kind?_before hoq).trans hparen
  have hpartner' := h.parens o c hparen hc hoq hqc
  have hitems' := (reading_allItems? hbare' hparen' hpartner').unique hread'
  have hshape := congrArg (Option.map (Option.map Parameter.shape)) hp
  obtain ⟨text, hparameter, htype⟩ := h.map_shape_parameter? hks hgroup hresumes ht htext
    (Nat.le_trans hec (Nat.le_of_lt hcsize)) hshape
  refine ⟨by omega, h.parametersOpener? ho hoq, xs' ++ zs, hitems', ?_⟩
  rw [shapes?_append, Option.bind_eq_some_iff] at hshapes
  obtain ⟨before, hbefore, hshapes⟩ := hshapes
  rw [shapes?_cons, hp, Option.map_some, Option.bind_some, Option.map_map,
    Option.map_eq_some_iff] at hshapes
  obtain ⟨after, hafter, rfl⟩ := hshapes
  refine ⟨before, p.shape, after, text, rfl, ?_, htype⟩
  rw [shapes?_append, hxs, hbefore, hzs, shapes?_cons, hparameter, hrest, hafter]
  rfl

end OfTokens

end Listing

end Vintage
