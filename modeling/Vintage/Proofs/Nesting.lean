import Vintage.Proofs.BracketPairs

/-!
# Brackets and the nesting of a text

Besides the three kinds of brackets two more marks open something: `#[` is closed by `]` and `${` by
a closing brace. `Nests` is the grammar of well-nested tokens over all five; it gives each opening
token the closing one that ends it. The stacks of the three kinds know nothing of the two further
marks, so a closing token that ends one of them is taken for the end of an open bracket, if there is
one.

Results:
* `Nests.pairsFrom_eq`: without a foreign mark the stack of a kind finds exactly its groups.
* `Nests.pairs_eq`: so it does if no foreign mark stands inside a group of the kind.
* `Nests.exists_borrowed`: otherwise a foreign mark's end is paired with a bracket.
* `linkBrackets_follows_iff`: the recorded partners follow the nesting iff no attribute stands
  inside square brackets and no `${` inside braces.
-/

namespace Vintage

/-! ## The grammar -/

/-- The kind of the token that closes what a token opens. -/
def Token.closedBy? (t : Token) : Option TokenKind :=
  match t.kind with
  | .openParen => some .closeParen
  | .openSquare | .attributeStart => some .closeSquare
  | .openBrace => some .closeBrace
  | .dollar => if t.text = "$\x7b" then some .closeBrace else none
  | _ => none

/-- The closing tokens. -/
def TokenKind.isCloser : TokenKind → Bool
  | .closeParen | .closeSquare | .closeBrace => true
  | _ => false

/-- An opening token and the position of the token that ends it. -/
structure Group where
  mark : Token
  opener : Nat
  closer : Nat
deriving DecidableEq, Repr

/-- The tokens from index `i` on are well nested, and these are their groups in the order in which
they end. -/
inductive Nests : (i : Nat) → List Token → List Group → Prop where
  | nil (i : Nat) : Nests i [] []
  | plain {i : Nat} {t : Token} {ts : List Token} {gs : List Group} (hopen : t.closedBy? = none)
      (hclose : t.kind.isCloser = false) (h : Nests (i + 1) ts gs) : Nests i (t :: ts) gs
  | group {i : Nat} {o c : Token} {inner rest : List Token} {inside after : List Group}
      (hclose : o.closedBy? = some c.kind) (hinner : Nests (i + 1) inner inside)
      (hrest : Nests (i + 1 + inner.length + 1) rest after) :
      Nests i (o :: (inner ++ c :: rest)) (inside ++ ⟨o, i, i + 1 + inner.length⟩ :: after)

/-- The group `g` stands inside the group `h`. -/
def Group.Inside (g h : Group) : Prop := h.opener < g.opener ∧ g.closer < h.closer

/-- The group is one of brackets of the kind. -/
def Group.OfKind (b : Bracket) (g : Group) : Prop := g.mark.kind = b.opener

instance (b : Bracket) : DecidablePred (Group.OfKind b) :=
  fun g => inferInstanceAs (Decidable (g.mark.kind = b.opener))

/-- The group ends like brackets of the kind but is opened by another mark. -/
def Group.Borrows (b : Bracket) (g : Group) : Prop :=
  g.mark.kind ≠ b.opener ∧ g.mark.closedBy? = some b.closer

/-- The two positions of a group. -/
def Group.pair (g : Group) : Nat × Nat := (g.opener, g.closer)

theorem closedBy?_of_opener {t : Token} {b : Bracket} (h : t.kind = b.opener) :
    t.closedBy? = some b.closer := by
  unfold Token.closedBy?
  rw [h]
  cases b <;> rfl

theorem kind_ne_opener {t : Token} (h : t.closedBy? = none) (b : Bracket) : t.kind ≠ b.opener := by
  intro hk
  rw [closedBy?_of_opener hk] at h
  cases h

theorem closer_of_opener {o c : Token} {b : Bracket} (ho : o.kind = b.opener)
    (h : o.closedBy? = some c.kind) : c.kind = b.closer := by
  rw [closedBy?_of_opener ho] at h
  exact (Option.some.inj h).symm

theorem isCloser_of_closedBy? {t : Token} {k : TokenKind} (h : t.closedBy? = some k) :
    k.isCloser = true := by
  unfold Token.closedBy? at h
  split at h
  · cases h; rfl
  · cases h; rfl
  · cases h; rfl
  · cases h; rfl
  · split at h
    · cases h; rfl
    · cases h
  · cases h

theorem not_isCloser_of_closedBy? {t : Token} {k : TokenKind} (h : t.closedBy? = some k) :
    t.kind.isCloser = false := by
  unfold Token.closedBy? at h
  split at h
  all_goals first | (rename_i hk; rw [hk]; rfl) | cases h

theorem isCloser_closer (b : Bracket) : b.closer.isCloser = true := by
  cases b <;> rfl

theorem isCloser_opener (b : Bracket) : b.opener.isCloser = false := by
  cases b <;> rfl

theorem ne_closer {k : TokenKind} (h : k.isCloser = false) (b : Bracket) : k ≠ b.closer := by
  rintro rfl
  rw [isCloser_closer] at h
  cases h

theorem ne_opener {k : TokenKind} (h : k.isCloser = true) (b : Bracket) : k ≠ b.opener := by
  rintro rfl
  rw [isCloser_opener] at h
  cases h

namespace Nests

variable {i : Nat} {ts : List Token} {gs : List Group}

/-! ## The groups of a nesting -/

theorem bounds (h : Nests i ts gs) {g : Group} (hg : g ∈ gs) :
    i ≤ g.opener ∧ g.opener < g.closer ∧ g.closer < i + ts.length := by
  induction h with
  | nil => cases hg
  | plain _ _ _ ih =>
    obtain ⟨h₁, h₂, h₃⟩ := ih hg
    rw [List.length_cons]
    exact ⟨by omega, h₂, by omega⟩
  | group _ _ _ ihinner ihrest =>
    simp only [List.length_cons, List.length_append]
    rcases List.mem_append.1 hg with hg | hg
    · obtain ⟨h₁, h₂, h₃⟩ := ihinner hg
      exact ⟨by omega, h₂, by omega⟩
    · rcases List.mem_cons.1 hg with rfl | hg
      · exact ⟨Nat.le_refl _, by simp only; omega, by simp only; omega⟩
      · obtain ⟨h₁, h₂, h₃⟩ := ihrest hg
        exact ⟨by omega, h₂, by omega⟩

theorem closers_ascend (h : Nests i ts gs) : gs.Pairwise fun g k => g.closer < k.closer := by
  induction h with
  | nil => exact List.Pairwise.nil
  | plain _ _ _ ih => exact ih
  | group _ hinner hrest ihinner ihrest =>
    refine List.pairwise_append.2 ⟨ihinner, List.pairwise_cons.2 ⟨?_, ihrest⟩, ?_⟩
    · intro g hg
      have := hrest.bounds hg
      simp only
      omega
    · intro g hg k hk
      have := hinner.bounds hg
      rcases List.mem_cons.1 hk with rfl | hk
      · simp only
        omega
      · have := hrest.bounds hk
        omega

/-- Two groups that end at the same token are the same. -/
theorem eq_of_closer_eq (h : Nests i ts gs) {g k : Group} (hg : g ∈ gs) (hk : k ∈ gs)
    (he : g.closer = k.closer) : g = k := by
  have hdiff : gs.Pairwise fun g k => g.closer ≠ k.closer :=
    h.closers_ascend.imp fun hlt => Nat.ne_of_lt hlt
  have : Std.Symm fun g k : Group => g.closer ≠ k.closer := ⟨fun _ _ hne => hne.symm⟩
  exact Classical.byContradiction fun hne => hdiff.forall hg hk hne he

/-- Every opening token has its group, and the group ends with the token that closes it. -/
theorem exists_group (h : Nests i ts gs) {j : Nat} {t : Token} (ht : ts[j]? = some t)
    (hopen : t.closedBy? ≠ none) : ∃ g ∈ gs, g.mark = t ∧ g.opener = i + j := by
  induction h generalizing j with
  | nil => simp at ht
  | @plain i u us gs hu _ _ ih =>
    cases j with
    | zero =>
      cases ht
      exact absurd hu hopen
    | succ j =>
      obtain ⟨g, hg, hmark, ho⟩ := ih ht
      exact ⟨g, hg, hmark, by omega⟩
  | @group i o c inner rest inside after hclose _ _ ihinner ihrest =>
    cases j with
    | zero =>
      cases ht
      exact ⟨_, List.mem_append_right _ List.mem_cons_self, rfl, rfl⟩
    | succ j =>
      rw [List.getElem?_cons_succ, List.getElem?_append] at ht
      split at ht
      · obtain ⟨g, hg, hmark, ho⟩ := ihinner ht
        exact ⟨g, List.mem_append_left _ hg, hmark, by omega⟩
      · obtain ⟨m, hm⟩ : ∃ m, j = inner.length + m := ⟨j - inner.length, by omega⟩
        rw [hm, Nat.add_sub_cancel_left] at ht
        cases m with
        | zero =>
          cases ht
          -- the token that ends the group opens nothing
          have hcloser := isCloser_of_closedBy? hclose
          obtain ⟨k, hk⟩ := Option.ne_none_iff_exists'.1 hopen
          rw [not_isCloser_of_closedBy? hk] at hcloser
          cases hcloser
        | succ m =>
          obtain ⟨g, hg, hmark, ho⟩ := ihrest ht
          exact ⟨g, List.mem_append_right _ (List.mem_cons_of_mem _ hg), hmark, by omega⟩

theorem closer_kind (h : Nests i ts gs) {g : Group} (hg : g ∈ gs) :
    (ts[g.closer - i]?).map Token.kind = g.mark.closedBy? := by
  induction h with
  | nil => cases hg
  | @plain i u us gs _ _ h ih =>
    have := h.bounds hg
    rw [List.getElem?_cons, if_neg (by omega), ← ih hg]
    congr 2
  | @group i o c inner rest inside after hclose hinner hrest ihinner ihrest =>
    rw [List.getElem?_cons]
    rcases List.mem_append.1 hg with hg | hg
    · have := hinner.bounds hg
      rw [if_neg (by omega), List.getElem?_append_left (by omega), ← ihinner hg]
      congr 2
    · rcases List.mem_cons.1 hg with rfl | hg
      · simp only
        rw [if_neg (by omega), List.getElem?_append_right (by omega),
          show i + 1 + inner.length - i - 1 - inner.length = 0 by omega, hclose]
        rfl
      · have := hrest.bounds hg
        rw [if_neg (by omega), List.getElem?_append_right (by omega), List.getElem?_cons,
          if_neg (by omega), ← ihrest hg]
        congr 2
        omega

/-! ## The stack of one kind -/

/-- The pairs that a kind of brackets has in a nesting. -/
def ownPairs (b : Bracket) (gs : List Group) : List (Nat × Nat) :=
  (gs.filter (Group.OfKind b)).map Group.pair

theorem ownPairs_append (b : Bracket) (gs ks : List Group) :
    ownPairs b (gs ++ ks) = ownPairs b gs ++ ownPairs b ks := by
  rw [ownPairs, List.filter_append, List.map_append]
  rfl

theorem ownPairs_cons_of_kind {b : Bracket} {g : Group} (hg : g.OfKind b) (gs : List Group) :
    ownPairs b (g :: gs) = g.pair :: ownPairs b gs := by
  rw [ownPairs, List.filter_cons_of_pos (by simpa using hg), List.map_cons]
  rfl

theorem ownPairs_cons_of_not {b : Bracket} {g : Group} (hg : ¬g.OfKind b) (gs : List Group) :
    ownPairs b (g :: gs) = ownPairs b gs := by
  rw [ownPairs, List.filter_cons_of_neg (by simpa using hg)]
  rfl

theorem mem_ownPairs {b : Bracket} {gs : List Group} {p : Nat × Nat} :
    p ∈ ownPairs b gs ↔ ∃ g ∈ gs, g.OfKind b ∧ g.pair = p := by
  simp [ownPairs, and_assoc]

/-- The step over a token that the kind neither opens nor closes with. -/
theorem pairsFrom_skip {b : Bracket} {t : Token} (ho : t.kind ≠ b.opener) (hc : t.kind ≠ b.closer)
    (i : Nat) (opened : List Nat) (rest : List Token) :
    b.pairsFrom i opened (t :: rest) = b.pairsFrom (i + 1) opened rest := by
  rw [Bracket.pairsFrom_cons, if_neg ho, if_neg hc]

theorem pairsFrom_open {b : Bracket} {t : Token} (ho : t.kind = b.opener) (i : Nat)
    (opened : List Nat) (rest : List Token) :
    b.pairsFrom i opened (t :: rest) = b.pairsFrom (i + 1) (i :: opened) rest := by
  rw [Bracket.pairsFrom_cons, if_pos ho]

theorem pairsFrom_close {b : Bracket} {t : Token} (hc : t.kind = b.closer) (i o : Nat)
    (opened : List Nat) (rest : List Token) :
    b.pairsFrom i (o :: opened) (t :: rest) = (o, i) :: b.pairsFrom (i + 1) opened rest := by
  rw [Bracket.pairsFrom_cons, if_neg (by rw [hc]; exact (b.opener_ne_closer b).symm), if_pos hc]

theorem pairsFrom_close_nil {b : Bracket} {t : Token} (hc : t.kind = b.closer) (i : Nat)
    (rest : List Token) :
    b.pairsFrom i [] (t :: rest) = b.pairsFrom (i + 1) [] rest := by
  rw [Bracket.pairsFrom_cons, if_neg (by rw [hc]; exact (b.opener_ne_closer b).symm), if_pos hc]

/-- The token that ends a group is of no interest to a kind that neither opens nor borrows it. -/
theorem closer_ne_of_not_borrows {b : Bracket} {o c : Token} {x y : Nat}
    (hclose : o.closedBy? = some c.kind) (hkind : o.kind ≠ b.opener)
    (hborrow : ¬Group.Borrows b ⟨o, x, y⟩) : c.kind ≠ b.closer := by
  intro hc
  exact hborrow ⟨hkind, by rw [← hc]; exact hclose⟩

/-- Without a foreign mark the stack of a kind finds exactly the groups of the kind, and it is
afterwards as it was before. -/
theorem pairsFrom_eq {b : Bracket} (h : Nests i ts gs) (hgs : ∀ g ∈ gs, ¬g.Borrows b)
    (opened : List Nat) (rest : List Token) :
    b.pairsFrom i opened (ts ++ rest) =
      ownPairs b gs ++ b.pairsFrom (i + ts.length) opened rest := by
  induction h generalizing opened rest with
  | nil => rfl
  | @plain i t ts gs hopen hclose _ ih =>
    have ho := kind_ne_opener hopen b
    rw [List.cons_append, pairsFrom_skip ho (ne_closer hclose b), ih hgs, List.length_cons,
      show i + 1 + ts.length = i + (ts.length + 1) by omega]
  | @group i o c inner us inside after hclose _ _ ihinner ihrest =>
    have hinside : ∀ g ∈ inside, ¬g.Borrows b := fun g hg => hgs g (List.mem_append_left _ hg)
    have hafter : ∀ g ∈ after, ¬g.Borrows b :=
      fun g hg => hgs g (List.mem_append_right _ (List.mem_cons_of_mem _ hg))
    have hself := hgs _ (List.mem_append_right inside List.mem_cons_self)
    have hlen : i + (o :: (inner ++ c :: us)).length = i + 1 + inner.length + 1 + us.length := by
      simp only [List.length_cons, List.length_append]
      omega
    rw [List.cons_append, List.append_assoc, List.cons_append, ownPairs_append, hlen]
    by_cases hkind : o.kind = b.opener
    · have hc := closer_of_opener hkind hclose
      rw [pairsFrom_open hkind, ihinner hinside, pairsFrom_close hc, ihrest hafter,
        ownPairs_cons_of_kind (g := ⟨o, i, i + 1 + inner.length⟩) hkind, List.append_assoc]
      rfl
    · have hc := closer_ne_of_not_borrows hclose hkind hself
      rw [pairsFrom_skip hkind (ne_closer (not_isCloser_of_closedBy? hclose) b), ihinner hinside,
        pairsFrom_skip (ne_opener (isCloser_of_closedBy? hclose) b) hc, ihrest hafter,
        ownPairs_cons_of_not (g := ⟨o, i, i + 1 + inner.length⟩) hkind, List.append_assoc]

/-! ## Foreign marks -/

/-- No foreign mark stands inside brackets of the kind. -/
def Unmixed (b : Bracket) (gs : List Group) : Prop :=
  ∀ g ∈ gs, ∀ k ∈ gs, g.OfKind b → k.Borrows b → ¬k.Inside g

/-- Groups side by side do not contain each other, so a group mixes its inside only with itself. -/
theorem unmixed_group_iff {b : Bracket} {inner rest : List Token} {inside after : List Group}
    {o : Token} (hinner : Nests (i + 1) inner inside)
    (hrest : Nests (i + 1 + inner.length + 1) rest after) :
    Unmixed b (inside ++ ⟨o, i, i + 1 + inner.length⟩ :: after) ↔
      Unmixed b inside ∧ Unmixed b after ∧ (o.kind = b.opener → ∀ k ∈ inside, ¬k.Borrows b) := by
  have hmem : ∀ g, g ∈ inside ++ ⟨o, i, i + 1 + inner.length⟩ :: after ↔
      g ∈ inside ∨ g = ⟨o, i, i + 1 + inner.length⟩ ∨ g ∈ after := by
    intro g
    rw [List.mem_append, List.mem_cons]
  constructor
  · intro h
    refine ⟨?_, ?_, ?_⟩
    · exact fun g hg k hk => h g ((hmem g).2 (Or.inl hg)) k ((hmem k).2 (Or.inl hk))
    · exact fun g hg k hk => h g ((hmem g).2 (Or.inr (Or.inr hg))) k
        ((hmem k).2 (Or.inr (Or.inr hk)))
    · intro ho k hk hborrow
      have hb := hinner.bounds hk
      refine h _ ((hmem _).2 (Or.inr (Or.inl rfl))) k ((hmem k).2 (Or.inl hk)) ho hborrow ?_
      exact ⟨by simp only; omega, by simp only; omega⟩
  · rintro ⟨h₁, h₂, h₃⟩ g hg k hk hkind hborrow ⟨hlow, hhigh⟩
    rcases (hmem g).1 hg with hg | rfl | hg
    · have hgb := hinner.bounds hg
      rcases (hmem k).1 hk with hk | rfl | hk
      · exact h₁ g hg k hk hkind hborrow ⟨hlow, hhigh⟩
      · simp only at hlow; omega
      · have hkb := hrest.bounds hk; omega
    · rcases (hmem k).1 hk with hk | rfl | hk
      · exact h₃ hkind k hk hborrow
      · exact hborrow.1 hkind
      · have hkb := hrest.bounds hk; simp only at hhigh; omega
    · have hgb := hrest.bounds hg
      rcases (hmem k).1 hk with hk | rfl | hk
      · have hkb := hinner.bounds hk; omega
      · simp only at hlow; omega
      · exact h₂ g hg k hk hkind hborrow ⟨hlow, hhigh⟩

/-- With an empty stack the end of a foreign mark does no harm. -/
theorem pairsFrom_nil_eq {b : Bracket} (h : Nests i ts gs) (hgs : Unmixed b gs)
    (rest : List Token) :
    b.pairsFrom i [] (ts ++ rest) = ownPairs b gs ++ b.pairsFrom (i + ts.length) [] rest := by
  induction h generalizing rest with
  | nil => rfl
  | @plain i t ts gs hopen hclose _ ih =>
    have ho := kind_ne_opener hopen b
    rw [List.cons_append, pairsFrom_skip ho (ne_closer hclose b), ih hgs, List.length_cons,
      show i + 1 + ts.length = i + (ts.length + 1) by omega]
  | @group i o c inner us inside after hclose hinner hrest ihinner ihrest =>
    obtain ⟨hinside, hafter, hself⟩ := (unmixed_group_iff hinner hrest).1 hgs
    have hlen : i + (o :: (inner ++ c :: us)).length = i + 1 + inner.length + 1 + us.length := by
      simp only [List.length_cons, List.length_append]
      omega
    rw [List.cons_append, List.append_assoc, List.cons_append, ownPairs_append, hlen]
    by_cases hkind : o.kind = b.opener
    · have hc := closer_of_opener hkind hclose
      rw [pairsFrom_open hkind, hinner.pairsFrom_eq (hself hkind), pairsFrom_close hc,
        ihrest hafter, ownPairs_cons_of_kind (g := ⟨o, i, i + 1 + inner.length⟩) hkind,
        List.append_assoc]
      rfl
    · rw [pairsFrom_skip hkind (ne_closer (not_isCloser_of_closedBy? hclose) b), ihinner hinside,
        ownPairs_cons_of_not (g := ⟨o, i, i + 1 + inner.length⟩) hkind, List.append_assoc]
      by_cases hc : c.kind = b.closer
      · rw [pairsFrom_close_nil hc, ihrest hafter]
      · rw [pairsFrom_skip (ne_opener (isCloser_of_closedBy? hclose) b) hc, ihrest hafter]

/-- If no foreign mark stands inside brackets of a kind, the pairs of the kind are its groups. -/
theorem pairs_eq {b : Bracket} (h : Nests 0 ts gs) (hgs : Unmixed b gs) :
    b.pairs ts = ownPairs b gs := by
  have hrun := h.pairsFrom_nil_eq hgs []
  rw [List.append_nil] at hrun
  rw [Bracket.pairs, hrun]
  exact List.append_nil _

/-- With a bracket open, the first foreign mark that ends takes it. -/
theorem exists_borrowed_of_open {b : Bracket} (h : Nests i ts gs) (hgs : ∃ g ∈ gs, g.Borrows b)
    (top : Nat) (opened : List Nat) (rest : List Token) :
    ∃ g ∈ gs, g.Borrows b ∧ ∃ x, (x, g.closer) ∈ b.pairsFrom i (top :: opened) (ts ++ rest) := by
  induction h generalizing top opened rest with
  | nil =>
    obtain ⟨g, hg, -⟩ := hgs
    cases hg
  | @plain i t ts gs hopen hclose _ ih =>
    have ho := kind_ne_opener hopen b
    rw [List.cons_append, pairsFrom_skip ho (ne_closer hclose b)]
    exact ih hgs top opened rest
  | @group i o c inner us inside after hclose hinner _ ihinner ihrest =>
    have hskip := ne_closer (not_isCloser_of_closedBy? hclose) b
    rw [List.cons_append, List.append_assoc, List.cons_append]
    by_cases hin : ∃ g ∈ inside, g.Borrows b
    · have hleft : ∀ top' opened', ∃ g ∈ inside ++ ⟨o, i, i + 1 + inner.length⟩ :: after,
          g.Borrows b ∧ ∃ x, (x, g.closer) ∈
            b.pairsFrom (i + 1) (top' :: opened') (inner ++ c :: (us ++ rest)) := by
        intro top' opened'
        obtain ⟨g, hg, hrest⟩ := ihinner hin top' opened' (c :: (us ++ rest))
        exact ⟨g, List.mem_append_left _ hg, hrest⟩
      by_cases hkind : o.kind = b.opener
      · rw [pairsFrom_open hkind]
        exact hleft i (top :: opened)
      · rw [pairsFrom_skip hkind hskip]
        exact hleft top opened
    · have hinside : ∀ g ∈ inside, ¬g.Borrows b := fun g hg hb => hin ⟨g, hg, hb⟩
      -- the stack comes out of the inside as it went in
      have hright : ∀ (ps : List (Nat × Nat)), (∃ g ∈ after, g.Borrows b) →
          ∃ g ∈ inside ++ ⟨o, i, i + 1 + inner.length⟩ :: after, g.Borrows b ∧ ∃ x, (x, g.closer) ∈
            ps ++ b.pairsFrom (i + 1 + inner.length + 1) (top :: opened) (us ++ rest) := by
        intro ps hafter
        obtain ⟨g, hg, hb, x, hx⟩ := ihrest hafter top opened rest
        exact ⟨g, List.mem_append_right _ (List.mem_cons_of_mem _ hg), hb, x,
          List.mem_append_right _ hx⟩
      have hcases : Group.Borrows b ⟨o, i, i + 1 + inner.length⟩ ∨ ∃ g ∈ after, g.Borrows b := by
        obtain ⟨g, hg, hb⟩ := hgs
        rcases List.mem_append.1 hg with hg | hg
        · exact absurd hb (hinside g hg)
        · rcases List.mem_cons.1 hg with rfl | hg
          · exact Or.inl hb
          · exact Or.inr ⟨g, hg, hb⟩
      by_cases hkind : o.kind = b.opener
      · have hc := closer_of_opener hkind hclose
        rw [pairsFrom_open hkind, hinner.pairsFrom_eq hinside, pairsFrom_close hc,
          List.append_cons (ownPairs b inside)]
        exact hright _ (hcases.resolve_left fun hb => hb.1 hkind)
      · rw [pairsFrom_skip hkind hskip, hinner.pairsFrom_eq hinside]
        by_cases hc : c.kind = b.closer
        · rw [pairsFrom_close hc]
          refine ⟨_, List.mem_append_right _ List.mem_cons_self,
            ⟨hkind, by rw [← hc]; exact hclose⟩, top, ?_⟩
          exact List.mem_append_right _ List.mem_cons_self
        · rw [pairsFrom_skip (ne_opener (isCloser_of_closedBy? hclose) b) hc]
          refine hright _ (hcases.resolve_left fun hb => hc ?_)
          exact Option.some.inj (hclose.symm.trans hb.2)

/-- A foreign mark inside brackets of the kind: some foreign mark's end is paired with a bracket. -/
theorem exists_borrowed {b : Bracket} (h : Nests i ts gs) (hgs : ¬Unmixed b gs)
    (rest : List Token) :
    ∃ g ∈ gs, g.Borrows b ∧ ∃ x, (x, g.closer) ∈ b.pairsFrom i [] (ts ++ rest) := by
  induction h generalizing rest with
  | nil =>
    refine absurd ?_ hgs
    intro g hg
    cases hg
  | @plain i t ts gs hopen hclose _ ih =>
    have ho := kind_ne_opener hopen b
    rw [List.cons_append, pairsFrom_skip ho (ne_closer hclose b)]
    exact ih hgs rest
  | @group i o c inner us inside after hclose hinner hrest ihinner ihrest =>
    rw [unmixed_group_iff hinner hrest] at hgs
    rw [List.cons_append, List.append_assoc, List.cons_append]
    have hright : ∀ (ps : List (Nat × Nat)), ¬Unmixed b after →
        ∃ g ∈ inside ++ ⟨o, i, i + 1 + inner.length⟩ :: after, g.Borrows b ∧ ∃ x, (x, g.closer) ∈
          ps ++ b.pairsFrom (i + 1 + inner.length + 1) [] (us ++ rest) := by
      intro ps hafter
      obtain ⟨g, hg, hb, x, hx⟩ := ihrest hafter rest
      exact ⟨g, List.mem_append_right _ (List.mem_cons_of_mem _ hg), hb, x,
        List.mem_append_right _ hx⟩
    by_cases hkind : o.kind = b.opener
    · rw [pairsFrom_open hkind]
      by_cases hin : ∃ g ∈ inside, g.Borrows b
      · obtain ⟨g, hg, hb⟩ := hinner.exists_borrowed_of_open hin i [] (c :: (us ++ rest))
        exact ⟨g, List.mem_append_left _ hg, hb⟩
      · have hinside : ∀ g ∈ inside, ¬g.Borrows b := fun g hg hb => hin ⟨g, hg, hb⟩
        have hc := closer_of_opener hkind hclose
        rw [hinner.pairsFrom_eq hinside, pairsFrom_close hc,
          List.append_cons (ownPairs b inside)]
        refine hright _ fun hafter => hgs ⟨?_, hafter, fun _ => hinside⟩
        exact fun g hg k hk _ hb => absurd hb (hinside k hk)
    · rw [pairsFrom_skip hkind (ne_closer (not_isCloser_of_closedBy? hclose) b)]
      by_cases hin : Unmixed b inside
      · have hafter : ¬Unmixed b after := fun hafter => hgs ⟨hin, hafter, fun hk => absurd hk hkind⟩
        rw [hinner.pairsFrom_nil_eq hin]
        by_cases hc : c.kind = b.closer
        · rw [pairsFrom_close_nil hc]
          exact hright _ hafter
        · rw [pairsFrom_skip (ne_opener (isCloser_of_closedBy? hclose) b) hc]
          exact hright _ hafter
      · obtain ⟨g, hg, hb⟩ := ihinner hin (c :: (us ++ rest))
        exact ⟨g, List.mem_append_left _ hg, hb⟩

end Nests

/-! ## The recorded partners -/

theorem Group.not_borrows_round (g : Group) : ¬g.Borrows .round := by
  rintro ⟨hkind, hclose⟩
  unfold Token.closedBy? at hclose
  split at hclose
  · rename_i hk; exact hkind hk
  · cases hclose
  · cases hclose
  · cases hclose
  · split at hclose <;> cases hclose
  · cases hclose

theorem Group.borrows_square_iff (g : Group) :
    g.Borrows .square ↔ g.mark.kind = .attributeStart := by
  constructor
  · rintro ⟨hkind, hclose⟩
    unfold Token.closedBy? at hclose
    split at hclose
    · cases hclose
    · rename_i hk; exact absurd hk hkind
    · rename_i hk; exact hk
    · cases hclose
    · split at hclose <;> cases hclose
    · cases hclose
  · intro hk
    refine ⟨by rw [hk]; decide, ?_⟩
    rw [Token.closedBy?, hk]
    rfl

theorem Group.borrows_curly_iff (g : Group) :
    g.Borrows .curly ↔ g.mark.kind = .dollar ∧ g.mark.closedBy? ≠ none := by
  constructor
  · rintro ⟨hkind, hclose⟩
    refine ⟨?_, by rw [hclose]; exact Option.some_ne_none _⟩
    unfold Token.closedBy? at hclose
    split at hclose
    · cases hclose
    · cases hclose
    · cases hclose
    · rename_i hk; exact absurd hk hkind
    · rename_i hk; exact hk
    · cases hclose
  · rintro ⟨hk, hsome⟩
    refine ⟨by rw [hk]; decide, ?_⟩
    unfold Token.closedBy? at hsome ⊢
    rw [hk] at hsome ⊢
    simp only at hsome ⊢
    split at hsome
    · rename_i htext
      rw [if_pos htext]
      rfl
    · exact absurd rfl hsome

theorem Nests.closedBy?_ne_none {i : Nat} {ts : List Token} {gs : List Group} (h : Nests i ts gs)
    {g : Group} (hg : g ∈ gs) : g.mark.closedBy? ≠ none := by
  have hb := h.bounds hg
  have hlt : g.closer - i < ts.length := by omega
  rw [← h.closer_kind hg, List.getElem?_eq_getElem hlt]
  exact Option.some_ne_none _

/-- No attribute stands inside square brackets, and no `${` inside braces. -/
def MarksApart (gs : List Group) : Prop :=
  ∀ g ∈ gs, ∀ k ∈ gs, k.Inside g →
    ¬(g.mark.kind = .openSquare ∧ k.mark.kind = .attributeStart) ∧
      ¬(g.mark.kind = .openBrace ∧ k.mark.kind = .dollar)

theorem Nests.marksApart_iff {ts : List Token} {gs : List Group} (h : Nests 0 ts gs) :
    MarksApart gs ↔ ∀ b, Nests.Unmixed b gs := by
  constructor
  · intro hgs b g hg k hk hkind hborrow hin
    obtain ⟨hsquare, hcurly⟩ := hgs g hg k hk hin
    cases b with
    | round => exact k.not_borrows_round hborrow
    | square => exact hsquare ⟨hkind, k.borrows_square_iff.1 hborrow⟩
    | curly => exact hcurly ⟨hkind, (k.borrows_curly_iff.1 hborrow).1⟩
  · intro hgs g hg k hk hin
    constructor
    · rintro ⟨hkind, hmark⟩
      exact hgs .square g hg k hk hkind (k.borrows_square_iff.2 hmark) hin
    · rintro ⟨hkind, hmark⟩
      exact hgs .curly g hg k hk hkind
        (k.borrows_curly_iff.2 ⟨hmark, h.closedBy?_ne_none hk⟩) hin

theorem partnerOf_linkBrackets {ts : List Token} (hts : ∀ t ∈ ts, t.partner = none) (j m : Nat) :
    partnerOf (linkBrackets ts.toArray) j = some m ↔
      ∃ b : Bracket, (j, m) ∈ b.pairs ts ∨ (m, j) ∈ b.pairs ts := by
  have hmate := mate?_eq_some_iff (bracketPairs_separate ts) (fun _ => lt_of_mem_bracketPairs) j m
  have hexists : (∃ b : Bracket, (j, m) ∈ b.pairs ts ∨ (m, j) ∈ b.pairs ts) ↔
      mate? (bracketPairs ts) j = some m := by
    rw [hmate, mem_bracketPairs, mem_bracketPairs]
    exact exists_or
  rw [hexists, partnerOf, linkBrackets_getElem?]
  cases ht : ts.toArray[j]? with
  | some t =>
    have hnone : t.partner = none := hts t (List.mem_of_getElem? (by simpa using ht))
    rw [Option.map_some, Option.bind_some, hnone, Option.or_none]
  | none =>
    -- there is no token, so it has no mate
    refine ⟨nofun, fun he => ?_⟩
    obtain ⟨b, hb⟩ := hexists.2 he
    have hj : ts[j]? = none := by simpa using ht
    rcases hb with hb | hb
    · have hk := (b.kind_of_mem_pairs hb).2.1
      rw [hj] at hk
      cases hk
    · have hk := (b.kind_of_mem_pairs hb).2.2
      rw [hj] at hk
      cases hk

/-- The recorded partners follow the nesting: every bracket has the token that ends its group as
partner, and a token that ends another group has none. -/
structure FollowsNesting (ts : List Token) (gs : List Group) : Prop where
  brackets : ∀ j t, ts[j]? = some t → (∃ b : Bracket, t.kind = b.opener) →
    ∃ g ∈ gs, g.opener = j ∧ partnerOf (linkBrackets ts.toArray) j = some g.closer ∧
      partnerOf (linkBrackets ts.toArray) g.closer = some j
  others : ∀ g ∈ gs, (∀ b : Bracket, g.mark.kind ≠ b.opener) →
    partnerOf (linkBrackets ts.toArray) g.closer = none

/-- A group that borrows a closing bracket is not one of brackets itself. -/
theorem Group.kind_ne_of_borrows {g : Group} {b : Bracket} (h : g.Borrows b) (b' : Bracket) :
    g.mark.kind ≠ b'.opener := by
  intro hk
  have hcloser := (closedBy?_of_opener hk).symm.trans h.2
  rw [Bracket.closer_inj (Option.some.inj hcloser)] at hk
  exact h.1 hk

theorem FollowsNesting.unmixed {ts : List Token} {gs : List Group}
    (hfollow : FollowsNesting ts gs) (hts : ∀ t ∈ ts, t.partner = none) (h : Nests 0 ts gs)
    (b : Bracket) : Nests.Unmixed b gs := by
  refine Classical.byContradiction fun hmix => ?_
  obtain ⟨g, hg, hborrow, x, hx⟩ := h.exists_borrowed hmix []
  rw [List.append_nil] at hx
  have hsome := (partnerOf_linkBrackets hts g.closer x).2 ⟨b, Or.inr hx⟩
  rw [hfollow.others g hg (Group.kind_ne_of_borrows hborrow)] at hsome
  cases hsome

/-- The end of a group opens nothing. -/
theorem Nests.closer_not_opener {ts : List Token} {gs : List Group} (h : Nests 0 ts gs) {g : Group}
    (hg : g ∈ gs) (b : Bracket) (m : Nat) : (g.closer, m) ∉ b.pairs ts := by
  intro hb
  have hk := (b.kind_of_mem_pairs hb).2.1
  have hclose := h.closer_kind hg
  rw [Nat.sub_zero, hk] at hclose
  have hcloser := isCloser_of_closedBy? hclose.symm
  rw [isCloser_opener] at hcloser
  cases hcloser

theorem followsNesting_of_unmixed {ts : List Token} {gs : List Group}
    (hts : ∀ t ∈ ts, t.partner = none) (h : Nests 0 ts gs)
    (hunmixed : ∀ b, Nests.Unmixed b gs) : FollowsNesting ts gs := by
  have hpairs : ∀ b : Bracket, b.pairs ts = Nests.ownPairs b gs :=
    fun b => h.pairs_eq (hunmixed b)
  constructor
  · rintro j t ht ⟨b, hk⟩
    obtain ⟨g, hg, rfl, ho⟩ := h.exists_group ht (by rw [closedBy?_of_opener hk]; simp)
    have hmem : (g.opener, g.closer) ∈ b.pairs ts := by
      rw [hpairs]
      exact Nests.mem_ownPairs.2 ⟨g, hg, hk, rfl⟩
    rw [show j = g.opener by omega]
    exact ⟨g, hg, rfl, (partnerOf_linkBrackets hts _ _).2 ⟨b, Or.inl hmem⟩,
      (partnerOf_linkBrackets hts _ _).2 ⟨b, Or.inr hmem⟩⟩
  · intro g hg hother
    refine Option.eq_none_iff_forall_ne_some.2 fun m hm => ?_
    obtain ⟨b, hb⟩ := (partnerOf_linkBrackets hts g.closer m).1 hm
    rcases hb with hb | hb
    · exact h.closer_not_opener hg b m hb
    · rw [hpairs] at hb
      obtain ⟨k, hk, hkind, hpair⟩ := Nests.mem_ownPairs.1 hb
      have hsame : k = g := h.eq_of_closer_eq hk hg (congrArg Prod.snd hpair)
      rw [hsame] at hkind
      exact hother b hkind

/-- The partners of well-nested tokens follow the nesting iff no attribute stands inside square
brackets and no `${` inside braces. -/
theorem linkBrackets_follows_iff {ts : List Token} {gs : List Group}
    (hts : ∀ t ∈ ts, t.partner = none) (h : Nests 0 ts gs) :
    FollowsNesting ts gs ↔ MarksApart gs := by
  rw [h.marksApart_iff]
  constructor
  · intro hfollow
    exact hfollow.unmixed hts h
  · intro hunmixed
    exact followsNesting_of_unmixed hts h hunmixed

/-- In `#[()][{}]` the attribute stands beside the square brackets, and all partners are right. -/
theorem linkBrackets_follows_beside :
    let token (kind : TokenKind) (text : String) : Token := { kind, text, line := 1, column := 1 }
    let ts := [token .attributeStart "#[", token .openParen "(", token .closeParen ")",
      token .closeSquare "]", token .openSquare "[", token .openBrace "\x7b",
      token .closeBrace "\x7d", token .closeSquare "]"]
    let gs : List Group := [⟨token .openParen "(", 1, 2⟩, ⟨token .attributeStart "#[", 0, 3⟩,
      ⟨token .openBrace "\x7b", 5, 6⟩, ⟨token .openSquare "[", 4, 7⟩]
    (∀ t ∈ ts, t.partner = none) ∧ Nests 0 ts gs ∧ FollowsNesting ts gs := by
  intro token ts gs
  have hts : ∀ t ∈ ts, t.partner = none := by decide
  have hround : Nests 1 [token .openParen "(", token .closeParen ")"]
      [⟨token .openParen "(", 1, 2⟩] := Nests.group rfl (Nests.nil 2) (Nests.nil 3)
  have hcurly : Nests 5 [token .openBrace "\x7b", token .closeBrace "\x7d"]
      [⟨token .openBrace "\x7b", 5, 6⟩] := Nests.group rfl (Nests.nil 6) (Nests.nil 7)
  have hsquare := Nests.group (o := token .openSquare "[") (c := token .closeSquare "]") rfl hcurly
    (Nests.nil 8)
  have h : Nests 0 ts gs :=
    Nests.group (o := token .attributeStart "#[") (c := token .closeSquare "]") rfl hround hsquare
  have hgs : MarksApart gs := by
    unfold MarksApart Group.Inside
    decide
  exact ⟨hts, h, (linkBrackets_follows_iff hts h).2 hgs⟩

/-- In `[#[]]` the bracket that opens gets the end of the attribute as its partner. -/
theorem attribute_takes_partner :
    let token (kind : TokenKind) (text : String) : Token := { kind, text, line := 1, column := 1 }
    let ts := [token .openSquare "[", token .attributeStart "#[", token .closeSquare "]",
      token .closeSquare "]"]
    let gs : List Group := [⟨token .attributeStart "#[", 1, 2⟩, ⟨token .openSquare "[", 0, 3⟩]
    (∀ t ∈ ts, t.partner = none) ∧ Nests 0 ts gs ∧ partnerOf (linkBrackets ts.toArray) 0 = some 2 ∧
      ¬FollowsNesting ts gs := by
  intro token ts gs
  have hattribute : Nests 1 [token .attributeStart "#[", token .closeSquare "]"]
      [⟨token .attributeStart "#[", 1, 2⟩] := Nests.group rfl (Nests.nil 2) (Nests.nil 3)
  have h : Nests 0 ts gs :=
    Nests.group (o := token .openSquare "[") (c := token .closeSquare "]") rfl hattribute
      (Nests.nil 4)
  refine ⟨by decide, h, by decide, fun hfollow => ?_⟩
  have hnone := hfollow.others ⟨token .attributeStart "#[", 1, 2⟩ List.mem_cons_self
    (fun b => by cases b <;> decide)
  exact absurd hnone (by decide)

end Vintage
