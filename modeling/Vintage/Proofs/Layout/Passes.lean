import Vintage.Proofs.Layout.Embedding
import Vintage.Proofs.Surroundings

/-!
# The structure of tokens without layout

The passes over the tokens of a text look at significant tokens only. So they give the same
structure when the layout is left out first, up to the numbers of the tokens.

Results:
* `sourceIndex`: the position of the `k`-th significant token.
* `settleFrom_filter`: names are settled in the same way.
* `Embeds.linkBrackets`, `Embeds.ownParens`, `Embeds.scopes`: brackets, owners and scopes
  correspond.
* `embeds_withStructure`: all passes together.
-/

namespace Vintage

/-! ## Leaving out layout -/

/-- The position of the `k`-th significant token, counted from zero. Numbers after the last one go
on from the end of the list. -/
def sourceIndex : List Token → Nat → Nat
  | [], k => k
  | t :: ts, k =>
    if t.isSignificant then
      match k with
      | 0 => 0
      | k + 1 => sourceIndex ts k + 1
    else sourceIndex ts k + 1

section

variable {t : Token} {ts : List Token}

theorem sourceIndex_zero (ht : t.isSignificant = true) : sourceIndex (t :: ts) 0 = 0 := by
  simp [sourceIndex, ht]

theorem sourceIndex_succ (ht : t.isSignificant = true) (k : Nat) :
    sourceIndex (t :: ts) (k + 1) = sourceIndex ts k + 1 := by
  simp [sourceIndex, ht]

theorem sourceIndex_layout (ht : ¬ t.isSignificant = true) (k : Nat) :
    sourceIndex (t :: ts) k = sourceIndex ts k + 1 := by
  simp [sourceIndex, ht]

end

theorem sourceIndex_strictMono (ts : List Token) : StrictMono (sourceIndex ts) := by
  induction ts with
  | nil => exact fun _ _ h => h
  | cons t ts ih =>
    intro j k hjk
    by_cases ht : t.isSignificant = true
    · obtain ⟨k, rfl⟩ : ∃ m, k = m + 1 := ⟨k - 1, by omega⟩
      rw [sourceIndex_succ ht]
      cases j with
      | zero =>
        rw [sourceIndex_zero ht]
        exact Nat.zero_lt_succ _
      | succ j =>
        rw [sourceIndex_succ ht]
        exact Nat.succ_lt_succ (ih (by omega))
    · rw [sourceIndex_layout ht, sourceIndex_layout ht]
      exact Nat.succ_lt_succ (ih hjk)

theorem getElem?_sourceIndex (ts : List Token) (k : Nat) :
    ts[sourceIndex ts k]? = (ts.filter Token.isSignificant)[k]? := by
  induction ts generalizing k with
  | nil => rfl
  | cons t ts ih =>
    by_cases ht : t.isSignificant = true
    · rw [List.filter_cons_of_pos ht]
      cases k with
      | zero => rw [sourceIndex_zero ht, List.getElem?_cons_zero, List.getElem?_cons_zero]
      | succ k => rw [sourceIndex_succ ht, List.getElem?_cons_succ, List.getElem?_cons_succ, ih]
    · rw [List.filter_cons_of_neg ht, sourceIndex_layout ht, List.getElem?_cons_succ, ih]

theorem sourceIndex_length (ts : List Token) :
    sourceIndex ts (ts.filter Token.isSignificant).length = ts.length := by
  induction ts with
  | nil => rfl
  | cons t ts ih =>
    rw [List.length_cons]
    by_cases ht : t.isSignificant = true
    · rw [List.filter_cons_of_pos ht, List.length_cons, sourceIndex_succ ht, ih]
    · rw [List.filter_cons_of_neg ht, sourceIndex_layout ht, ih]

/-- What is left out is layout. -/
theorem layout_of_forall_ne {ts : List Token} {i : Nat} (h : ∀ k, sourceIndex ts k ≠ i) :
    ∃ t, ts[i]? = some t ∧ t.isSignificant = false := by
  induction ts generalizing i with
  | nil => exact absurd rfl (h i)
  | cons t ts ih =>
    by_cases ht : t.isSignificant = true
    · cases i with
      | zero => exact absurd (sourceIndex_zero ht) (h 0)
      | succ i => exact ih fun k hk => h (k + 1) (by rw [sourceIndex_succ ht, hk])
    · cases i with
      | zero => exact ⟨t, rfl, by simpa using ht⟩
      | succ i => exact ih fun k hk => h k (by rw [sourceIndex_layout ht, hk])

/-- The positions depend on what is layout only. -/
theorem sourceIndex_congr {ts us : List Token}
    (h : ts.map Token.isSignificant = us.map Token.isSignificant) :
    sourceIndex ts = sourceIndex us := by
  induction ts generalizing us with
  | nil =>
    rw [List.map_nil, eq_comm, List.map_eq_nil_iff] at h
    rw [h]
  | cons t ts ih =>
    cases us with
    | nil => cases h
    | cons u us =>
      rw [List.map_cons, List.map_cons, List.cons.injEq] at h
      funext k
      unfold sourceIndex
      rw [h.1, ih h.2]

/-- Nothing is known of the structure around the token yet. -/
structure Token.Bare (t : Token) : Prop where
  partner : t.partner = none
  parenOwner : t.parenOwner = none
  scope : t.scope = none
  owners : t.owners = []

instance (t : Token) : Decidable t.Bare :=
  decidable_of_iff (t.partner = none ∧ t.parenOwner = none ∧ t.scope = none ∧ t.owners = [])
    ⟨fun ⟨hpartner, hparen, hscope, howners⟩ => ⟨hpartner, hparen, hscope, howners⟩,
      fun h => ⟨h.partner, h.parenOwner, h.scope, h.owners⟩⟩

theorem Token.Bare.reindex {t : Token} (h : t.Bare) (pos : Nat → Nat) : t.reindex pos = t := by
  obtain ⟨kind, text, line, column, partner, parenOwner, scope, owners⟩ := t
  obtain ⟨rfl, rfl, rfl, rfl⟩ := h
  rfl

/-- The significant tokens of a list stand in it. -/
theorem embeds_filter {ts : List Token} (h : ∀ t ∈ ts, t.Bare) :
    Embeds (sourceIndex ts) (ts.filter Token.isSignificant).toArray ts.toArray where
  strictMono := sourceIndex_strictMono ts
  size := sourceIndex_length ts
  get? k := by
    rw [List.getElem?_toArray, List.getElem?_toArray, getElem?_sourceIndex]
    cases ht : (ts.filter Token.isSignificant)[k]? with
    | none => rfl
    | some t =>
      have hmem := List.mem_of_mem_filter (List.mem_of_getElem? ht)
      rw [Option.map_some, (h t hmem).reindex]
  significant k t ht := by
    rw [List.getElem?_toArray] at ht
    exact List.of_mem_filter (List.mem_of_getElem? ht)
  layout i hi := by
    rw [List.getElem?_toArray]
    exact layout_of_forall_ne hi

/-! ## Names -/

theorem isLayout_settledKind (b : Before) (next : Option TokenKind) {kind : TokenKind}
    (h : (kind.isReserved || kind == .magicConstant) = true) :
    (settledKind b next kind).isLayout = false ∧ kind.isLayout = false := by
  have hkind : kind.isLayout = false := by
    cases kind <;> first | rfl | cases h
  refine ⟨?_, hkind⟩
  unfold settledKind
  repeat' split
  all_goals first | rfl | exact hkind

theorem find?_filter_isSignificant (ts : List Token) :
    (ts.filter Token.isSignificant).find? Token.isSignificant = ts.find? Token.isSignificant := by
  rw [List.find?_filter]
  simp

/-- The kind that a token gets when names are settled. -/
def settledAt (b : Before) (t : Token) (ts : List Token) : TokenKind :=
  if t.kind.isReserved || t.kind == .magicConstant then
    settledKind b ((ts.find? Token.isSignificant).map Token.kind) t.kind
  else t.kind

theorem settleFrom_cons (b : Before) (t : Token) (ts : List Token) :
    settleFrom b (t :: ts) =
      { t with kind := settledAt b t ts } :: settleFrom (b.push (settledAt b t ts)) ts := rfl

theorem isLayout_settledAt (b : Before) (t : Token) (ts : List Token) :
    (settledAt b t ts).isLayout = t.kind.isLayout := by
  unfold settledAt
  split
  · rename_i h
    obtain ⟨h₁, h₂⟩ := isLayout_settledKind b ((ts.find? Token.isSignificant).map Token.kind) h
    rw [h₁, h₂]
  · rfl

/-- Layout has no say in which keywords are names. -/
theorem settleFrom_filter (b : Before) (ts : List Token) :
    settleFrom b (ts.filter Token.isSignificant) =
      (settleFrom b ts).filter Token.isSignificant := by
  induction ts generalizing b with
  | nil => rfl
  | cons t ts ih =>
    have hlayout := isLayout_settledAt b t ts
    rw [settleFrom_cons]
    by_cases ht : t.isSignificant = true
    · have hsame : settledAt b t (ts.filter Token.isSignificant) = settledAt b t ts := by
        unfold settledAt
        rw [find?_filter_isSignificant]
      have hsig : Token.isSignificant { t with kind := settledAt b t ts } = true := by
        unfold Token.isSignificant at ht ⊢
        rw [hlayout]
        exact ht
      rw [List.filter_cons_of_pos ht, List.filter_cons_of_pos hsig, settleFrom_cons, hsame, ih]
    · have hsig : ¬ Token.isSignificant { t with kind := settledAt b t ts } = true := by
        unfold Token.isSignificant at ht ⊢
        rw [hlayout]
        exact ht
      have hkind : (settledAt b t ts).isLayout = true := by
        rw [hlayout]
        simpa [Token.isSignificant] using ht
      rw [List.filter_cons_of_neg ht, List.filter_cons_of_neg hsig, ih, Before.push, if_pos hkind]

theorem map_isSignificant_settleFrom (b : Before) (ts : List Token) :
    (settleFrom b ts).map Token.isSignificant = ts.map Token.isSignificant := by
  induction ts generalizing b with
  | nil => rfl
  | cons t ts ih =>
    rw [settleFrom_cons, List.map_cons, List.map_cons, ih, Token.isSignificant, Token.isSignificant,
      isLayout_settledAt]

theorem bare_settleNames {ts : List Token} (h : ∀ t ∈ ts, t.Bare) :
    ∀ t ∈ settleNames ts, t.Bare := by
  intro t ht
  obtain ⟨u, hu, he, -⟩ := mem_settleFrom ht
  have hbare := h u hu
  rw [he]
  exact ⟨hbare.partner, hbare.parenOwner, hbare.scope, hbare.owners⟩

theorem embeds_settleNames {ts : List Token} (h : ∀ t ∈ ts, t.Bare) :
    Embeds (sourceIndex ts) (settleNames (ts.filter Token.isSignificant)).toArray
      (settleNames ts).toArray := by
  have hembeds := embeds_filter (bare_settleNames h)
  rw [settleNames, ← settleFrom_filter,
    sourceIndex_congr (map_isSignificant_settleFrom {} ts)] at hembeds
  exact hembeds

/-! ## Brackets -/

namespace Embeds

variable {pos : Nat → Nat} {ts' ts : Array Token}

/-- A token and its copy are changed in the same way, and no kind changes. -/
theorem update {us' us : Array Token} (h : Embeds pos ts' ts) {f' f : Nat → Token → Token}
    (hus' : ∀ k : Nat, us'[k]? = ts'[k]?.map (f' k)) (hus : ∀ i : Nat, us[i]? = ts[i]?.map (f i))
    (hkind' : ∀ k t, (f' k t).kind = t.kind) (hkind : ∀ i t, (f i t).kind = t.kind)
    (hf : ∀ k t, f (pos k) (t.reindex pos) = (f' k t).reindex pos) : Embeds pos us' us where
  strictMono := h.strictMono
  size := by rw [size_eq_of_getElem?_map hus', size_eq_of_getElem?_map hus, h.size]
  get? k := by
    rw [hus, hus', h.get?, Option.map_map, Option.map_map]
    congr 1
    funext t
    exact hf k t
  significant k t ht := by
    rw [hus', Option.map_eq_some_iff] at ht
    obtain ⟨u, hu, rfl⟩ := ht
    rw [Token.isSignificant, hkind']
    exact h.significant k u hu
  layout i hi := by
    obtain ⟨t, ht, hlayout⟩ := h.layout i hi
    refine ⟨f i t, by rw [hus, ht, Option.map_some], ?_⟩
    rw [Token.isSignificant, hkind]
    exact hlayout

theorem isSignificant_of_opener (b : Bracket) {t : Token} (h : t.kind = b.opener) :
    t.isSignificant = true := by
  rw [Token.isSignificant, h]
  cases b <;> rfl

theorem isSignificant_of_closer (b : Bracket) {t : Token} (h : t.kind = b.closer) :
    t.isSignificant = true := by
  rw [Token.isSignificant, h]
  cases b <;> rfl

theorem pairsFrom (h : Embeds pos ts' ts) (b : Bracket) {n i n' i' : Nat} (hi : Splits pos i i')
    (hn : Splits pos (i + n) (i' + n')) (opened : List Nat) :
    b.pairsFrom i (opened.map pos) (segment ts n i) =
      (b.pairsFrom i' opened (segment ts' n' i')).map (Prod.map pos pos) := by
  refine h.walkUp (motive := fun n i n' i' => ∀ opened : List Nat,
    b.pairsFrom i (opened.map pos) (segment ts n i) =
      (b.pairsFrom i' opened (segment ts' n' i')).map (Prod.map pos pos)) ?_ ?_ ?_ hi hn opened
  · intro i i' _ opened
    rw [segment_zero, segment_zero]
    rfl
  · intro n i n' i' t ht hlayout _ ih opened
    have hopen : t.kind ≠ b.opener := fun he => by
      rw [isSignificant_of_opener b he] at hlayout
      cases hlayout
    have hclose : t.kind ≠ b.closer := fun he => by
      rw [isSignificant_of_closer b he] at hlayout
      cases hlayout
    rw [segment_of_some ht, Bracket.pairsFrom_cons, if_neg hopen, if_neg hclose]
    exact ih opened
  · intro n n' i' _ ih opened
    have hget := h.get? i'
    cases ht : ts'[i']? with
    | none =>
      rw [ht, Option.map_none] at hget
      rw [segment_of_none hget, segment_of_none ht]
      rfl
    | some t =>
      rw [ht, Option.map_some] at hget
      rw [segment_of_some hget, segment_of_some ht, Bracket.pairsFrom_cons, Bracket.pairsFrom_cons]
      by_cases hopen : t.kind = b.opener
      · rw [if_pos hopen, if_pos (show (t.reindex pos).kind = b.opener from hopen)]
        exact ih (i' :: opened)
      · rw [if_neg hopen, if_neg (show ¬ (t.reindex pos).kind = b.opener from hopen)]
        by_cases hclose : t.kind = b.closer
        · rw [if_pos hclose, if_pos (show (t.reindex pos).kind = b.closer from hclose)]
          cases opened with
          | nil => exact ih []
          | cons o opened => exact congrArg ((pos o, pos i') :: ·) (ih opened)
        · rw [if_neg hclose, if_neg (show ¬ (t.reindex pos).kind = b.closer from hclose)]
          exact ih opened

/-- The pairs of brackets correspond. -/
theorem pairs (h : Embeds pos ts' ts) (b : Bracket) :
    b.pairs ts.toList = (b.pairs ts'.toList).map (Prod.map pos pos) := by
  have hn : Splits pos (0 + ts.size) (0 + ts'.size) := by
    rw [Nat.zero_add, Nat.zero_add]
    exact h.splits_size
  have hpairs := h.pairsFrom b (Splits.zero pos) hn []
  rw [segment_all, segment_all] at hpairs
  exact hpairs

theorem mate? (h : StrictMono pos) (ps : List (Nat × Nat)) (k : Nat) :
    Vintage.mate? (ps.map (Prod.map pos pos)) (pos k) = (Vintage.mate? ps k).map pos := by
  unfold Vintage.mate?
  rw [List.findSome?_map, List.map_findSome?]
  congr 1
  funext p
  simp only [Function.comp_apply, otherOf, Prod.map_fst, Prod.map_snd, h.injective.eq_iff]
  repeat' split
  all_goals rfl

/-- The partners of brackets correspond. -/
theorem linkBrackets (h : Embeds pos ts' ts) :
    Embeds pos (linkBrackets ts') (linkBrackets ts) := by
  refine h.update (linkBrackets_getElem? ts') (linkBrackets_getElem? ts) (fun _ _ => rfl)
    (fun _ _ => rfl) fun k t => ?_
  have hpairs : bracketPairs ts.toList = (bracketPairs ts'.toList).map (Prod.map pos pos) := by
    unfold bracketPairs
    rw [h.pairs, h.pairs, h.pairs, List.map_append, List.map_append]
  have hpartner : (Vintage.mate? (bracketPairs ts.toList) (pos k)).or (t.partner.map pos) =
      ((Vintage.mate? (bracketPairs ts'.toList) k).or t.partner).map pos := by
    rw [hpairs, mate? h.strictMono, Option.map_or]
  unfold Token.reindex
  rw [hpartner]

/-! ## Owners of parentheses -/

theorem significantBefore? (h : Embeds pos ts' ts) {i i' : Nat} (hi : Splits pos i i') :
    significantBefore? ts i = (significantBefore? ts' i').map pos := by
  refine h.walkDown (motive := fun i i' =>
    Vintage.significantBefore? ts i = (Vintage.significantBefore? ts' i').map pos) rfl ?_ ?_ hi
  · intro i i' t ht hlayout ih
    rw [Vintage.significantBefore?, Thins.any_layout selects_isSignificant ht hlayout]
    exact ih
  · intro k ih
    rw [Vintage.significantBefore?, Vintage.significantBefore?, h.any_get? selects_isSignificant]
    split
    · rfl
    · exact ih

theorem any_kind (h : Embeds pos ts' ts) (q : TokenKind → Bool) (k : Nat) :
    (ts[pos k]?.any fun t => q t.kind) = ts'[k]?.any fun t => q t.kind := by
  rw [h.get?]
  cases ts'[k]? <;> rfl

theorem parenOwnerAt? (h : Embeds pos ts' ts) (k : Nat) :
    parenOwnerAt? ts (pos k) = (parenOwnerAt? ts' k).map pos := by
  unfold Vintage.parenOwnerAt?
  rw [h.significantBefore? (Splits.before h.strictMono k)]
  cases Vintage.significantBefore? ts' k with
  | none => rfl
  | some p =>
    simp only [Option.map_some, h.any_kind]
    split <;> rfl

/-- The owners of parentheses correspond. -/
theorem ownParens (h : Embeds pos ts' ts) : Embeds pos (ownParens ts') (ownParens ts) := by
  refine h.update (ownParens_getElem? ts') (ownParens_getElem? ts) (fun _ _ => rfl)
    (fun _ _ => rfl) fun k t => ?_
  have howner : parenOwnerOf? ts (pos k) (t.reindex pos) = (parenOwnerOf? ts' k t).map pos := by
    obtain ⟨kind, text, line, column, partner, parenOwner, scope, owners⟩ := t
    cases kind <;> first
      | rfl
      | exact h.parenOwnerAt? k
      | (cases partner <;> first | rfl | exact h.parenOwnerAt? _)
  simp only [Token.reindex] at howner ⊢
  rw [howner]

/-! ## Scopes -/

/-- Layout neither ends the search for an owner nor owns a block. -/
theorem not_owner_of_layout {kind : TokenKind} (h : kind.isLayout = true) :
    endsOwnerSearch kind = false ∧ kind ≠ .closeParen ∧ kind.ownsScope = false := by
  cases kind <;> first | decide | cases h

/-- The owners of blocks correspond. -/
theorem scopeOwner? (h : Embeds pos ts' ts) (taken : List Nat) {resume resume' i i' : Nat}
    (hresume : Splits pos resume resume') (hi : Splits pos i i') :
    scopeOwner? ts (taken.map pos) resume i = (scopeOwner? ts' taken resume' i').map pos := by
  refine h.walkDown (motive := fun i i' => ∀ resume resume', Splits pos resume resume' →
    Vintage.scopeOwner? ts (taken.map pos) resume i =
      (Vintage.scopeOwner? ts' taken resume' i').map pos) (fun _ _ _ => rfl) ?_ ?_ hi
    resume resume' hresume
  · intro i i' t ht hlayout ih resume resume' hresume
    obtain ⟨hends, hparen, howns⟩ := not_owner_of_layout (Token.isLayout_of_not_significant hlayout)
    rw [Vintage.scopeOwner?, ht]
    simp only [hends, hparen, howns, Bool.false_and, Bool.false_eq_true, if_false, ite_self]
    exact ih resume resume' hresume
  · intro k ih resume resume' hresume
    rw [Vintage.scopeOwner?, Vintage.scopeOwner?, h.get?]
    have hpassed : resume ≤ pos k ↔ resume' ≤ k := by
      have := hresume k
      omega
    have htaken : (taken.map pos).contains (pos k) = taken.contains k := by
      simp only [List.contains_eq_mem, List.mem_map_of_injective h.strictMono.injective]
    simp only [hpassed]
    split
    · exact ih resume resume' hresume
    · cases ts'[k]? with
      | none => rfl
      | some t =>
        simp only [Option.map_some, Token.reindex, htaken]
        split
        · rfl
        · split
          · cases t.partner with
            | none => rfl
            | some o => exact ih (pos o) o (Splits.before h.strictMono o)
          · split
            · rfl
            · exact ih resume resume' hresume

theorem findFrom (h : Embeds pos ts' ts) (taken : List Nat) (ps : List (Nat × Nat)) :
    Scope.findFrom ts (taken.map pos) (ps.map (Prod.map pos pos)) =
      (Scope.findFrom ts' taken ps).map (Scope.reindex pos) := by
  induction ps generalizing taken with
  | nil => rfl
  | cons p ps ih =>
    have hopener := Splits.before h.strictMono p.1
    rw [List.map_cons, Prod.map_def, Scope.findFrom, Scope.findFrom,
      h.scopeOwner? taken hopener hopener]
    cases Vintage.scopeOwner? ts' taken p.1 p.1 with
    | none => exact ih taken
    | some owner => exact congrArg (_ :: ·) (ih (owner :: taken))

theorem openedBraces (h : Embeds pos ts' ts) :
    openedBraces ts = (openedBraces ts').map (Prod.map pos pos) := by
  unfold Vintage.openedBraces
  rw [h.pairs]
  refine (List.map_mergeSort fun p _ q _ => ?_).symm
  simp only [Prod.map_fst, h.strictMono.le_iff_le]

/-- The scopes correspond. -/
theorem scopes (h : Embeds pos ts' ts) :
    Scope.findAll ts = (Scope.findAll ts').map (Scope.reindex pos) := by
  unfold Scope.findAll
  rw [h.openedBraces]
  exact h.findFrom [] _

theorem scopeAt? (h : Embeds pos ts' ts) (k : Nat) :
    scopeAt? ts (pos k) = (scopeAt? ts' k).map (Scope.reindex pos) := by
  unfold Vintage.scopeAt?
  rw [h.scopes, ← List.map_reverse, List.find?_map]
  congr 2
  funext s
  simp only [Function.comp_apply, Scope.touches, Scope.reindex, beq_eq_decide,
    h.strictMono.injective.eq_iff]

theorem around (h : Embeds pos ts' ts) (k : Nat) :
    around (Scope.findAll ts) (pos k) =
      (around (Scope.findAll ts') k).map (Scope.reindex pos) := by
  unfold Vintage.around
  rw [h.scopes, List.filter_map]
  congr 2
  funext s
  simp only [Function.comp_apply, Scope.reindex, h.strictMono.lt_iff_lt]

end Embeds

/-! ## All passes -/

/-- Leaving out the layout before the passes leaves out the layout of their result. -/
theorem embeds_withStructure {ts : List Token} (h : ∀ t ∈ ts, t.Bare) :
    Embeds (sourceIndex ts) (withStructure (ts.filter Token.isSignificant)) (withStructure ts) := by
  have hparens : Embeds (sourceIndex ts) (linked (settleNames (ts.filter Token.isSignificant)))
      (linked (settleNames ts)) := (embeds_settleNames h).linkBrackets.ownParens
  have hscope : ∀ t ∈ ts, t.scope = none := fun t ht => (h t ht).scope
  have hscope' : ∀ t ∈ ts.filter Token.isSignificant, t.scope = none :=
    fun t ht => hscope t (List.mem_of_mem_filter ht)
  refine hparens.update (withStructure_getElem? hscope') (withStructure_getElem? hscope)
    (fun _ _ => rfl) (fun _ _ => rfl) fun k t => ?_
  have hat := hparens.scopeAt? k
  have haround := hparens.around k
  simp only [Token.reindex, scopesOf, hat, haround, List.map_map]
  rfl

end Vintage
