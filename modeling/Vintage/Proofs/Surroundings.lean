import Mathlib.Data.List.Sort
import Vintage.Listing.Scope
import Vintage.Proofs.ScopeRecords

/-!
# Scopes around a position

One walk over the tokens with a stack of open scopes records the owners of the scopes around each
token. Since scopes do not cross, the closed ones are always on top of the stack, so nothing is left
on it too long.

Results:
* `surroundFrom_getElem?`: the walk records at each token the scopes around it.
* `withStructure_getElem?`: what the passes record at a token.
* `Listing.surroundings_of_records`: the owners at a token are those of the recorded scopes around
  it, and the innermost scope of given kinds is the last of these that has one of the kinds.
-/

namespace Vintage

/-! ## The walk -/

/-- The scopes of the list between whose braces position `i` is. -/
def around (scopes : List Scope) (i : Nat) : List Scope :=
  scopes.filter fun s => s.opener < i ∧ i < s.closer

theorem mem_around {scopes : List Scope} {i : Nat} {s : Scope} :
    s ∈ around scopes i ↔ s ∈ scopes ∧ s.opener < i ∧ i < s.closer := by
  simp [around]

theorem around_ascending {scopes : List Scope}
    (h : scopes.Pairwise fun s s' => s.opener < s'.opener) (i : Nat) :
    (around scopes i).Pairwise fun s s' => s.opener < s'.opener :=
  h.filter _

/-- The stack before the token at index `i` holds the scopes that opened before it and close with it
or after it, the innermost first. -/
structure IsStack (scopes : List Scope) (i : Nat) (opened : List Scope) : Prop where
  descending : opened.Pairwise fun s s' => s'.opener < s.opener
  mem_iff : ∀ s, s ∈ opened ↔ s ∈ scopes ∧ s.opener < i ∧ i ≤ s.closer

/-- The scopes of the list open one after the other, each opens before it closes, and they do not
cross. -/
structure Laminar (scopes : List Scope) : Prop where
  ascending : scopes.Pairwise fun s s' => s.opener < s'.opener
  opener_lt_closer : ∀ s ∈ scopes, s.opener < s.closer
  apart : ∀ s ∈ scopes, ∀ s' ∈ scopes, s ≠ s' → Apart s.braces s'.braces

theorem mem_dropWhile_closer {opened : List Scope}
    (h : opened.Pairwise fun s s' => s.closer < s'.closer) (i : Nat) (s : Scope) :
    s ∈ opened.dropWhile (·.closer ≤ i) ↔ s ∈ opened ∧ i < s.closer := by
  induction opened with
  | nil => simp
  | cons a opened ih =>
    obtain ⟨ha, hrest⟩ := List.pairwise_cons.1 h
    by_cases hclosed : a.closer ≤ i
    · rw [List.dropWhile_cons_of_pos (by simpa using hclosed), ih hrest, List.mem_cons]
      constructor
      · exact fun hs => ⟨Or.inr hs.1, hs.2⟩
      · rintro ⟨rfl | hs, hlt⟩
        · omega
        · exact ⟨hs, hlt⟩
    · rw [List.dropWhile_cons_of_neg (by simpa using hclosed)]
      refine ⟨fun hs => ⟨hs, ?_⟩, And.left⟩
      rcases List.mem_cons.1 hs with rfl | hs
      · omega
      · have := ha s hs
        omega

namespace IsStack

variable {scopes opened : List Scope} {i : Nat}

/-- The scopes on the stack are one inside the other. -/
theorem closers_ascend (h : IsStack scopes i opened) (hlam : Laminar scopes) :
    opened.Pairwise fun s s' => s.closer < s'.closer := by
  refine h.descending.imp_of_mem ?_
  intro s s' hs hs' hlt
  obtain ⟨hmem, hopen, hclose⟩ := (h.mem_iff s).1 hs
  obtain ⟨hmem', hopen', hclose'⟩ := (h.mem_iff s').1 hs'
  have hne : s ≠ s' := by
    rintro rfl
    omega
  have hapart := hlam.apart s hmem s' hmem' hne
  simp only [Apart, Scope.braces] at hapart
  omega

theorem mem_dropWhile_iff (h : IsStack scopes i opened) (hlam : Laminar scopes) (s : Scope) :
    s ∈ opened.dropWhile (·.closer ≤ i) ↔ s ∈ scopes ∧ s.opener < i ∧ i < s.closer := by
  rw [mem_dropWhile_closer (h.closers_ascend hlam), h.mem_iff]
  constructor
  · rintro ⟨⟨hs, hopen, -⟩, hclose⟩
    exact ⟨hs, hopen, hclose⟩
  · rintro ⟨hs, hopen, hclose⟩
    exact ⟨⟨hs, hopen, Nat.le_of_lt hclose⟩, hclose⟩

/-- What is left on the stack at the token at index `i` are the scopes around it. -/
theorem dropWhile_eq (h : IsStack scopes i opened) (hlam : Laminar scopes) :
    (opened.dropWhile (·.closer ≤ i)).reverse = around scopes i := by
  have : Std.Antisymm fun s s' : Scope => s.opener < s'.opener := ⟨fun _ _ h h' => by omega⟩
  have : Std.Irrefl fun s s' : Scope => s.opener < s'.opener := ⟨fun _ => Nat.lt_irrefl _⟩
  have hreverse : (opened.dropWhile (·.closer ≤ i)).reverse.Pairwise
      fun s s' => s.opener < s'.opener :=
    List.pairwise_reverse.2 (h.descending.sublist (List.dropWhile_sublist _))
  refine hreverse.eq_of_mem_iff (around_ascending hlam.ascending i) fun s => ?_
  rw [List.mem_reverse, h.mem_dropWhile_iff hlam]
  exact mem_around.symm

/-- No scope opens at index `i`. -/
theorem skip (h : IsStack scopes i opened) (hlam : Laminar scopes)
    (hnone : ∀ s ∈ scopes, s.opener ≠ i) :
    IsStack scopes (i + 1) (opened.dropWhile (·.closer ≤ i)) where
  descending := h.descending.sublist (List.dropWhile_sublist _)
  mem_iff s := by
    rw [h.mem_dropWhile_iff hlam]
    refine and_congr_right fun hs => ?_
    have := hnone s hs
    omega

/-- The one scope that opens at index `i` goes on top. -/
theorem push (h : IsStack scopes i opened) (hlam : Laminar scopes) {a : Scope}
    (ha : ∀ s, s = a ↔ s ∈ scopes ∧ s.opener = i) :
    IsStack scopes (i + 1) (a :: opened.dropWhile (·.closer ≤ i)) where
  descending := by
    refine List.pairwise_cons.2 ⟨?_, h.descending.sublist (List.dropWhile_sublist _)⟩
    intro s hs
    rw [((ha a).1 rfl).2]
    exact ((h.mem_dropWhile_iff hlam s).1 hs).2.1
  mem_iff s := by
    rw [List.mem_cons, h.mem_dropWhile_iff hlam, ha, ← and_or_left]
    refine and_congr_right fun hs => ?_
    have := hlam.opener_lt_closer s hs
    omega

end IsStack

/-- The walk records at each token the owners of the scopes around it. -/
theorem surroundFrom_getElem? {scopes : List Scope} (hlam : Laminar scopes) {i : Nat}
    {opened : List Scope} (h : IsStack scopes i opened) {ts : List Token}
    (hopens : ∀ j t, ts[j]? = some t →
      ∀ s, opensScope? (i + j) t = some s ↔ s ∈ scopes ∧ s.opener = i + j) (j : Nat) :
    (surroundFrom i opened ts)[j]? =
      ts[j]?.map fun t => { t with owners := (around scopes (i + j)).map Scope.owner } := by
  induction ts generalizing i opened j with
  | nil => rfl
  | cons a ts ih =>
    rw [surroundFrom]
    cases j with
    | zero =>
      rw [List.getElem?_cons_zero, List.getElem?_cons_zero, Option.map_some, Nat.add_zero,
        ← List.map_reverse, h.dropWhile_eq hlam]
    | succ j =>
      rw [List.getElem?_cons_succ, List.getElem?_cons_succ, show i + (j + 1) = i + 1 + j by omega]
      refine ih ?_ ?_ j
      · have hopen := hopens 0 a rfl
        rw [Nat.add_zero] at hopen
        cases he : opensScope? i a with
        | none =>
          rw [he] at hopen
          exact h.skip hlam fun s hs hsi => nomatch (hopen s).2 ⟨hs, hsi⟩
        | some b =>
          rw [he] at hopen
          exact h.push hlam fun s => ⟨fun e => (hopen s).1 (e ▸ rfl),
            fun e => (Option.some.inj ((hopen s).2 e)).symm⟩
      · intro k u hu
        rw [show i + 1 + k = i + (k + 1) by omega]
        exact hopens (k + 1) u (by rw [List.getElem?_cons_succ, hu])

/-! ## The structure of a list of tokens -/

theorem settledKind_eq_or (b : Before) (next : Option TokenKind) (kind : TokenKind) :
    settledKind b next kind = kind ∨ settledKind b next kind = .name := by
  unfold settledKind
  split_ifs <;> simp

/-- Settling the names changes kinds only, and only into names. -/
theorem mem_settleFrom {b : Before} {ts : List Token} {t : Token} (h : t ∈ settleFrom b ts) :
    ∃ u ∈ ts, t = { u with kind := t.kind } ∧ (t.kind = u.kind ∨ t.kind = .name) := by
  induction ts generalizing b with
  | nil => cases h
  | cons u ts ih =>
    rw [settleFrom] at h
    rcases List.mem_cons.1 h with rfl | h
    · refine ⟨u, List.mem_cons_self, rfl, ?_⟩
      split
      · exact settledKind_eq_or _ _ _
      · exact Or.inl rfl
    · obtain ⟨v, hv, he⟩ := ih h
      exact ⟨v, List.mem_cons_of_mem _ hv, he⟩

theorem length_settleFrom (b : Before) (ts : List Token) :
    (settleFrom b ts).length = ts.length := by
  induction ts generalizing b with
  | nil => rfl
  | cons t ts ih => rw [settleFrom, List.length_cons, List.length_cons, ih]

/-- The owner that is recorded for the token at index `k`. -/
def parenOwnerOf? (ts : Array Token) (k : Nat) (t : Token) : Option Nat :=
  match t.kind, t.partner with
  | .openParen, _ => parenOwnerAt? ts k
  | .closeParen, some o => parenOwnerAt? ts o
  | _, _ => t.parenOwner

theorem ownParens_getElem? (ts : Array Token) (k : Nat) :
    (ownParens ts)[k]? = ts[k]?.map fun t => { t with parenOwner := parenOwnerOf? ts k t } := by
  rw [ownParens, Array.getElem?_mapIdx]
  congr 1
  funext t
  obtain ⟨kind, -, -, -, partner, -, -, -⟩ := t
  cases kind <;> cases partner <;> rfl

theorem withStructure_eq (ts : List Token) :
    withStructure ts = surround (markScopes (linked (settleNames ts))) := rfl

theorem size_linked_settleNames (ts : List Token) : (linked (settleNames ts)).size = ts.length := by
  rw [linked, size_eq_of_getElem?_map (ownParens_getElem? _),
    size_eq_of_getElem?_map (linkBrackets_getElem? _), List.size_toArray, settleNames,
    length_settleFrom]

/-- The passes before the scopes keep the text of a token, and its kind unless it is a name now. -/
theorem origin_linked_settleNames {ts : List Token} {k : Nat} {t : Token}
    (ht : (linked (settleNames ts))[k]? = some t) :
    ∃ u ∈ ts, t.text = u.text ∧ t.scope = u.scope ∧ (t.kind = u.kind ∨ t.kind = .name) := by
  rw [linked, ownParens_getElem?, linkBrackets_getElem?, Option.map_map,
    Option.map_eq_some_iff] at ht
  obtain ⟨u, hu, rfl⟩ := ht
  have hmem : u ∈ settleNames ts := List.mem_of_getElem? (by simpa using hu)
  obtain ⟨v, hv, he, hkind⟩ := mem_settleFrom hmem
  have htext : u.text = v.text := by rw [he]
  have hscope : u.scope = v.scope := by rw [he]
  exact ⟨v, hv, htext, hscope, hkind⟩

theorem scope_linked_settleNames {ts : List Token} (hts : ∀ t ∈ ts, t.scope = none) {k : Nat}
    {t : Token} (ht : (linked (settleNames ts))[k]? = some t) : t.scope = none := by
  obtain ⟨u, hu, -, hscope, -⟩ := origin_linked_settleNames ht
  exact hscope.trans (hts u hu)

/-- The scopes of a list of tokens, in the order in which they open. -/
def scopesOf (ts : List Token) : List Scope := Scope.findAll (linked (settleNames ts))

theorem scopesOf_laminar (ts : List Token) : Laminar (scopesOf ts) where
  ascending := (Scope.findAll_ordered _).imp Scope.Ordered.opener_lt
  opener_lt_closer _ hs := (Scope.findAll_placed hs).opener_lt_closer
  apart _ hs _ hs' hne := Scope.findAll_apart hs hs' hne

/-- Before its surroundings are recorded, a token knows the scope that it belongs to. -/
theorem markScopes_linked_settleNames {ts : List Token} (hts : ∀ t ∈ ts, t.scope = none) (k : Nat) :
    (markScopes (linked (settleNames ts)))[k]? =
      (linked (settleNames ts))[k]?.map fun t =>
        { t with scope := scopeAt? (linked (settleNames ts)) k } :=
  markScopes_of_none (fun _ _ => scope_linked_settleNames hts) k

theorem opensScope?_eq_some_iff {ts : List Token} (hts : ∀ t ∈ ts, t.scope = none) {k : Nat}
    {t : Token} (ht : (markScopes (linked (settleNames ts)))[k]? = some t) (s : Scope) :
    opensScope? k t = some s ↔ s ∈ scopesOf ts ∧ s.opener = k := by
  rw [markScopes_linked_settleNames hts, Option.map_eq_some_iff] at ht
  obtain ⟨u, hu, rfl⟩ := ht
  unfold opensScope?
  constructor
  · intro h
    split at h
    · obtain ⟨hs, hopener⟩ := Option.filter_eq_some_iff.1 h
      exact ⟨(scopeAt?_eq_some_iff.1 hs).1, by simpa using hopener⟩
    · cases h
  · rintro ⟨hs, rfl⟩
    have hkind := (Scope.findAll_placed hs).opener_kind
    rw [hu, Option.map_some, Option.some_inj] at hkind
    rw [if_pos hkind]
    refine Option.filter_eq_some_iff.2 ⟨scopeAt?_eq_some_iff.2 ⟨hs, ?_⟩, by simp⟩
    exact Scope.touches_iff.2 (Or.inr (Or.inl rfl))

/-- What the passes record at a token: the scope that it belongs to, and the owners of the scopes
around it. -/
theorem withStructure_getElem? {ts : List Token} (hts : ∀ t ∈ ts, t.scope = none) (k : Nat) :
    (withStructure ts)[k]? = (linked (settleNames ts))[k]?.map fun t =>
      { t with
        scope := scopeAt? (linked (settleNames ts)) k
        owners := (around (scopesOf ts) k).map Scope.owner } := by
  have hstart : IsStack (scopesOf ts) 0 [] := ⟨List.Pairwise.nil, by simp⟩
  have hopens : ∀ j t, (markScopes (linked (settleNames ts))).toList[j]? = some t →
      ∀ s, opensScope? (0 + j) t = some s ↔ s ∈ scopesOf ts ∧ s.opener = 0 + j := by
    intro j t ht s
    rw [Array.getElem?_toList] at ht
    rw [Nat.zero_add]
    exact opensScope?_eq_some_iff hts ht s
  rw [withStructure_eq, surround, List.getElem?_toArray,
    surroundFrom_getElem? (scopesOf_laminar ts) hstart hopens, Array.getElem?_toList,
    markScopes_linked_settleNames hts, Option.map_map, Nat.zero_add]
  rfl

/-! ## The innermost scope -/

/-- The search from the last scope on finds the one with the greatest opener. -/
theorem findSome?_reverse_eq_some_iff {scopes : List Scope}
    (h : scopes.Pairwise fun s s' => s.opener < s'.opener) {β : Type} {f : Scope → Option β}
    {b : β} :
    scopes.reverse.findSome? f = some b ↔
      ∃ s ∈ scopes, f s = some b ∧ ∀ s' ∈ scopes, (f s').isSome → s'.opener ≤ s.opener := by
  have greatest {b : β} (hb : scopes.reverse.findSome? f = some b) :
      ∃ s ∈ scopes, f s = some b ∧ ∀ s' ∈ scopes, (f s').isSome → s'.opener ≤ s.opener := by
    obtain ⟨after, s, before, he, hs, hafter⟩ := List.findSome?_eq_some_iff.1 hb
    have he' : scopes = before.reverse ++ s :: after.reverse := by
      rw [← List.reverse_reverse scopes, he]
      simp
    have hbefore : ∀ s' ∈ before.reverse, s'.opener < s.opener := by
      rw [he', List.pairwise_append] at h
      exact fun s' hs' => h.2.2 s' hs' s List.mem_cons_self
    refine ⟨s, he' ▸ List.mem_append_right _ List.mem_cons_self, hs, ?_⟩
    intro s' hs' hsome
    rw [he', List.mem_append, List.mem_cons, @List.mem_reverse _ _ after] at hs'
    rcases hs' with hs' | rfl | hs'
    · exact Nat.le_of_lt (hbefore s' hs')
    · exact Nat.le_refl _
    · rw [hafter s' hs'] at hsome
      cases hsome
  refine ⟨greatest, ?_⟩
  rintro ⟨s, hs, hb, hmax⟩
  cases hb' : scopes.reverse.findSome? f with
  | none => rw [List.findSome?_eq_none_iff.1 hb' s (List.mem_reverse.2 hs)] at hb; cases hb
  | some b' =>
    obtain ⟨s', hs', he, hmax'⟩ := greatest hb'
    have h₁ := hmax s' hs' (by rw [he]; rfl)
    have h₂ := hmax' s hs (by rw [hb]; rfl)
    -- two scopes of the list do not open at the same token
    have hss : s = s' := by
      by_contra hne
      have : Std.Symm fun s s' : Scope => s.opener ≠ s'.opener := ⟨fun _ _ h => Ne.symm h⟩
      exact (h.imp Nat.ne_of_lt).forall hs hs' hne (by omega)
    rw [← he, ← hb, hss]

namespace Listing

/-- The scope is recorded at a token. -/
def Records (l : Listing) (s : Scope) : Prop := ∃ i t, l.get? i = some t ∧ t.scope = some s

/-- The scope is recorded and the position is between its braces. -/
def Surrounds (l : Listing) (s : Scope) (i : Nat) : Prop :=
  l.Records s ∧ s.opener < i ∧ i < s.closer

/-- The scope is around the position and its kind is one of `kinds`. -/
structure Encloses (l : Listing) (i : Nat) (kinds : List ScopeKind) (e : EnclosingScope) :
    Prop where
  surrounds : l.Surrounds e.scope i
  kind_eq : l.scopeKind? e.scope.owner = some e.kind
  mem : e.kind ∈ kinds

variable {ts : List Token}

/-- The listing of a list of tokens. -/
abbrev ofTokens (ts : List Token) : Listing where
  tokens := withStructure ts

theorem get?_ofTokens (hts : ∀ t ∈ ts, t.scope = none) (i : Nat) :
    (ofTokens ts).get? i = (linked (settleNames ts))[i]?.map fun t =>
      { t with
        scope := scopeAt? (linked (settleNames ts)) i
        owners := (around (scopesOf ts) i).map Scope.owner } :=
  withStructure_getElem? hts i

/-- The owner of a scope knows the scope. -/
theorem get?_owner (hts : ∀ t ∈ ts, t.scope = none) {s : Scope} (hs : s ∈ scopesOf ts) :
    ∃ t, (ofTokens ts).get? s.owner = some t ∧ t.scope = some s := by
  obtain ⟨t, ht, -⟩ := (Scope.findAll_placed hs).owner_kind
  have hscope : scopeAt? (linked (settleNames ts)) s.owner = some s :=
    scopeAt?_eq_some_iff.2 ⟨hs, Scope.touches_iff.2 (Or.inl rfl)⟩
  exact ⟨_, (get?_ofTokens hts s.owner).trans (by rw [ht, Option.map_some]), hscope⟩

/-- The recorded scopes are the scopes of the tokens. -/
theorem records_iff (hts : ∀ t ∈ ts, t.scope = none) {s : Scope} :
    (ofTokens ts).Records s ↔ s ∈ scopesOf ts := by
  constructor
  · rintro ⟨i, t, ht, hs⟩
    rw [get?_ofTokens hts] at ht
    obtain ⟨u, -, rfl⟩ := Option.map_eq_some_iff.1 ht
    exact (scopeAt?_eq_some_iff.1 hs).1
  · intro hs
    exact ⟨s.owner, get?_owner hts hs⟩

theorem surrounds_iff (hts : ∀ t ∈ ts, t.scope = none) {i : Nat} (s : Scope) :
    s ∈ around (scopesOf ts) i ↔ (ofTokens ts).Surrounds s i := by
  rw [mem_around, Surrounds, records_iff hts]

/-- A scope is found again from its owner. -/
theorem ownedScope?_eq_some_iff (hts : ∀ t ∈ ts, t.scope = none) {s : Scope}
    (hs : s ∈ scopesOf ts) (kinds : List ScopeKind) (e : EnclosingScope) :
    (ofTokens ts).ownedScope? kinds s.owner = some e ↔
      e.scope = s ∧ (ofTokens ts).scopeKind? s.owner = some e.kind ∧ e.kind ∈ kinds := by
  obtain ⟨t, ht, hscope⟩ := get?_owner hts hs
  obtain ⟨kind, scope⟩ := e
  unfold ownedScope?
  cases hkind : (ofTokens ts).scopeKind? s.owner with
  | none => simp
  | some k =>
    by_cases hk : k ∈ kinds
    · simp only [List.contains_eq_mem, hk, decide_true, if_true, ht, Option.bind_some, hscope,
        Option.map_some, Option.some_inj, EnclosingScope.mk.injEq]
      constructor
      · rintro ⟨rfl, rfl⟩
        exact ⟨rfl, rfl, hk⟩
      · rintro ⟨rfl, rfl, -⟩
        exact ⟨rfl, rfl⟩
    · simp only [List.contains_eq_mem, hk, decide_false, Option.some_inj]
      constructor
      · exact nofun
      · rintro ⟨-, rfl, hmem⟩
        exact absurd hmem hk

theorem encloses_iff (hts : ∀ t ∈ ts, t.scope = none) {i : Nat} (kinds : List ScopeKind)
    (e : EnclosingScope) :
    (ofTokens ts).Encloses i kinds e ↔
      ∃ s ∈ around (scopesOf ts) i, (ofTokens ts).ownedScope? kinds s.owner = some e := by
  constructor
  · rintro ⟨hsur, hkind, hmem⟩
    have hs := (surrounds_iff hts e.scope).2 hsur
    exact ⟨e.scope, hs,
      (ownedScope?_eq_some_iff hts (mem_around.1 hs).1 kinds e).2 ⟨rfl, hkind, hmem⟩⟩
  · rintro ⟨s, hs, he⟩
    obtain ⟨rfl, hkind, hmem⟩ := (ownedScope?_eq_some_iff hts (mem_around.1 hs).1 kinds e).1 he
    exact ⟨(surrounds_iff hts e.scope).1 hs, hkind, hmem⟩

theorem enclosing?_eq_findSome? (hts : ∀ t ∈ ts, t.scope = none) (i : Nat)
    (kinds : List ScopeKind) :
    (ofTokens ts).enclosing? i kinds = (around (scopesOf ts) i).reverse.findSome? fun s =>
      (ofTokens ts).ownedScope? kinds s.owner := by
  unfold enclosing?
  rw [get?_ofTokens hts]
  cases ht : (linked (settleNames ts))[i]? with
  | some t =>
    simp only [Option.map_some, ← List.map_reverse, List.findSome?_map]
    rfl
  | none =>
    -- all scopes close before position `i`
    have hnone : around (scopesOf ts) i = [] := by
      refine List.filter_eq_nil_iff.2 fun s hs => ?_
      obtain ⟨t, hcloser, -⟩ := Option.map_eq_some_iff.1 (Scope.findAll_placed hs).closer_kind
      have h₁ := (Array.getElem?_eq_some_iff.1 hcloser).1
      have h₂ := Array.getElem?_eq_none_iff.1 ht
      simp only [decide_eq_true_eq]
      omega
    rw [hnone]
    rfl

/-- The innermost scope of given kinds is the one with the greatest opener. -/
theorem enclosing?_eq_some_iff (hts : ∀ t ∈ ts, t.scope = none) (i : Nat) (kinds : List ScopeKind)
    (e : EnclosingScope) :
    (ofTokens ts).enclosing? i kinds = some e ↔
      (ofTokens ts).Encloses i kinds e ∧
        ∀ e', (ofTokens ts).Encloses i kinds e' → e'.scope.opener ≤ e.scope.opener := by
  have owned {s : Scope} (hs : s ∈ around (scopesOf ts) i) {e : EnclosingScope}
      (he : (ofTokens ts).ownedScope? kinds s.owner = some e) : e.scope = s :=
    ((ownedScope?_eq_some_iff hts (mem_around.1 hs).1 kinds e).1 he).1
  rw [enclosing?_eq_findSome? hts,
    findSome?_reverse_eq_some_iff (around_ascending (scopesOf_laminar ts).ascending i)]
  simp only [encloses_iff hts]
  constructor
  · rintro ⟨s, hs, he, hmax⟩
    refine ⟨⟨s, hs, he⟩, ?_⟩
    rintro e' ⟨s', hs', he'⟩
    rw [owned hs he, owned hs' he']
    exact hmax s' hs' (by rw [he']; rfl)
  · rintro ⟨⟨s, hs, he⟩, hmax⟩
    refine ⟨s, hs, he, ?_⟩
    intro s' hs' hsome
    obtain ⟨e', he'⟩ := Option.isSome_iff_exists.1 hsome
    rw [← owned hs he, ← owned hs' he']
    exact hmax e' ⟨s', hs', he'⟩

theorem enclosing?_eq_none_iff (hts : ∀ t ∈ ts, t.scope = none) (i : Nat) (kinds : List ScopeKind) :
    (ofTokens ts).enclosing? i kinds = none ↔ ∀ e, ¬ (ofTokens ts).Encloses i kinds e := by
  rw [enclosing?_eq_findSome? hts, List.findSome?_eq_none_iff]
  simp only [encloses_iff hts, List.mem_reverse]
  constructor
  · rintro h e ⟨s, hs, he⟩
    rw [h s hs] at he
    cases he
  · intro h s hs
    exact Option.eq_none_iff_forall_ne_some.2 fun e he => h e ⟨s, hs, he⟩

/-- The owners at a token are those of the recorded scopes around it, outermost first, and the
innermost scope of given kinds is the one of these scopes with the greatest opener. -/
theorem surroundings_of_records {ts : List Token} (hts : ∀ t ∈ ts, t.scope = none) (i : Nat) :
    (i < ts.length → ∃ (t : Token) (scopes : List Scope), (ofTokens ts).get? i = some t ∧
      (scopes.Pairwise fun s s' => s.opener < s'.opener) ∧
      (∀ s, s ∈ scopes ↔ (ofTokens ts).Surrounds s i) ∧ t.owners = scopes.map Scope.owner) ∧
    ∀ kinds,
      (∀ e, (ofTokens ts).enclosing? i kinds = some e ↔
        (ofTokens ts).Encloses i kinds e ∧
          ∀ e', (ofTokens ts).Encloses i kinds e' → e'.scope.opener ≤ e.scope.opener) ∧
      ((ofTokens ts).enclosing? i kinds = none ↔ ∀ e, ¬ (ofTokens ts).Encloses i kinds e) := by
  refine ⟨fun hi => ?_, fun kinds =>
    ⟨enclosing?_eq_some_iff hts i kinds, enclosing?_eq_none_iff hts i kinds⟩⟩
  have hlt : i < (linked (settleNames ts)).size := by rwa [size_linked_settleNames]
  have ht := get?_ofTokens hts i
  rw [Array.getElem?_eq_getElem hlt, Option.map_some] at ht
  exact ⟨_, around (scopesOf ts) i, ht, around_ascending (scopesOf_laminar ts).ascending i,
    surrounds_iff hts, rfl⟩

/-- A name in a method of a class, and a closing brace too many after it. -/
def methodInClass : List Token :=
  [{ kind := .kwClass, text := "class", line := 1, column := 1 },
   { kind := .name, text := "A", line := 1, column := 7 },
   { kind := .openBrace, text := "\x7b", line := 1, column := 8 },
   { kind := .kwFunction, text := "function", line := 1, column := 9 },
   { kind := .name, text := "f", line := 1, column := 18 },
   { kind := .openParen, text := "(", line := 1, column := 19 },
   { kind := .closeParen, text := ")", line := 1, column := 20 },
   { kind := .openBrace, text := "\x7b", line := 1, column := 21 },
   { kind := .name, text := "g", line := 1, column := 22 },
   { kind := .closeBrace, text := "\x7d", line := 1, column := 23 },
   { kind := .closeBrace, text := "\x7d", line := 1, column := 24 },
   { kind := .closeBrace, text := "\x7d", line := 1, column := 25 }]

theorem surroundings_methodInClass :
    (∀ t ∈ methodInClass, t.scope = none) ∧ 8 < methodInClass.length ∧
      ∃ (t : Token) (scopes : List Scope), (ofTokens methodInClass).get? 8 = some t ∧
        (scopes.Pairwise fun s s' => s.opener < s'.opener) ∧
        (∀ s, s ∈ scopes ↔ (ofTokens methodInClass).Surrounds s 8) ∧
        t.owners = scopes.map Scope.owner :=
  ⟨by decide, by decide, (surroundings_of_records (by decide) 8).1 (by decide)⟩

end Listing

end Vintage
