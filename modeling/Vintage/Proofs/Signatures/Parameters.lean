import Vintage.Proofs.Layout.Findings
import Vintage.Proofs.Signatures.Compact

/-!
# Declared parameters are read back

The parameters of a function are read from the items of its list: the variable is the first one of
the item, and what stands before it is looked at token by token. So `&` has two meanings, and
parentheses stand around types as well as around lists. For a well-formed list the readings are
right, but for one thing: the word `namespace` is a piece of a name and not taken for one of a type.

Results:
* `Declaration.WellFormed.parameter?`: the item of a declaration is read as its parameter.
* `Listing.DeclaresAll.read`: so are the items of a list.
* `Listing.parameters?_of_declares`: with layout or without.
* `Listing.parameters?_declared`: the parameters of every function with a well-formed signature.
-/

namespace Vintage

namespace Listing

/-! ## The ends of a type -/

/-- The first and the last position stay if only positions between them are left out. -/
theorem endsOf?_filter_not {p : Nat → Bool} {ps : List Nat} (hfirst : ∀ i ∈ ps.head?, p i = false)
    (hlast : ∀ i ∈ ps.getLast?, p i = false) : endsOf? (ps.filter fun i => !p i) = endsOf? ps := by
  have hhead : (ps.filter fun i => !p i).head? = ps.head? := by
    cases ps with
    | nil => rfl
    | cons i ps => rw [List.filter_cons_of_pos (by rw [hfirst i rfl]; rfl), List.head?_cons,
        List.head?_cons]
  have hend : (ps.filter fun i => !p i).getLast? = ps.getLast? := by
    cases ps using List.reverseRecOn with
    | nil => rfl
    | append_singleton ps i =>
      have hi : (!p i) = true := by rw [hlast i List.getLast?_concat]; rfl
      rw [List.filter_append, List.filter_singleton, hi, cond_true, List.getLast?_concat,
        List.getLast?_concat]
  rw [endsOf?, endsOf?, hhead, hend]

/-- What is left out at the ends is `namespace`, and what stays neither begins nor ends with it. -/
theorem withoutOuterNamespace_spec (l : Listing) (ps : List Nat) :
    (∃ before after, ps = before ++ (l.withoutOuterNamespace ps ++ after) ∧
      (∀ i ∈ before, l.isNamespaceWord i = true) ∧ ∀ i ∈ after, l.isNamespaceWord i = true) ∧
    (∀ i ∈ (l.withoutOuterNamespace ps).head?, l.isNamespaceWord i = false) ∧
    ∀ i ∈ (l.withoutOuterNamespace ps).getLast?, l.isNamespaceWord i = false := by
  refine ⟨⟨ps.takeWhile l.isNamespaceWord, (ps.dropWhile l.isNamespaceWord).rtakeWhile
    l.isNamespaceWord, ?_, ?_, ?_⟩, ?_, ?_⟩
  · rw [withoutOuterNamespace, List.rdropWhile_append_rtakeWhile, List.takeWhile_append_dropWhile]
  · exact fun i hi => List.mem_takeWhile_imp hi
  · exact fun i hi => List.mem_rtakeWhile_imp hi
  · intro i hi
    have hprefix : l.withoutOuterNamespace ps <+: ps.dropWhile l.isNamespaceWord :=
      List.rdropWhile_prefix _ _
    obtain ⟨after, hafter⟩ := hprefix
    have hhead := List.head?_dropWhile_not l.isNamespaceWord ps
    rw [← hafter, List.head?_append, Option.mem_def.1 hi] at hhead
    exact hhead
  · intro i hi
    obtain ⟨hne, rfl⟩ := List.mem_getLast?_eq_getLast hi
    exact Bool.eq_false_iff.2 (List.rdropWhile_last_not l.isNamespaceWord _ hne)

theorem endsOf?_withoutOuterNamespace (l : Listing) (ps : List Nat) :
    endsOf? (ps.filter fun i => !l.isNamespaceWord i) = endsOf? (l.withoutOuterNamespace ps) := by
  obtain ⟨⟨before, after, hps, hbefore, hafter⟩, hfirst, hlast⟩ := l.withoutOuterNamespace_spec ps
  have hnil {qs : List Nat} (h : ∀ i ∈ qs, l.isNamespaceWord i = true) :
      (qs.filter fun i => !l.isNamespaceWord i) = [] :=
    List.filter_eq_nil_iff.2 fun i hi => by rw [h i hi]; exact Bool.false_ne_true
  conv => lhs; rw [hps]
  rw [List.filter_append, List.filter_append, hnil hbefore, hnil hafter, List.nil_append,
    List.append_nil, endsOf?_filter_not hfirst hlast]

theorem endsOf?_eq_some_iff {ps : List Nat} {first last : Nat} :
    endsOf? ps = some (first, last) ↔ ps.head? = some first ∧ ps.getLast? = some last := by
  simp [endsOf?, Option.bind_eq_some_iff]

/-- The hint is that of the whole type iff the type neither begins nor ends with `namespace`. -/
theorem hintOf?_withoutOuterNamespace_iff (l : Listing) (ps : List Nat) :
    l.hintOf? (l.withoutOuterNamespace ps) = l.hintOf? ps ↔
      ∀ i, ps.head? = some i ∨ ps.getLast? = some i → l.isNamespaceWord i = false := by
  constructor
  · intro h i hi
    obtain ⟨-, hfirst, hlast⟩ := l.withoutOuterNamespace_spec ps
    have hps : ps ≠ [] := by
      rintro rfl
      rcases hi with hi | hi <;> cases hi
    obtain ⟨first, last, hends⟩ := endsOf?_ne_none hps
    obtain ⟨ends, hends', hhint⟩ : ∃ ends, endsOf? (l.withoutOuterNamespace ps) = some ends ∧
        ends.1 = first ∧ ends.2 + 1 = last + 1 := by
      rw [hintOf?, hintOf?, hends, Option.map_some, Option.map_eq_some_iff] at h
      obtain ⟨ends, hends', he⟩ := h
      exact ⟨ends, hends', congrArg TypeHint.start he, congrArg TypeHint.stop he⟩
    obtain ⟨first', last'⟩ := ends
    obtain ⟨rfl, hstop⟩ := hhint
    obtain rfl : last' = last := Nat.succ.inj hstop
    obtain ⟨hhead, hend⟩ := endsOf?_eq_some_iff.1 hends
    obtain ⟨hhead', hend'⟩ := endsOf?_eq_some_iff.1 hends'
    rcases hi with hi | hi
    · exact hfirst i (hhead'.trans (hhead.symm.trans hi))
    · exact hlast i (hend'.trans (hend.symm.trans hi))
  · intro h
    have hdrop : ps.dropWhile l.isNamespaceWord = ps := by
      cases ps with
      | nil => rfl
      | cons i ps =>
        refine List.dropWhile_cons_of_neg ?_
        rw [h i (Or.inl rfl)]
        exact Bool.false_ne_true
    rw [withoutOuterNamespace, hdrop, (List.rdropWhile_eq_self_iff).2]
    intro hne
    rw [h _ (Or.inr (List.getLast?_eq_some_getLast hne))]
    exact Bool.false_ne_true

end Listing

/-! ## One parameter -/

open Listing

namespace Declaration.WellFormed

variable {l : Listing} {d : Declaration}

theorem head_kinds (h : d.WellFormed l) {i : Nat} (hi : i ∈ d.head) {k : TokenKind}
    (hk : l.kind? i = some k) :
    k.isModifier = true ∨ k.isOfType = true ∨ k = .ampersand ∨ k = .ellipsis := by
  simp only [head, List.mem_append, Option.mem_toList] at hi
  rcases hi with hi | hi | hi | hi
  · exact Or.inl (h.modifiers k (mem_kindsAt hi hk))
  · refine Or.inr (Or.inl ?_)
    rcases h.type with hnil | htype
    · rw [hnil] at hi
      cases hi
    · exact htype.isOfType k (mem_kindsAt hi hk)
  · exact Or.inr (Or.inr (Or.inl (Option.some.inj (hk.symm.trans (h.reference i hi)))))
  · exact Or.inr (Or.inr (Or.inr (Option.some.inj (hk.symm.trans (h.ellipsis i hi)))))

/-- A declaration is well nested, and it has no comma outside of brackets. -/
theorem nested (h : d.WellFormed l) : Nested (· ≠ .comma) (l.kindsAt d.positions) := by
  have hall {ps : List Nat} {kind : TokenKind} (hps : ∀ i ∈ ps, l.kind? i = some kind)
      (hkind : kind.isBracket = false ∧ kind ≠ .comma) : Nested (· ≠ .comma) (l.kindsAt ps) := by
    refine .of_forall fun k hk => ?_
    obtain ⟨i, hi, hk⟩ := List.mem_filterMap.1 hk
    rwa [Option.some.inj (hk.symm.trans (hps i hi))]
  have hmodifiers : Nested (· ≠ .comma) (l.kindsAt d.modifiers) := by
    refine .of_forall fun k hk => ?_
    have hmodifier := h.modifiers k hk
    cases k <;> first | exact ⟨rfl, (by decide)⟩ | cases hmodifier
  have htype : Nested (· ≠ .comma) (l.kindsAt d.type) := by
    rcases h.type with hnil | htype
    · rw [hnil]
      exact .nil
    · exact htype.nested
  have hvalue : Nested (· ≠ .comma) (l.kindsAt d.value) := by
    rcases h.value with hnil | ⟨ks, hks, hnested, -⟩
    · rw [hnil]
      exact .nil
    · rw [hks]
      exact .plain rfl (by decide) hnested
  have hreference : Nested (· ≠ .comma) (l.kindsAt d.reference.toList) :=
    hall (fun i hi => h.reference i (Option.mem_toList.1 hi)) (by decide)
  have hellipsis : Nested (· ≠ .comma) (l.kindsAt d.ellipsis.toList) :=
    hall (fun i hi => h.ellipsis i (Option.mem_toList.1 hi)) (by decide)
  rw [positions, head, kindsAt_append, kindsAt_append, kindsAt_append, kindsAt_append,
    kindsAt_cons h.position]
  exact (hmodifiers.append (htype.append (hreference.append hellipsis))).append
    (.plain rfl (by decide) hvalue)

/-- No `&` of a type stands before a variable or an ellipsis, so the tokens of the type are taken
for it, the word `namespace` apart. -/
theorem taken_type (h : d.WellFormed l) (hl : l.Compact) {s : Nat} (hrun : RunFrom s d.type)
    (hsize : s + d.type.length ≤ l.size) {i : Nat} (hi : i ∈ d.type) :
    l.takenForType i = !l.isNamespaceWord i ∧ l.takenForReference i = false := by
  have htype : TypeSyntax (l.kindsAt d.type) := h.type.resolve_left (List.ne_nil_of_mem hi)
  obtain ⟨hlow, hhigh⟩ := hrun.mem_iff.1 hi
  obtain ⟨hspells, hlength⟩ := hrun.spells hsize
  obtain ⟨t, -, hk⟩ := exists_get? (l := l) (i := i) (by omega)
  have hkind := htype.isOfType _ (mem_kindsAt hi hk)
  have hmark : t.kind = .ampersand → l.marksReference i = false := by
    intro hand
    have hnext : i + 1 < s + d.type.length := by
      refine Nat.lt_of_le_of_ne hhigh fun hlast => htype.getLast?_ne_ampersand ?_
      rw [List.getLast?_eq_getElem?, hlength, ← hspells _ (by omega), ← hand, ← hk]
      congr 1
      omega
    obtain ⟨k, hmem, hk'⟩ := hspells.mem (j := i + 1) (by omega) (by omega)
    have hkind' := htype.isOfType k hmem
    rw [hl.marksReference, hk']
    cases k <;> first | rfl | cases hkind'
  rw [takenForType, takenForReference, isNamespaceWord, hk, Option.any_some]
  by_cases hand : t.kind = .ampersand
  · rw [hmark hand, hand]
    decide
  · have hpiece : t.kind.isTypePiece = !(t.kind == .kwNamespace) := by
      revert hkind hand
      cases t.kind <;> decide
    have hsome : (some t.kind == some .ampersand) = false := beq_eq_false_iff_ne.2 fun he =>
      hand (Option.some.inj he)
    rw [hpiece, beq_eq_false_iff_ne.2 hand, hsome, Bool.false_and, Bool.false_and, Bool.or_false]
    exact ⟨rfl, rfl⟩

theorem taken_modifier (h : d.WellFormed l) {i : Nat} (hi : i ∈ d.modifiers) :
    l.takenForType i = false ∧ l.takenForReference i = false := by
  rw [takenForType, takenForReference]
  cases hk : l.kind? i with
  | none => exact ⟨rfl, rfl⟩
  | some k =>
    have hmodifier := h.modifiers k (mem_kindsAt hi hk)
    cases k <;> first | exact ⟨rfl, rfl⟩ | cases hmodifier

theorem taken_ellipsis (h : d.WellFormed l) {i : Nat} (hi : i ∈ d.ellipsis) :
    l.takenForType i = false ∧ l.takenForReference i = false := by
  rw [takenForType, takenForReference, h.ellipsis i hi]
  exact ⟨rfl, rfl⟩

/-- The `&` of a reference stands before a variable or an ellipsis. -/
theorem taken_reference (h : d.WellFormed l) (hl : l.Compact) {s : Nat}
    (hrun : RunFrom s d.positions) {i : Nat} (hi : i ∈ d.reference) :
    l.takenForType i = false ∧ l.takenForReference i = true := by
  have hmark : l.marksReference i = true := by
    simp only [positions, head, Option.mem_def.1 hi, Option.toList_some, List.append_assoc,
      List.cons_append, List.nil_append, runFrom_append, runFrom_cons] at hrun
    obtain ⟨-, -, hi', hnext⟩ := hrun
    rw [hl.marksReference]
    cases hellipsis : d.ellipsis with
    | none =>
      rw [hellipsis, Option.toList_none, List.length_nil] at hnext
      rw [show i + 1 = d.position by omega, h.position]
      rfl
    | some e =>
      rw [hellipsis, Option.toList_some, runFrom_cons] at hnext
      rw [show i + 1 = e by omega, h.ellipsis e hellipsis]
      rfl
  rw [takenForType, takenForReference, h.reference i hi, hmark]
  decide

/-- What is taken for the type and for a reference before the variable. -/
theorem taken_head (h : d.WellFormed l) (hl : l.Compact) {s : Nat} (hrun : RunFrom s d.positions)
    (hsize : s + d.positions.length ≤ l.size) :
    d.head.filter l.takenForType = d.type.filter (fun i => !l.isNamespaceWord i) ∧
      d.head.any l.takenForReference = d.reference.isSome := by
  have hrun' := hrun
  simp only [positions, head, List.length_append] at hrun' hsize
  obtain ⟨-, htype, -⟩ := runFrom_append.1 (runFrom_append.1 hrun').1 |>.imp_right runFrom_append.1
  have htaken := fun i => h.taken_type hl htype (i := i) (by omega)
  have hmodifiers : d.modifiers.filter l.takenForType = [] :=
    List.filter_eq_nil_iff.2 fun i hi => Bool.eq_false_iff.1 (h.taken_modifier hi).1
  have href : d.reference.toList.filter l.takenForType = [] :=
    List.filter_eq_nil_iff.2 fun i hi =>
      Bool.eq_false_iff.1 (h.taken_reference hl hrun (Option.mem_toList.1 hi)).1
  have hell : d.ellipsis.toList.filter l.takenForType = [] :=
    List.filter_eq_nil_iff.2 fun i hi =>
      Bool.eq_false_iff.1 (h.taken_ellipsis (Option.mem_toList.1 hi)).1
  constructor
  · rw [head, List.filter_append, List.filter_append, List.filter_append, hmodifiers, href, hell,
      List.nil_append, List.append_nil, List.append_nil]
    exact List.filter_congr fun i hi => (htaken i hi).1
  · rw [Bool.eq_iff_iff, List.any_eq_true, Option.isSome_iff_exists]
    constructor
    · rintro ⟨i, hi, htrue⟩
      simp only [head, List.mem_append, Option.mem_toList] at hi
      rcases hi with hi | hi | hi | hi
      · exact absurd htrue (Bool.eq_false_iff.1 (h.taken_modifier hi).2)
      · exact absurd htrue (Bool.eq_false_iff.1 (htaken i hi).2)
      · exact ⟨i, hi⟩
      · exact absurd htrue (Bool.eq_false_iff.1 (h.taken_ellipsis hi).2)
    · rintro ⟨i, hi⟩
      refine ⟨i, ?_, (h.taken_reference hl hrun hi).2⟩
      simp only [head, List.mem_append, Option.mem_toList]
      exact Or.inr (Or.inr (Or.inl hi))

/-- An item that holds a declaration is read as its parameter. -/
theorem parameter? (h : d.WellFormed l) (hl : l.Compact) {s : Nat} (hrun : RunFrom s d.positions)
    (hsize : s + d.positions.length ≤ l.size) :
    l.parameter? (l.item s (s + d.positions.length)) = some (some (l.read d)) := by
  obtain ⟨hhead, hrest⟩ := runFrom_append.1 hrun
  obtain ⟨hposition, -⟩ := runFrom_cons.1 hrest
  have hlength : d.positions.length = d.head.length + (d.value.length + 1) := by
    rw [positions, List.length_append, List.length_cons]
  have hkinds {i : Nat} (hlow : s ≤ i) (hhigh : i < d.position) :
      l.kind? i ≠ some .variableName ∧ l.kind? i ≠ some .attributeStart := by
    have hi : i ∈ d.head := hhead.mem_iff.2 ⟨hlow, by omega⟩
    constructor <;>
    · intro hk
      rcases h.head_kinds hi hk with hk | hk | hk | hk <;> cases hk
  have hfirst : l.firstIn? (fun t => t.kind == .variableName) s (s + d.positions.length) =
      some d.position := by
    refine firstIn?_of_first (by omega) (by omega) ?_ fun i hlow hhigh => ?_
    · rw [any_kind_beq, h.position]
      rfl
    · rw [any_kind_beq]
      exact beq_eq_false_iff_ne.2 (hkinds hlow hhigh).1
  have hread : l.headFrom? (d.position - s) s 0 {} = some
      { byReference := d.reference.isSome
        type := endsOf? (l.withoutOuterNamespace d.type) } := by
    obtain ⟨htype, href⟩ := h.taken_head hl hrun hsize
    rw [show d.position - s = d.head.length by omega,
      headFrom?_eq (by omega) fun j hlow hhigh => (hkinds hlow (by omega)).2, headIn, ← hhead,
      htype, href, endsOf?_withoutOuterNamespace]
  obtain ⟨start, hstart, hstop⟩ : ∃ start, RunFrom start (l.withoutOuterNamespace d.type) ∧
      start + (l.withoutOuterNamespace d.type).length ≤ l.size := by
    obtain ⟨⟨before, after, htype, -⟩, -⟩ := l.withoutOuterNamespace_spec d.type
    rw [head, runFrom_append, runFrom_append, htype, runFrom_append, runFrom_append] at hhead
    have hle := congrArg List.length htype
    simp only [List.length_append] at hle
    refine ⟨_, hhead.2.1.2.1, ?_⟩
    simp only [head, List.length_append] at hlength
    omega
  rw [Listing.parameter?, Listing.item]
  simp only [hfirst, hread, Option.map_some, hl.hintOf? hstart hstop]
  rfl

end Declaration.WellFormed

/-! ## Lists of parameters -/

namespace Listing

/-- The items of a declared list are read as its parameters. -/
theorem DeclaresAll.read {ts : List Token} (hts : ∀ t ∈ ts, t.Bare) (hl : (ofTokens ts).Compact)
    {ps : List Nat} {ds : List Declaration} (h : (ofTokens ts).DeclaresAll ps ds) {s : Nat}
    (hrun : RunFrom s ps) (hsize : s + ps.length ≤ (ofTokens ts).size) :
    ((ofTokens ts).itemsFrom? ps.length s s 0).bind (ofTokens ts).parametersOf? =
      some (ds.map (ofTokens ts).read) := by
  -- a declaration is one item, whatever follows
  have hitem {d : Declaration} (hd : d.WellFormed (ofTokens ts)) {s : Nat}
      (hrun : RunFrom s d.positions) (hsize : s + d.positions.length ≤ (ofTokens ts).size)
      (n start : Nat) : (ofTokens ts).itemsFrom? (d.positions.length + n) s start 0 =
        (ofTokens ts).itemsFrom? n (s + d.positions.length) start 0 := by
    obtain ⟨hspells, hlength⟩ := hrun.spells hsize
    rw [← hlength]
    exact hspells.itemsFrom?_nested hts (fun _ hk => hk) hd.nested n start
  induction h generalizing s with
  | nil =>
    have hnone : (ofTokens ts).firstIn? (fun t => t.kind == .variableName) s s = none := by
      rw [firstIn?, show min s (ofTokens ts).size - s = 0 by omega]
      rfl
    simp only [List.length_nil, itemsFrom?, Option.bind_some, parametersOf?, parameter?, item,
      hnone]
    rfl
  | last hd =>
    have hread := hitem hd hrun hsize 0 s
    rw [Nat.add_zero] at hread
    rw [hread, itemsFrom?, Option.bind_some, parametersOf?, hd.parameter? hl hrun hsize,
      parametersOf?]
    rfl
  | @cons d c ps ds hd hc _ ih =>
    obtain ⟨hpositions, hcomma⟩ := runFrom_append.1 hrun
    obtain ⟨rfl, hps⟩ := runFrom_cons.1 hcomma
    rw [List.length_append, List.length_cons] at hsize ⊢
    obtain ⟨t, ht, hkind⟩ := Option.map_eq_some_iff.1 hc
    have hread := ih hps (by omega)
    obtain ⟨items, hitems, hread⟩ := Option.bind_eq_some_iff.1 hread
    have hcons : (ofTokens ts).itemsFrom? (ps.length + 1) (s + d.positions.length) s 0 =
        some ((ofTokens ts).item s (s + d.positions.length) :: items) := by
      rw [itemsFrom?, if_neg (Nat.not_lt_zero _), ht]
      simp only [hkind, show TokenKind.opensGroup .comma = false from rfl, Bool.false_eq_true,
        if_false, if_true, hitems, Option.map_some]
    rw [hitem hd hpositions (by omega), hcons, Option.bind_some, parametersOf?,
      hd.parameter? hl hpositions (by omega), hread]
    rfl

/-- The parenthesis that opens the parameters is found. -/
theorem Introduces.parametersOpener? {l : Listing} {f opener : Nat} (h : l.Introduces f opener) :
    l.parametersOpener? f = some opener := by
  have hkeyword : (l.kind? f == some .kwFunction || l.kind? f == some .kwFn) = true := by
    rcases h.keyword with hf | hf <;> rw [hf] <;> rfl
  obtain ⟨t, ht, hkind⟩ := Option.map_eq_some_iff.1 h.paren
  have hfirst : l.firstFrom? (fun t => t.isSignificant && t.kind != .ampersand && t.kind != .name)
      (f + 1) = some opener := by
    refine firstIn?_of_first h.lt (lt_size_of_kind? h.paren) ?_ fun k hlow hhigh => ?_
    · rw [ht, Option.any_some, Token.isSignificant, hkind]
      rfl
    · -- an `&` or a name, or layout
      refine Bool.eq_false_iff.2 fun hany => ?_
      obtain ⟨u, hu, hp⟩ := (Option.any_eq_true _ _).1 hany
      simp only [Bool.and_eq_true, bne_iff_ne] at hp
      obtain ⟨⟨hsignificant, hampersand⟩, hname⟩ := hp
      have hmem : k ∈ l.significantBetween f opener := by
        refine List.mem_filter.2 ⟨List.mem_range'_1.2 (by omega), ?_⟩
        rw [hu]
        exact hsignificant
      have hbetween := mem_kindsAt hmem (show l.kind? k = some u.kind by rw [kind?, hu]; rfl)
      have hkinds := h.between
      generalize l.kindsAt (l.significantBetween f opener) = kinds at hbetween hkinds
      simp only [List.mem_cons, List.not_mem_nil, or_false] at hkinds
      rcases hkinds with rfl | rfl | rfl | rfl <;> simp_all
  rw [Listing.parametersOpener?, if_pos hkeyword, hfirst, Option.filter_some, h.paren]
  rfl

end Listing

/-! ## Lists with layout -/

namespace Declaration

/-- The declaration, renumbered. -/
def move (pos : Nat → Nat) (d : Declaration) : Declaration where
  modifiers := d.modifiers.map pos
  type := d.type.map pos
  reference := d.reference.map pos
  ellipsis := d.ellipsis.map pos
  position := pos d.position
  value := d.value.map pos

theorem positions_move (pos : Nat → Nat) (d : Declaration) :
    (d.move pos).positions = d.positions.map pos := by
  simp only [positions, head, move, Option.toList_map, List.map_append, List.map_cons]

theorem move_move {f pos : Nat → Nat} {d : Declaration} (h : ∀ i ∈ d.positions, pos (f i) = i) :
    (d.move f).move pos = d := by
  have hlist {ps : List Nat} (hps : ∀ i ∈ ps, i ∈ d.positions) : (ps.map f).map pos = ps := by
    rw [List.map_map]
    exact (List.map_congr_left fun i hi => h i (hps i hi)).trans (List.map_id ps)
  have hoption {o : Option Nat} (ho : ∀ i, o = some i → i ∈ d.positions) :
      (o.map f).map pos = o := by
    cases o with
    | none => rfl
    | some i => rw [Option.map_some, Option.map_some, h i (ho i rfl)]
  obtain ⟨modifiers, type, reference, ellipsis, position, value⟩ := d
  simp only [positions, head, List.mem_append, List.mem_cons, Option.mem_toList] at h hlist hoption
  simp only [move, mk.injEq]
  refine ⟨hlist ?_, hlist ?_, hoption ?_, hoption ?_, h _ ?_, hlist ?_⟩
  all_goals simp +contextual

end Declaration

namespace Embeds

variable {pos : Nat → Nat} {l' l : Listing}

/-- A token that is no layout has a number among those that are none. -/
theorem exists_number (h : Embeds pos l'.tokens l.tokens) {i : Nat} {kind : TokenKind}
    (hk : l.kind? i = some kind) (hkind : kind.isLayout = false) : ∃ k, pos k = i := by
  refine Classical.byContradiction fun hne => ?_
  obtain ⟨t, ht, hlayout⟩ := h.layout i (not_exists.1 hne)
  obtain ⟨u, hu, rfl⟩ := Option.map_eq_some_iff.1 hk
  obtain rfl : t = u := Option.some.inj (ht.symm.trans hu)
  rw [Token.isLayout_of_not_significant hlayout] at hkind
  cases hkind

theorem kindsAt (h : Embeds pos l'.tokens l.tokens) (ps : List Nat) :
    l.kindsAt (ps.map pos) = l'.kindsAt ps := by
  rw [Listing.kindsAt, List.filterMap_map]
  exact congrArg (List.filterMap · ps) (funext h.kind?)

theorem textAt (h : Embeds pos l'.tokens l.tokens) (ps : List Nat) :
    l.textAt (ps.map pos) = l'.textAt ps := by
  have htext : (fun i => (l.get? i).map Token.text) ∘ pos =
      fun i => (l'.get? i).map Token.text := by
    funext k
    rw [Function.comp_apply, h.listing_get?, Option.map_map]
    rfl
  rw [Listing.textAt, List.filterMap_map, htext, Listing.textAt]

theorem withoutOuterNamespace (h : Embeds pos l'.tokens l.tokens) (ps : List Nat) :
    l.withoutOuterNamespace (ps.map pos) = (l'.withoutOuterNamespace ps).map pos := by
  have hword : l.isNamespaceWord ∘ pos = l'.isNamespaceWord := by
    funext k
    rw [Function.comp_apply, Listing.isNamespaceWord, h.kind?, Listing.isNamespaceWord]
  rw [Listing.withoutOuterNamespace, List.dropWhile_map, hword, List.rdropWhile, ← List.map_reverse,
    List.dropWhile_map, hword, ← List.map_reverse]
  rfl

theorem hintOf? (h : Embeds pos l'.tokens l.tokens) (ps : List Nat) :
    l.hintOf? (ps.map pos) = (l'.hintOf? ps).map (Thins.moveType pos) := by
  have hends : Listing.endsOf? (ps.map pos) = (Listing.endsOf? ps).map (Prod.map pos pos) := by
    rw [Listing.endsOf?, List.head?_map, List.getLast?_map, Listing.endsOf?]
    cases ps.head? <;> cases ps.getLast? <;> rfl
  rw [Listing.hintOf?, Listing.hintOf?, hends, h.textAt, Option.map_map, Option.map_map]
  rfl

/-- The same parameter is read from a declaration. -/
theorem read (h : Embeds pos l'.tokens l.tokens) (d : Declaration) :
    l.read (d.move pos) = Thins.moveParameter pos (l'.read d) := by
  rw [Listing.read, Listing.read, Declaration.move]
  simp only [Listing.parameterWith, Thins.moveParameter, h.withoutOuterNamespace, h.hintOf?,
    h.listing_get?, Option.map_map, Option.isSome_map]
  rfl

theorem wellFormed (h : Embeds pos l'.tokens l.tokens) {d : Declaration}
    (hd : (d.move pos).WellFormed l) : d.WellFormed l' := by
  have hoption {o : Option Nat} {kind : TokenKind} (ho : ∀ i ∈ o.map pos, l.kind? i = some kind) :
      ∀ i ∈ o, l'.kind? i = some kind := by
    intro i hi
    rw [← h.kind?]
    exact ho (pos i) (Option.mem_map_of_mem pos hi)
  obtain ⟨hmodifiers, htype, hreference, hellipsis, hposition, hvalue⟩ := hd
  simp only [Declaration.move, h.kindsAt, h.kind?, List.map_eq_nil_iff]
    at hmodifiers htype hposition hvalue
  exact ⟨hmodifiers, htype, hoption hreference, hoption hellipsis, hposition, hvalue⟩

/-- Positions of tokens that are no layout declare the same parameters. -/
theorem declaresAll (h : Embeds pos l'.tokens l.tokens) {qs : List Nat} {ds : List Declaration}
    (hds : l.DeclaresAll qs ds) (hqs : ∀ i ∈ qs, ∃ k, pos k = i) :
    ∃ ds', ds = ds'.map (Declaration.move pos) ∧
      l'.DeclaresAll (qs.map (Function.invFun pos)) ds' := by
  have hinv {qs : List Nat} (hqs : ∀ i ∈ qs, ∃ k, pos k = i) :
      ∀ i ∈ qs, pos (Function.invFun pos i) = i := fun i hi => Function.invFun_eq (hqs i hi)
  have hmove {d : Declaration} (hd : d.WellFormed l) (hpos : ∀ i ∈ d.positions, ∃ k, pos k = i) :
      d = (d.move (Function.invFun pos)).move pos ∧
        (d.move (Function.invFun pos)).WellFormed l' := by
    have hback := Declaration.move_move (hinv hpos)
    refine ⟨hback.symm, h.wellFormed ?_⟩
    rwa [hback]
  induction hds with
  | nil => exact ⟨[], rfl, .nil⟩
  | last hd =>
    obtain ⟨hd', hwf⟩ := hmove hd hqs
    refine ⟨[_], congrArg ([·]) hd', ?_⟩
    rw [← Declaration.positions_move]
    exact .last hwf
  | @cons d c ps ds hd hc _ ih =>
    obtain ⟨hpos, hc', hps⟩ := List.forall_mem_append.1 hqs |>.imp_right List.forall_mem_cons.1
    obtain ⟨hd', hwf⟩ := hmove hd hpos
    obtain ⟨ds', hds', hall⟩ := ih hps
    refine ⟨_ :: ds', congrArg₂ List.cons hd' hds', ?_⟩
    rw [List.map_append, List.map_cons, ← Declaration.positions_move]
    refine .cons hwf ?_ hall
    rwa [← h.kind?, Function.invFun_eq hc']

theorem significantBetween (h : Embeds pos l'.tokens l.tokens) {a b : Nat} (hb : b ≤ l'.size) :
    l.significantBetween (pos a) (pos b) = (List.range' (a + 1) (b - (a + 1))).map pos := by
  have hwalk {n i n' i' : Nat} (hi : Splits pos i i') (hn : Splits pos (i + n) (i' + n'))
      (hsize : i' + n' ≤ l'.size) :
      ((List.range' i n).filter fun j => (l.get? j).any Token.isSignificant) =
        (List.range' i' n').map pos := by
    refine h.walkUp (motive := fun n i n' i' => i' + n' ≤ l'.size →
      ((List.range' i n).filter fun j => (l.get? j).any Token.isSignificant) =
        (List.range' i' n').map pos) ?_ ?_ ?_ hi hn hsize
    · exact fun _ _ _ _ => rfl
    · intro n i n' i' t ht hlayout _ ih hsize
      have hany : (l.get? i).any Token.isSignificant = false :=
        Thins.any_layout selects_isSignificant ht hlayout
      rw [List.range'_succ, List.filter_cons, if_neg (Bool.eq_false_iff.1 hany)]
      exact ih hsize
    · intro n n' i' _ ih hsize
      have hany : (l.get? (pos i')).any Token.isSignificant = true := by
        obtain ⟨t, ht, -⟩ := Listing.exists_get? (l := l') (i := i') (by omega)
        rw [h.listing_get?, ht]
        exact h.significant i' t ht
      rw [List.range'_succ, List.filter_cons, if_pos hany, List.range'_succ, List.map_cons,
        ih (by omega)]
  by_cases hlt : a < b
  · have hpos := h.strictMono hlt
    refine hwalk (Splits.after h.strictMono a) ?_ (by omega)
    rw [show pos a + 1 + (pos b - (pos a + 1)) = pos b by omega,
      show a + 1 + (b - (a + 1)) = b by omega]
    exact Splits.before h.strictMono b
  · have hpos := h.strictMono.monotone (Nat.le_of_not_lt hlt)
    rw [Listing.significantBetween, show pos b - (pos a + 1) = 0 by omega,
      show b - (a + 1) = 0 by omega]
    rfl

end Embeds

namespace Listing

theorem read_eq_written_iff (l : Listing) (d : Declaration) :
    l.read d = l.written d ↔ l.kindAt? d.type.head? ≠ some .kwNamespace ∧
      l.kindAt? d.type.getLast? ≠ some .kwNamespace := by
  have hword (i : Nat) : l.isNamespaceWord i = false ↔ l.kind? i ≠ some .kwNamespace :=
    beq_eq_false_iff_ne
  have hends : l.read d = l.written d ↔
      ∀ i, d.type.head? = some i ∨ d.type.getLast? = some i → l.isNamespaceWord i = false := by
    rw [← l.hintOf?_withoutOuterNamespace_iff, read, written, parameterWith, parameterWith,
      Parameter.mk.injEq]
    exact ⟨fun h => h.2.2.1, fun h => ⟨rfl, rfl, h, rfl⟩⟩
  rw [hends]
  simp only [or_imp, forall_and, hword]
  cases d.type.head? <;> cases d.type.getLast? <;> simp [kindAt?]

/-- The parameters that are read from a declared list, with layout or without. -/
theorem parameters?_of_declares {ts : List Token} (hts : IsRaw ts) {f opener closer : Nat}
    {ds : List Declaration} (hf : (ofTokens ts).Introduces f opener)
    (hcloser : (ofTokens ts).partner? opener = some closer)
    (hds : (ofTokens ts).DeclaresAll ((ofTokens ts).significantBetween opener closer) ds) :
    (ofTokens ts).parameters? f = some (ds.map (ofTokens ts).read) := by
  have h : Embeds (sourceIndex ts) (ofTokens (ts.filter Token.isSignificant)).tokens
      (ofTokens ts).tokens := embeds_withStructure hts.bare
  have hts' := hts.filter Token.isSignificant
  have hinj := h.strictMono.injective
  have hopens := hf.parametersOpener?
  obtain ⟨k, rfl⟩ : ∃ k, sourceIndex ts k = f := by
    rcases hf.keyword with hk | hk <;> exact h.exists_number hk rfl
  obtain ⟨o, rfl⟩ := h.exists_number hf.paren rfl
  rw [h.partner?, Option.map_eq_some_iff] at hcloser
  obtain ⟨c, hc, rfl⟩ := hcloser
  have ho : (ofTokens (ts.filter Token.isSignificant)).kind? o = some .openParen := by
    rw [← h.kind?]
    exact hf.paren
  obtain ⟨hlt, hclose⟩ := lt_of_partner? hts'.bare (b := .round) ho hc
  have hsize := lt_size_of_kind? hclose
  have hbetween := h.significantBetween (a := o) (Nat.le_of_lt hsize)
  rw [hbetween] at hds
  obtain ⟨ds', rfl, hds'⟩ := h.declaresAll hds fun i hi => by
    obtain ⟨k, -, hk⟩ := List.mem_map.1 hi
    exact ⟨k, hk⟩
  rw [List.map_map, (Function.leftInverse_invFun hinj).comp_eq_id, List.map_id] at hds'
  have hread := hds'.read hts'.bare (fun i t => h.significant i t) (s := o + 1)
    (by rw [RunFrom, List.length_range']) (by rw [List.length_range']; omega)
  rw [List.length_range'] at hread
  have hpartner : ((ofTokens (ts.filter Token.isSignificant)).get? o).bind Token.partner = some c :=
    hc
  have hopens' : (ofTokens (ts.filter Token.isSignificant)).parametersOpener? k = some o := by
    rw [h.parametersOpener?, Option.map_eq_some_iff] at hopens
    obtain ⟨o', ho', he⟩ := hopens
    rw [ho', hinj he]
  rw [h.parameters? hts'.namesVariables hts.namesVariables, parameters?_eq hts'.namesVariables,
    hopens', Option.bind_some, allItems?, hpartner]
  simp only [hread, Option.map_some, List.map_map]
  congr 2
  funext d
  exact (h.read d).symm

/-- The parameters of every function with a well-formed signature are read back: for each one that
is declared, in order, its name and its place, whether it is a reference, and its type, with layout
left out. A type that begins or ends with the word `namespace`, as a piece of a qualified name, is
read without this word, so the parameters are those that are written iff there is none. -/
theorem parameters?_declared {ts : List Token} (hts : IsRaw ts) {f opener closer : Nat}
    {ds : List Declaration} (hf : (ofTokens ts).Introduces f opener)
    (hcloser : (ofTokens ts).partner? opener = some closer)
    (hds : (ofTokens ts).DeclaresAll ((ofTokens ts).significantBetween opener closer) ds) :
    (ofTokens ts).parameters? f = some (ds.map (ofTokens ts).read) ∧
      ((ofTokens ts).parameters? f = some (ds.map (ofTokens ts).written) ↔
        ∀ d ∈ ds, (ofTokens ts).kindAt? d.type.head? ≠ some .kwNamespace ∧
          (ofTokens ts).kindAt? d.type.getLast? ≠ some .kwNamespace) := by
  have hread : (ofTokens ts).parameters? f = some (ds.map (ofTokens ts).read) :=
    parameters?_of_declares hts hf hcloser hds
  refine ⟨hread, ?_⟩
  rw [hread, Option.some.injEq, List.map_inj_left]
  exact forall₂_congr fun d _ => read_eq_written_iff _ d

/-- An intersection type before a reference, a promoted parameter with a default, and a comma after
the last parameter. -/
theorem parameters?_declared_twoParameters :
    let l := ofText
      "<?php function &f(A\\B & C /* or less */ &...$r, private ?D $d = [1, 2],) \x7b\x7d"
    let ds : List Declaration := [⟨[], [7, 8, 9, 11, 13], some 17, some 18, 19, []⟩,
      ⟨[22], [24, 25], none, none, 27, [29, 31, 32, 33, 35, 36]⟩]
    l.Introduces 2 6 ∧ l.partner? 6 = some 38 ∧ l.DeclaresAll (l.significantBetween 6 38) ds ∧
      l.parameters? 2 = some (ds.map l.written) ∧
      ds.map l.written = [⟨"$r", 19, some ⟨7, 14, "A\\B&C"⟩, true⟩,
        ⟨"$d", 27, some ⟨24, 26, "?D"⟩, false⟩] := by
  intro l ds
  -- the text is read once for all that is computed
  obtain ⟨hkeyword, hbetween, hparen, hcloser, hpositions, htype, hmore, hmodifier, htype', hmore',
      hvalue, hnamespace, hwritten⟩ : l.kind? 2 = some .kwFunction ∧
      l.kindsAt (l.significantBetween 2 6) ∈ [[], [.ampersand], [.name], [.ampersand, .name]] ∧
      l.kind? 6 = some .openParen ∧ l.partner? 6 = some 38 ∧
      l.significantBetween 6 38 = [7, 8, 9, 11, 13, 17, 18, 19] ++ 20 ::
        ([22, 24, 25, 27, 29, 31, 32, 33, 35, 36] ++ 37 :: []) ∧
      l.kindsAt [7, 8, 9, 11, 13] = [.name, .nsSeparator, .name] ++ .ampersand :: [.name] ∧
      [17, 18, 19, 20].map l.kind? = [.ampersand, .ellipsis, .variableName, .comma].map some ∧
      l.kindsAt [22] = [.kwPrivate] ∧ l.kindsAt [24, 25] = .questionMark :: [.name] ∧
      [27, 37].map l.kind? = [.variableName, .comma].map some ∧
      l.kindsAt [29, 31, 32, 33, 35, 36] =
        .equal :: [.openSquare, .integer, .comma, .integer, .closeSquare] ∧
      (∀ d ∈ ds, l.kindAt? d.type.head? ≠ some .kwNamespace ∧
        l.kindAt? d.type.getLast? ≠ some .kwNamespace) ∧
      ds.map l.written = [⟨"$r", 19, some ⟨7, 14, "A\\B&C"⟩, true⟩,
        ⟨"$d", 27, some ⟨24, 26, "?D"⟩, false⟩] := by
    decide +kernel
  simp only [List.map_cons, List.map_nil, List.cons.injEq, and_true] at hmore hmore'
  have hname : TypeSyntax [.name] := .name (.path (.word rfl) (by decide))
  have hqualified : TypeSyntax [.name, .nsSeparator, .name] :=
    .name (.path (.cons rfl (.word rfl)) (by decide))
  have hinner : Nested (fun _ => True) [.integer, .comma, .integer] :=
    .of_forall fun k hk => ⟨by revert k; decide, trivial⟩
  have hf : l.Introduces 2 6 := ⟨Or.inl hkeyword, by decide, hbetween, hparen⟩
  have hfirst : Declaration.WellFormed l ⟨[], [7, 8, 9, 11, 13], some 17, some 18, 19, []⟩ :=
    ⟨nofun, Or.inr (htype ▸ .intersection hqualified hname),
      fun i hi => Option.some.inj hi ▸ hmore.1, fun i hi => Option.some.inj hi ▸ hmore.2.1,
      hmore.2.2.1, Or.inl rfl⟩
  have hsecond : Declaration.WellFormed l
      ⟨[22], [24, 25], none, none, 27, [29, 31, 32, 33, 35, 36]⟩ :=
    ⟨hmodifier ▸ by decide, Or.inr (htype' ▸ .nullable hname), nofun, nofun, hmore'.1,
      Or.inr ⟨_, hvalue, .group .square hinner .nil, by decide⟩⟩
  have hds : l.DeclaresAll (l.significantBetween 6 38) ds := by
    rw [hpositions]
    exact .cons hfirst hmore.2.2.2 (.cons hsecond hmore'.2 .nil)
  exact ⟨hf, hcloser, hds, (parameters?_declared (isRaw_tokens _) hf hcloser hds).2.2 hnamespace,
    hwritten⟩

/-- The type `Foo\Namespace` is read as `Foo\`. -/
theorem type_cut_at_namespace :
    let l := ofText "<?php function f(Foo\\Namespace $x) \x7b\x7d"
    let d : Declaration := ⟨[], [6, 7, 8], none, none, 10, []⟩
    l.Introduces 2 5 ∧ l.partner? 5 = some 11 ∧ l.DeclaresAll (l.significantBetween 5 11) [d] ∧
      l.written d = ⟨"$x", 10, some ⟨6, 9, "Foo\\Namespace"⟩, false⟩ ∧
      l.parameters? 2 = some [⟨"$x", 10, some ⟨6, 8, "Foo\\"⟩, false⟩] := by
  intro l d
  obtain ⟨hkeyword, hbetween, hparen, hcloser, hpositions, htype, hposition, hwritten, hread⟩ :
      l.kind? 2 = some .kwFunction ∧
      l.kindsAt (l.significantBetween 2 5) ∈ [[], [.ampersand], [.name], [.ampersand, .name]] ∧
      l.kind? 5 = some .openParen ∧ l.partner? 5 = some 11 ∧
      l.significantBetween 5 11 = d.positions ∧
      l.kindsAt [6, 7, 8] = [.name, .nsSeparator, .kwNamespace] ∧
      l.kind? 10 = some .variableName ∧
      l.written d = ⟨"$x", 10, some ⟨6, 9, "Foo\\Namespace"⟩, false⟩ ∧
      l.parameters? 2 = some [⟨"$x", 10, some ⟨6, 8, "Foo\\"⟩, false⟩] := by
    decide +kernel
  have hname : TypeSyntax [.name, .nsSeparator, .kwNamespace] :=
    .name (.path (.cons rfl (.word rfl)) (by decide))
  have hd : d.WellFormed l := ⟨nofun, Or.inr (htype ▸ hname), nofun, nofun, hposition, Or.inl rfl⟩
  exact ⟨⟨Or.inl hkeyword, by decide, hbetween, hparen⟩, hcloser,
    hpositions ▸ .last hd, hwritten, hread⟩

end Listing

end Vintage
