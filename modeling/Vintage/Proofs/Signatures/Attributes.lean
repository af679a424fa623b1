import Vintage.Proofs.Signatures.AttributeGroups
import Vintage.Proofs.Signatures.Parameters

/-!
# Parameters with attributes

Attributes before a parameter say nothing about its name, its type or whether it is a reference.
They are skipped when the parameters of a function are read, but not always to their end, so that
the rest may pass for a part of the type.

Results:
* `Listing.StartsParameter`: a parameter starts at a position, layout apart.
* `Listing.parameters?_attributes`: what an attribute group changes about the parameters.
-/

namespace Vintage

/-! ## With layout -/

theorem map_spelling_filter (ts : List Token) :
    (ts.filter Token.isSignificant).map Token.spelling =
      (ts.map Token.spelling).filter fun s => !s.1.isLayout := by
  rw [List.filter_map]
  rfl

theorem sourceIndex_append {us : List Token} (vs : List Token) {k : Nat}
    (hk : k < (us.filter Token.isSignificant).length) :
    sourceIndex (us ++ vs) k = sourceIndex us k := by
  induction us generalizing k with
  | nil => cases hk
  | cons t us ih =>
    by_cases ht : t.isSignificant = true
    · rw [List.filter_cons, if_pos ht, List.length_cons] at hk
      rw [List.cons_append]
      cases k with
      | zero => rw [sourceIndex_zero ht, sourceIndex_zero ht]
      | succ k => rw [sourceIndex_succ ht, sourceIndex_succ ht, ih (by omega)]
    · rw [List.filter_cons, if_neg ht] at hk
      rw [List.cons_append, sourceIndex_layout ht, sourceIndex_layout ht, ih hk]

theorem splits_append (us vs : List Token) :
    Splits (sourceIndex (us ++ vs)) us.length (us.filter Token.isSignificant).length := by
  induction us with
  | nil => exact Splits.zero _
  | cons t us ih =>
    intro k
    by_cases ht : t.isSignificant = true
    · rw [List.filter_cons, if_pos ht, List.length_cons, List.length_cons, List.cons_append]
      cases k with
      | zero => simp [sourceIndex_zero ht]
      | succ k =>
        rw [sourceIndex_succ ht, Nat.add_lt_add_iff_right, Nat.add_lt_add_iff_right]
        exact ih k
    · rw [List.filter_cons, if_neg ht, List.length_cons, List.cons_append, sourceIndex_layout ht,
        Nat.add_lt_add_iff_right]
      exact ih k

namespace Embeds

variable {pos : Nat → Nat} {l' l : Listing}

theorem map_kind_stretch (h : Embeds pos l'.tokens l.tokens) {a b a' b' : Nat}
    (ha : Splits pos a a') (hb : Splits pos b b') :
    ((l.stretch a b).filter Token.isSignificant).map Token.kind =
      (l'.stretch a' b').map Token.kind := by
  rw [Listing.stretch_eq, Listing.stretch_eq, List.filter_map, List.map_map, List.map_map]
  have hwindow := congrArg (List.map (Token.kind ∘ Prod.fst)) (h.window ha hb)
  rw [List.map_map] at hwindow
  exact hwindow

theorem map_shape_moveParameter (pos : Nat → Nat) (ps : List Parameter) :
    (ps.map (Thins.moveParameter pos)).map Parameter.shape = ps.map Parameter.shape := by
  rw [List.map_map]
  refine List.map_congr_left fun p _ => ?_
  rw [Function.comp_apply, Parameter.shape, Thins.moveParameter, Option.map_map]
  rfl

end Embeds

/-- Parameters that look alike, but for the type of one of them. -/
theorem Parameter.maps_of_shapes {ps ps' : List Parameter}
    {before after : List (String × Bool × Option String)} {shape : String × Bool × Option String}
    {text : Option String} (hps : ps.map Parameter.shape = before ++ shape :: after)
    (hps' : ps'.map Parameter.shape = before ++ (shape.1, shape.2.1, text) :: after) :
    ps'.map Parameter.name = ps.map Parameter.name ∧
      ps'.map Parameter.byReference = ps.map Parameter.byReference ∧
      (ps'.map (fun p => p.type.map TypeHint.text) = ps.map (fun p => p.type.map TypeHint.text) ↔
        text = shape.2.2) := by
  have hname (ps : List Parameter) :
      ps.map Parameter.name = (ps.map Parameter.shape).map (·.1) := by
    rw [List.map_map]
    rfl
  have hreference (ps : List Parameter) :
      ps.map Parameter.byReference = (ps.map Parameter.shape).map (·.2.1) := by
    rw [List.map_map]
    rfl
  have htype (ps : List Parameter) : ps.map (fun p => p.type.map TypeHint.text) =
      (ps.map Parameter.shape).map (·.2.2) := by
    rw [List.map_map]
    rfl
  rw [hname, hname ps, hreference, hreference ps, htype, htype ps, hps, hps']
  simp

namespace Listing

theorem exists_of_rel_some {α β : Type} {R : α → β → Prop} {a : α} {o : Option β}
    (h : Option.Rel R (some a) o) : ∃ b, o = some b ∧ R a b := by
  cases h with
  | some h => exact ⟨_, rfl, h⟩

/-- A parameter of the function at a position starts at another position, layout apart. -/
def StartsParameter (l : Listing) (f q : Nat) : Prop :=
  ∃ opener items item p, l.parametersOpener? f = some opener ∧ l.items? opener = some items ∧
    item ∈ items ∧ item.start ≤ q ∧
    (∀ j, item.start ≤ j → j < q → (l.get? j).any Token.isSignificant = false) ∧
    l.parameter? item = some (some p)

/-- Without layout the item of the parameter starts at that position. -/
theorem StartsParameter.exists_item {pos : Nat → Nat} {l' l : Listing}
    (h : Embeds pos l'.tokens l.tokens) {f q q' : Nat} (hq : Splits pos q q') (hsize : q ≤ l.size)
    (hf : l.StartsParameter f q) :
    ∃ k o items item p, pos k = f ∧ l'.parametersOpener? k = some o ∧
      l'.allItems? o = some items ∧ item ∈ items ∧ item.start = q' ∧
      l'.parameter? item = some (some p) := by
  obtain ⟨opener, items, item, p, hopener, hitems, hmem, hle, hlayout, hp⟩ := hf
  obtain ⟨k, rfl⟩ : ∃ k, pos k = f := by
    rcases (parametersOpener?_eq_some hopener).1 with hkind | hkind <;>
      exact h.exists_number hkind rfl
  rw [h.parametersOpener?, Option.map_eq_some_iff] at hopener
  obtain ⟨o, ho, rfl⟩ := hopener
  rw [items?_eq, Option.map_eq_some_iff] at hitems
  obtain ⟨all, hall, rfl⟩ := hitems
  have hmem : item ∈ all := by
    rcases dropBlankLast_cases all with he | ⟨last, -, he⟩
    · rwa [he] at hmem
    · rw [he]
      exact List.mem_append_left _ hmem
  obtain ⟨all', hall', hmatch⟩ := exists_of_rel_some (hall ▸ h.allItems? o)
  obtain ⟨n, hn⟩ := List.mem_iff_getElem?.1 hmem
  obtain ⟨item', hn', hitem⟩ := exists_of_rel_some (hn ▸ Item.Matches.getElem? hmatch n)
  rw [h.parameter? hitem, Option.map_eq_some_iff] at hp
  obtain ⟨p', hp', hsome⟩ := hp
  obtain ⟨p', rfl, -⟩ := Option.map_eq_some_iff.1 hsome
  have hstart : Splits pos q item'.start := by
    intro j
    rw [hitem.start j]
    refine ⟨fun hj => by omega, fun hj => Nat.lt_of_not_le fun hge => ?_⟩
    have hj' : j < l'.size := (h.splits_size j).2 (by rw [size] at hsize; omega)
    obtain ⟨t, ht, -⟩ := exists_get? hj'
    have hlayout := hlayout (pos j) hge hj
    rw [h.listing_get?, ht] at hlayout
    cases (h.significant j t ht).symm.trans hlayout
  exact ⟨k, o, all', item', p', rfl, ho, hall', List.mem_of_getElem? hn', hstart.unique hq, hp'⟩

/-- A group of tokens, with layout left out. -/
theorem spells_filtered {pre group post ts : List Token} (hts : ts = pre ++ (group ++ post))
    (hbare : ∀ t ∈ ts, t.Bare) {ks : List TokenKind}
    (hgroup : (((ofTokens ts).stretch pre.length
      (pre.length + group.length)).filter Token.isSignificant).map Token.kind = ks) :
    (ofTokens (ts.filter Token.isSignificant)).Spells (pre.filter Token.isSignificant).length ks ∧
      (group.filter Token.isSignificant).length = ks.length := by
  have h : Embeds (sourceIndex ts) (ofTokens (ts.filter Token.isSignificant)).tokens
      (ofTokens ts).tokens := embeds_withStructure hbare
  have hstart := splits_append pre (group ++ post)
  have hstop := splits_append (pre ++ group) post
  rw [← hts] at hstart
  rw [List.append_assoc, ← hts, List.length_append, List.filter_append, List.length_append] at hstop
  have hsize : (ofTokens (ts.filter Token.isSignificant)).size =
      (ts.filter Token.isSignificant).length :=
    size_withStructure fun t ht => (hbare t (List.mem_of_mem_filter ht)).scope
  rw [h.map_kind_stretch hstart hstop] at hgroup
  subst hgroup
  have hle : (pre.filter Token.isSignificant).length + (group.filter Token.isSignificant).length ≤
      (ofTokens (ts.filter Token.isSignificant)).size := by
    rw [hsize, hts, List.filter_append, List.filter_append]
    simp only [List.length_append]
    omega
  obtain ⟨hspells, hlength⟩ := spells_stretch (i := (pre.filter Token.isSignificant).length) hle
  exact ⟨hspells, by omega⟩

theorem exists_text_filtered {pre group post ts : List Token} (hts : ts = pre ++ (group ++ post))
    (hbare : ∀ t ∈ ts, t.Bare) (htext : ∀ t ∈ group, t.text ≠ "") {i : Nat}
    (hi : i < (group.filter Token.isSignificant).length) :
    ∃ t, (ofTokens (ts.filter Token.isSignificant)).get?
      ((pre.filter Token.isSignificant).length + i) = some t ∧ t.text ≠ "" := by
  have hbares : ∀ t ∈ ts.filter Token.isSignificant, t.Bare := fun t ht =>
    hbare t (List.mem_of_mem_filter ht)
  have hget := map_text_get? hbares ((pre.filter Token.isSignificant).length + i)
  rw [hts, List.filter_append, List.filter_append, List.getElem?_append_right (by omega),
    Nat.add_sub_cancel_left, List.getElem?_append_left hi, List.getElem?_eq_getElem hi,
    Option.map_some, ← List.filter_append, ← List.filter_append, ← hts] at hget
  obtain ⟨t, ht, hsame⟩ := Option.map_eq_some_iff.1 hget
  refine ⟨t, ht, ?_⟩
  rw [hsame]
  exact htext _ (List.mem_of_mem_filter (List.getElem_mem hi))

/-- An attribute group before a parameter, with constant contents that are well nested in brackets,
leaves the names of all parameters and the references among them as they were. It leaves their types
as they were iff nothing of the group that is not skipped passes for a piece of a type. -/
theorem parameters?_attributes {pre post group post' : List Token} (hraw : IsRaw (pre ++ post))
    (hraw' : IsRaw (pre ++ (group ++ post')))
    (hpost : post'.map Token.spelling = post.map Token.spelling) {ks : List TokenKind}
    (hgroup : (((ofTokens (pre ++ (group ++ post'))).stretch pre.length
      (pre.length + group.length)).filter Token.isSignificant).map Token.kind =
        .attributeStart :: (ks ++ [.closeSquare]))
    (htext : ∀ t ∈ group, t.text ≠ "") (hks : ConstantContents ks) {f : Nat}
    (hf : (ofTokens (pre ++ post)).StartsParameter f pre.length) {ps : List Parameter}
    (hps : (ofTokens (pre ++ post)).parameters? f = some ps) :
    ∃ ps', (ofTokens (pre ++ (group ++ post'))).parameters? f = some ps' ∧
      ps'.map Parameter.name = ps.map Parameter.name ∧
      ps'.map Parameter.byReference = ps.map Parameter.byReference ∧
      (∃ left, LeftOver ks left) ∧ ∀ left, LeftOver ks left →
        (ps'.map (fun p => p.type.map TypeHint.text) = ps.map (fun p => p.type.map TypeHint.text) ↔
          ∀ k ∈ left, k.passesForType = false) := by
  have h : Embeds (sourceIndex (pre ++ post))
      (ofTokens ((pre ++ post).filter Token.isSignificant)).tokens
      (ofTokens (pre ++ post)).tokens :=
    embeds_withStructure hraw.bare
  have h' : Embeds (sourceIndex (pre ++ (group ++ post')))
      (ofTokens ((pre ++ (group ++ post')).filter Token.isSignificant)).tokens
      (ofTokens (pre ++ (group ++ post'))).tokens := embeds_withStructure hraw'.bare
  have hraws := hraw.filter Token.isSignificant
  have hraws' := hraw'.filter Token.isSignificant
  have hsize : pre.length ≤ (ofTokens (pre ++ post)).size := by
    rw [size, size_withStructure fun t ht => (hraw.bare t ht).scope, List.length_append]
    omega
  obtain ⟨k, o, items, item, p, rfl, ho, hitems, hmem, hstart, hp⟩ :=
    hf.exists_item h (splits_append pre post) hsize
  rw [h.parameters? hraws.namesVariables hraw.namesVariables, Option.map_eq_some_iff] at hps
  obtain ⟨qs, hqs, rfl⟩ := hps
  rw [parameters?_eq hraws.namesVariables, ho, Option.bind_some, hitems, Option.bind_some] at hqs
  obtain ⟨hspells, hlength⟩ := spells_filtered rfl hraw'.bare hgroup
  rw [List.length_cons, List.length_append, List.length_singleton] at hlength
  obtain ⟨t, ht, hwritten⟩ := exists_text_filtered rfl hraw'.bare htext
    (show 1 + ks.length < (group.filter Token.isSignificant).length by omega)
  rw [← Nat.add_assoc] at ht
  -- the lists without layout, whatever is said to be left over
  have hmain (left : List TokenKind) (hleft : LeftOver ks left) := exists_shapes?_attributes
    (List.filter_append ..) (by rw [List.filter_append, List.filter_append]) hraws.bare hraws'.bare
    (fun t ht => (List.mem_filter.1 ht).2) (fun t ht => (List.mem_filter.1 ht).2)
    (by rw [map_spelling_filter, map_spelling_filter, hpost]) hks hleft hspells hlength ht hwritten
    ho hitems hmem hstart hp (show _ = some (qs.map Parameter.shape) by rw [shapes?, hqs]; rfl)
  obtain ⟨left, hleft⟩ := exists_leftOver hks.nested
  obtain ⟨hk, ho', items', hitems', before, shape, after, text, hshapes, hshapes', -⟩ :=
    hmain left hleft
  obtain ⟨qs', hqs', hshapes'⟩ := Option.map_eq_some_iff.1 hshapes'
  have hread : (ofTokens ((pre ++ (group ++ post')).filter Token.isSignificant)).parameters? k =
      some qs' := by
    rw [parameters?_eq hraws'.namesVariables, ho', Option.bind_some, hitems', Option.bind_some,
      hqs']
  have hmaps {before after : List (String × Bool × Option String)}
      {shape : String × Bool × Option String} {text : Option String}
      (hshapes : qs.map Parameter.shape = before ++ shape :: after)
      (hshapes' : qs'.map Parameter.shape = before ++ (shape.1, shape.2.1, text) :: after) :=
    Parameter.maps_of_shapes
      ((Embeds.map_shape_moveParameter (sourceIndex (pre ++ post)) qs).trans hshapes)
      ((Embeds.map_shape_moveParameter (sourceIndex (pre ++ (group ++ post'))) qs').trans hshapes')
  obtain ⟨hnames, hreferences, -⟩ := hmaps hshapes hshapes'
  refine ⟨_, ?_, hnames, hreferences, ⟨left, hleft⟩, fun left hleft => ?_⟩
  · rw [sourceIndex_append post hk, ← sourceIndex_append (group ++ post') hk,
      h'.parameters? hraws'.namesVariables hraw'.namesVariables, hread]
    rfl
  · obtain ⟨-, -, items'', hitems'', _, _, _, _, hold, hnew, htypes⟩ := hmain left hleft
    obtain rfl := Option.some.inj (hitems''.symm.trans hitems')
    rw [shapes?, hqs', Option.map_some, Option.some.injEq] at hnew
    rw [← htypes]
    exact (hmaps hold hnew).2.2

/-- The tokens of one line, from the given column on. -/
def onLine (column : Nat) : List (TokenKind × String) → List Token
  | [] => []
  | (kind, text) :: rest =>
    { kind, text, line := 1, column } :: onLine (column + text.length) rest

/-- Two attributes with arguments, and a comma after the last one. -/
theorem parameters?_attributes_trailingComma :
    let pre := onLine 7 [(.kwFunction, "function"), (.whitespace, " "), (.name, "f"),
      (.openParen, "("), (.name, "int"), (.whitespace, " "), (.ampersand, "&"),
      (.variableName, "$a"), (.comma, ","), (.whitespace, " ")]
    let group := onLine 27 [(.attributeStart, "#["), (.name, "A"), (.openParen, "("),
      (.integer, "1"), (.closeParen, ")"), (.comma, ","), (.whitespace, " "), (.name, "B"),
      (.openParen, "("), (.quotedText, "'x'"), (.closeParen, ")"), (.comma, ","),
      (.closeSquare, "]"), (.whitespace, " ")]
    let rest : List (TokenKind × String) := [(.questionMark, "?"), (.name, "B"),
      (.whitespace, " "), (.variableName, "$x"), (.whitespace, " "), (.equal, "="),
      (.whitespace, " "), (.openSquare, "["), (.integer, "1"), (.closeSquare, "]"),
      (.closeParen, ")"), (.semicolon, ";")]
    let l := ofTokens (pre ++ onLine 27 rest)
    let l' := ofTokens (pre ++ (group ++ onLine 44 rest))
    let contents : List TokenKind := [.name, .openParen, .integer, .closeParen, .comma, .name,
      .openParen, .quotedText, .closeParen]
    IsRaw (pre ++ onLine 27 rest) ∧ IsRaw (pre ++ (group ++ onLine 44 rest)) ∧
      l.StartsParameter 0 10 ∧ ConstantContents (contents ++ .comma :: []) ∧
      ∃ ps ps', l.parameters? 0 = some ps ∧ l'.parameters? 0 = some ps' ∧
        ps'.map Parameter.name = ps.map Parameter.name ∧
        ps'.map Parameter.byReference = ps.map Parameter.byReference ∧
        ps'.map (fun p => p.type.map TypeHint.text) = ps.map fun p => p.type.map TypeHint.text := by
  intro pre group rest l l' contents
  have hraw : IsRaw (pre ++ onLine 27 rest) := IsLexed.isRaw ⟨by decide, by decide⟩
  have hraw' : IsRaw (pre ++ (group ++ onLine 44 rest)) := IsLexed.isRaw ⟨by decide, by decide⟩
  obtain ⟨hpost, hgroup, htext, hopener, hitems, hlayout, hparameter, hps⟩ :
      (onLine 44 rest).map Token.spelling = (onLine 27 rest).map Token.spelling ∧
      ((l'.stretch 10 24).filter Token.isSignificant).map Token.kind =
        .attributeStart :: (contents ++ .comma :: [] ++ [.closeSquare]) ∧
      (∀ t ∈ group, t.text ≠ "") ∧ l.parametersOpener? 0 = some 3 ∧
      l.items? 3 = some [⟨4, 8, "int &$a"⟩, ⟨9, 20, "?B $x = [1]"⟩] ∧
      (l.get? 9).any Token.isSignificant = false ∧
      l.parameter? ⟨9, 20, "?B $x = [1]"⟩ =
        some (some ⟨"$x", 13, some ⟨10, 12, "?B"⟩, false⟩) ∧
      l.parameters? 0 =
        some [⟨"$a", 7, some ⟨4, 5, "int"⟩, true⟩, ⟨"$x", 13, some ⟨10, 12, "?B"⟩, false⟩] := by
    decide +kernel
  have hstarts : l.StartsParameter 0 10 := by
    refine ⟨3, _, _, _, hopener, hitems, by simp, (by decide : 9 ≤ 10), fun j hlow hhigh => ?_,
      hparameter⟩
    obtain rfl : j = 9 := Nat.le_antisymm (Nat.le_of_lt_succ hhigh) hlow
    exact hlayout
  have hnested : Nested (fun _ => True) contents := by
    have hone (k : TokenKind) (hk : k.isBracket = false) : Nested (fun _ => True) [k] :=
      .plain hk trivial .nil
    exact .plain rfl trivial (.group .round (hone .integer rfl)
      (.plain rfl trivial (.plain rfl trivial (.group .round (hone .quotedText rfl) .nil))))
  have hcontents : ConstantContents (contents ++ .comma :: []) :=
    ⟨hnested.append (.plain rfl trivial .nil), by decide, by decide, by decide⟩
  obtain ⟨ps', hps', hnames, hreferences, -, htypes⟩ :=
    parameters?_attributes hraw hraw' hpost hgroup htext hcontents hstarts hps
  exact ⟨hraw, hraw', hstarts, hcontents, _, ps', hps, hps', hnames, hreferences,
    (htypes [] (.several hnested .nil)).2 nofun⟩

/-- The first `]` of a group may be that of an array in it, and a comma in a group may be taken for
one between parameters: then the type of the parameter is not `int` any more. -/
theorem type_behind_attributes :
    (ofText "<?php function f(int $x) \x7b\x7d").parameters? 2 =
        some [⟨"$x", 8, some ⟨6, 7, "int"⟩, false⟩] ∧
      (ofText "<?php function f(#[A([1])] int $x) \x7b\x7d").parameters? 2 =
        some [⟨"$x", 17, some ⟨12, 16, ")]int"⟩, false⟩] ∧
      (ofText "<?php function f(#[A, B] int $x) \x7b\x7d").parameters? 2 =
        some [⟨"$x", 15, some ⟨10, 14, "B]int"⟩, false⟩] := by
  decide +kernel

end Listing

end Vintage
