import Vintage.Proofs.Layout.Passes
import Vintage.Proofs.Layout.Readings
import Vintage.Proofs.LexemeTexts
import Vintage.Rule

/-!
# Findings do not depend on layout

All rules but the one for `declare` directives look at significant tokens only. So the findings for
a list of tokens are those for the list without its white space and comments, up to the numbers of
the tokens.

Results:
* `Thins.findings`: what one rule finds.
* `Rule.findAll_without_layout`: what a set of rules finds.
-/

namespace Vintage

/-! ## Renumbered findings -/

/-- The place with its token renumbered. -/
def Place.move (pos : Nat → Nat) (p : Place) : Place := { p with token := pos p.token }

/-- The finding with its token renumbered. -/
def Finding.move (pos : Nat → Nat) (f : Finding) : Finding := { f with place := f.place.move pos }

theorem Finding.notAfter_move {pos : Nat → Nat} (h : StrictMono pos) (f g : Finding) :
    (f.move pos).notAfter (g.move pos) = f.notAfter g := by
  have htoken : compare (pos f.place.token) (pos g.place.token) =
      compare f.place.token g.place.token := by
    simp only [Nat.compare_eq_ite_lt, h.lt_iff_lt]
  simp only [Finding.notAfter, Finding.move, Place.move, Place.compare, htoken]

theorem Wording.findings_move (pos : Nat → Nat) (w : Wording) (place : Place)
    (name display : String) (alternative : Option String) (v : Verdict) :
    w.findings (place.move pos) name display alternative v =
      (w.findings place name display alternative v).map (Finding.move pos) := by
  have hintroduction (base : String) : w.introduction? (place.move pos) base display v =
      (w.introduction? place base display v).map (Finding.move pos) := by
    unfold Wording.introduction?
    cases v.absentIn with
    | some version => rfl
    | none =>
      cases v.conditionalIn with
      | some condition => rfl
      | none => rfl
  have hwithdrawal (base : String) : w.withdrawal? (place.move pos) base display alternative v =
      (w.withdrawal? place base display alternative v).map (Finding.move pos) := by
    unfold Wording.withdrawal?
    cases v.isWithdrawal <;> rfl
  unfold Wording.findings
  simp only [hintroduction, hwithdrawal, List.map_append, Option.toList_map]

namespace Thins

variable {pos : Nat → Nat} {l' l : Listing}

theorem place (h : Thins pos l'.tokens l.tokens) (k : Nat) :
    l.place (pos k) = (l'.place k).move pos := by
  unfold Listing.place
  rw [h.listing_get?]
  cases l'.get? k <;> rfl

/-! ## Checks -/

theorem report (h : Thins pos l'.tokens l.tokens) (c : Check) (k : Nat) (f : Feature)
    (range : VersionRange) :
    c.report l (pos k) f range = (c.report l' k f range).map (Finding.move pos) := by
  unfold Check.report
  cases f.verdict? range with
  | none => rfl
  | some v =>
    simp only [h.place]
    exact Wording.findings_move pos c.wording _ _ _ _ v

theorem bind_text (h : Thins pos l'.tokens l.tokens) {α : Type} (g : String → Option α) (k : Nat) :
    ((l.get? (pos k)).bind fun t => g t.text) = (l'.get? k).bind fun t => g t.text := by
  rw [h.listing_get?]
  cases l'.get? k <;> rfl

theorem reportToken (h : Thins pos l'.tokens l.tokens) (c : Check) (range : VersionRange)
    (k : Nat) :
    c.reportToken l range (pos k) = (c.reportToken l' range k).map (Finding.move pos) := by
  unfold Check.reportToken
  rw [h.bind_text]
  cases (l'.get? k).bind fun t => c.catalogue.find? t.text with
  | none => rfl
  | some f => exact h.report c k f range

theorem uses (h : Thins pos l'.tokens l.tokens) {c : Check}
    (hc : ∀ k, c.applies l (pos k) = c.applies l' k) {kinds : List TokenKind}
    (hkinds : ∀ k ∈ kinds, k.isLayout = false) :
    c.uses l kinds = (c.uses l' kinds).map pos := by
  unfold Check.uses
  rw [h.positionsOf hkinds, List.filter_map]
  congr 2
  funext k
  exact hc k

/-- What is reported for the tokens of given kinds, if each report is the same. -/
theorem flatMap_uses (h : Thins pos l'.tokens l.tokens) {c : Check}
    (hc : ∀ k, c.applies l (pos k) = c.applies l' k) {kinds : List TokenKind}
    (hkinds : ∀ k ∈ kinds, k.isLayout = false) {g g' : Nat → List Finding}
    (hg : ∀ k, g (pos k) = (g' k).map (Finding.move pos)) :
    (c.uses l kinds).flatMap g = ((c.uses l' kinds).flatMap g').map (Finding.move pos) := by
  rw [h.uses hc hkinds, List.flatMap_map, List.map_flatMap]
  congr 1
  funext k
  exact hg k

theorem run (h : Thins pos l'.tokens l.tokens) {c : Check}
    (hc : ∀ k, c.applies l (pos k) = c.applies l' k) (range : VersionRange) :
    c.run l range [.name] = (c.run l' range [.name]).map (Finding.move pos) :=
  h.flatMap_uses hc (by decide) (h.reportToken c range)

/-! ## Extensions -/

/-- A call, renumbered. -/
def moveCall (pos : Nat → Nat) (call : Check.ExtensionCall) : Check.ExtensionCall :=
  { call with position := pos call.position }

theorem extensionCalls (h : Thins pos l'.tokens l.tokens) :
    Check.extensionCalls l = (Check.extensionCalls l').map (moveCall pos) := by
  unfold Check.extensionCalls
  rw [h.uses h.isGlobalCall (by decide), List.filterMap_map, List.map_filterMap]
  congr 1
  funext k
  simp only [Function.comp_apply, h.listing_get?]
  cases l'.get? k with
  | none => rfl
  | some t =>
    simp only [Option.map_some, Option.bind_some, Token.reindex, Option.map_map]
    rfl

theorem extensionReport (h : Thins pos l'.tokens l.tokens) (range : VersionRange)
    (call : Check.ExtensionCall) :
    Check.extensionReport l range (moveCall pos call) =
      (Check.extensionReport l' range call).map (Finding.move pos) := by
  unfold Check.extensionReport moveCall
  simp only
  cases call.feature.verdict? range with
  | none => rfl
  | some v =>
    simp only [h.place]
    exact Wording.findings_move pos _ _ _ _ _ v

theorem extensionFindings (h : Thins pos l'.tokens l.tokens) (t : Target) :
    Check.extensionFindings l t = (Check.extensionFindings l' t).map (Finding.move pos) := by
  unfold Check.extensionFindings
  rw [h.extensionCalls, List.filter_map, List.flatMap_map, List.map_flatMap]
  congr 1
  funext call
  exact h.extensionReport t.range call

/-! ## Interfaces -/

theorem referenceReport (h : Thins pos l'.tokens l.tokens) (range : VersionRange) (r : Reference) :
    Check.referenceReport l range (moveReference pos r) =
      (Check.referenceReport l' range r).map (Finding.move pos) := by
  have hname : (moveReference pos r).isNamespaced = r.isNamespaced := rfl
  have hshort : (moveReference pos r).shortName = r.shortName := rfl
  unfold Check.referenceReport
  rw [hname, hshort]
  split
  · rfl
  · cases Check.newInterfaces.catalogue.find? r.shortName with
    | none => rfl
    | some f => exact h.report _ r.position f range

theorem interfaceFindings (h : Thins pos l'.tokens l.tokens) (t : Target) :
    Check.interfaceFindings l t = (Check.interfaceFindings l' t).map (Finding.move pos) := by
  refine h.flatMap_uses ?_ (by decide) fun k => ?_
  · intro k
    simp only [Check.newInterfaces, h.kind?]
  · rw [h.interfaces, List.flatMap_map, List.map_flatMap]
    congr 1
    funext r
    exact h.referenceReport t.range r

/-! ## Types -/

theorem typeReport (h : Thins pos l'.tokens l.tokens) (c : Check) (range : VersionRange)
    (inClass : Bool) (type : TypeHint) :
    Check.typeReport c l range inClass (moveType pos type) =
      (Check.typeReport c l' range inClass type).map (Finding.move pos) := by
  have hnames : (moveType pos type).names = type.names := rfl
  unfold Check.typeReport
  rw [hnames, List.map_flatMap]
  congr 1
  funext name
  split
  · rfl
  · cases c.catalogue.find? name with
    | none => rfl
    | some f => exact h.report c type.start f range

theorem flatMap_typeReport (h : Thins pos l'.tokens l.tokens) (c : Check) (range : VersionRange)
    (inClass : Bool) (types : List TypeHint) :
    (types.map (moveType pos)).flatMap (Check.typeReport c l range inClass) =
      (types.flatMap (Check.typeReport c l' range inClass)).map (Finding.move pos) := by
  rw [List.flatMap_map, List.map_flatMap]
  congr 1
  funext type
  exact h.typeReport c range inClass type

theorem signatureReport (h : Thins pos l'.tokens l.tokens) (hl' : l'.NamesVariables)
    (hl : l.NamesVariables) (range : VersionRange) (k : Nat) :
    Check.signatureReport l range (pos k) =
      (Check.signatureReport l' range k).map (Finding.move pos) := by
  have hparameters : ((l.parameters? (pos k)).getD []).filterMap Parameter.type =
      (((l'.parameters? k).getD []).filterMap Parameter.type).map (moveType pos) := by
    rw [h.parameters? hl' hl]
    cases l'.parameters? k with
    | none => rfl
    | some ps =>
      simp only [Option.map_some, Option.getD_some, List.filterMap_map, List.map_filterMap]
      rfl
  unfold Check.signatureReport
  simp only [h.enclosing?, Option.isSome_map, hparameters, h.returnType?, Option.toList_map,
    h.flatMap_typeReport, List.map_append]

theorem typeFindings (h : Thins pos l'.tokens l.tokens) (hl' : l'.NamesVariables)
    (hl : l.NamesVariables) (t : Target) :
    Check.typeFindings l t = (Check.typeFindings l' t).map (Finding.move pos) := by
  refine h.flatMap_uses ?_ (by decide) (h.signatureReport hl' hl t.range)
  intro k
  simp only [Check.parameterTypes, Check.isFunctionKeyword, h.kind?]

/-! ## Keywords -/

theorem followedByFrom (h : Thins pos l'.tokens l.tokens) (k : Nat) :
    Check.followedByFrom l (pos k) = Check.followedByFrom l' k := by
  unfold Check.followedByFrom
  rw [h.next?, h.bind_get?, Option.any_map]
  rfl

theorem keywordKey (h : Thins pos l'.tokens l.tokens) (k : Nat) (t : Token) :
    Check.keywordKey l (pos k) (t.reindex pos) = Check.keywordKey l' k t := by
  unfold Check.keywordKey
  simp only [Token.reindex, h.followedByFrom]

theorem keywordReport (h : Thins pos l'.tokens l.tokens) (range : VersionRange) (k : Nat) :
    Check.keywordReport l range (pos k) =
      (Check.keywordReport l' range k).map (Finding.move pos) := by
  have hfound : ((l.get? (pos k)).bind fun t =>
      Check.newKeywords.catalogue.find? (Check.keywordKey l (pos k) t)) =
      (l'.get? k).bind fun t => Check.newKeywords.catalogue.find? (Check.keywordKey l' k t) := by
    rw [h.listing_get?]
    cases l'.get? k with
    | none => rw [Option.map_none, Option.bind_none, Option.bind_none]
    | some t => rw [Option.map_some, Option.bind_some, Option.bind_some, h.keywordKey]
  unfold Check.keywordReport
  rw [hfound]
  cases (l'.get? k).bind fun t => Check.newKeywords.catalogue.find? (Check.keywordKey l' k t) with
  | none => rfl
  | some f =>
    simp only
    cases f.verdict? range with
    | none => rfl
    | some v =>
      simp only [h.place]
      exact Wording.findings_move pos _ _ _ _ _ v

theorem keywordFindings (h : Thins pos l'.tokens l.tokens) (t : Target) :
    Check.keywordFindings l t = (Check.keywordFindings l' t).map (Finding.move pos) := by
  refine h.flatMap_uses ?_ (by decide) (h.keywordReport t.range)
  intro k
  simp only [Check.newKeywords, h.kind?]

/-! ## Settings and modifiers -/

/-- A literal, renumbered. -/
def moveLiteral (pos : Nat → Nat) (literal : Nat × String) : Nat × String :=
  (pos literal.1, literal.2)

/-- Items that match are the same literal. -/
theorem literalAt? (h : Thins pos l'.tokens l.tokens) {item item' : Item}
    (hitem : item.Matches pos item') :
    Check.literalAt? l item = (Check.literalAt? l' item').map (moveLiteral pos) := by
  unfold Check.literalAt?
  rw [h.firstIn? selects_isSignificant hitem.start hitem.stop]
  cases l'.firstIn? Token.isSignificant item'.start item'.stop with
  | none => rfl
  | some first =>
    rw [Option.map_some, Option.bind_some, Option.bind_some, h.listing_get?]
    cases l'.get? first with
    | none => rfl
    | some t =>
      simp only [Option.map_some, Option.bind_some, Token.reindex,
        h.firstIn? selects_isSignificant (Splits.after h.strictMono first) hitem.stop,
        Option.isNone_map]
      split <;> rfl

theorem writtenLiteral? (h : Thins pos l'.tokens l.tokens) (k n : Nat) :
    Check.writtenLiteral? l (pos k) n = (Check.writtenLiteral? l' k n).map (moveLiteral pos) := by
  unfold Check.writtenLiteral?
  rw [h.openerAfter?]
  cases l'.openerAfter? k with
  | none => rfl
  | some opener =>
    rw [Option.map_some, Option.bind_some, Option.bind_some, Option.bind_assoc, Option.bind_assoc]
    exact bind_eq_of_rel (h.allItems? opener) fun hitems =>
      bind_eq_of_rel (Item.Matches.getElem? hitems n) h.literalAt?

theorem spellsOneOf (h : Thins pos l'.tokens l.tokens) (k : Nat) (names : List String) :
    Check.spellsOneOf l (pos k) names = Check.spellsOneOf l' k names := by
  unfold Check.spellsOneOf
  rw [h.listing_get?, Option.any_map]
  rfl

theorem settingReport (h : Thins pos l'.tokens l.tokens) (range : VersionRange) (k : Nat) :
    Check.settingReport l range (pos k) =
      (Check.settingReport l' range k).map (Finding.move pos) := by
  rw [Check.settingReport_eq, Check.settingReport_eq, h.writtenLiteral?]
  cases Check.writtenLiteral? l' k 0 with
  | none => rfl
  | some literal =>
    rw [Option.map_some, moveLiteral, Check.settingReportOf, Check.settingReportOf, h.spellsOneOf]
    cases Check.removedSettings.catalogue.find? literal.2 with
    | none => rfl
    | some f =>
      simp only [h.report, List.map_map]
      congr 1
      funext finding
      simp only [Function.comp_apply, Check.soften]
      split <;> rfl

theorem settingFindings (h : Thins pos l'.tokens l.tokens) (t : Target) :
    Check.settingFindings l t = (Check.settingFindings l' t).map (Finding.move pos) := by
  refine h.flatMap_uses ?_ (by decide) (h.settingReport t.range)
  intro k
  simp only [Check.removedSettings, h.spellsOneOf, h.isGlobalCall]

theorem optionsPlace? (h : Thins pos l'.tokens l.tokens) (k : Nat) :
    Check.optionsPlace? l (pos k) = Check.optionsPlace? l' k := by
  unfold Check.optionsPlace?
  rw [h.listing_get?]
  cases l'.get? k <;> rfl

theorem modifierReport (h : Thins pos l'.tokens l.tokens) (range : VersionRange) {f : Feature}
    (hf : Check.removedModifiers.catalogue.find? "e" = some f) (k : Nat) :
    Check.modifierReport l range f (pos k) =
      (Check.modifierReport l' range f k).map (Finding.move pos) := by
  rw [Check.modifierReport_eq l range hf, Check.modifierReport_eq l' range hf, h.optionsPlace?]
  cases Check.optionsPlace? l' k with
  | none => rfl
  | some n =>
    rw [Option.bind_some, Option.bind_some, h.writtenLiteral?]
    cases Check.writtenLiteral? l' k n with
    | none => rfl
    | some literal =>
      rw [Option.map_some, moveLiteral, Check.modifierReportOf, Check.modifierReportOf]
      split
      · exact h.report _ literal.1 f range
      · rfl

theorem modifierFindings (h : Thins pos l'.tokens l.tokens) (t : Target) :
    Check.modifierFindings l t = (Check.modifierFindings l' t).map (Finding.move pos) := by
  unfold Check.modifierFindings
  cases hf : Check.removedModifiers.catalogue.find? "e" with
  | none => rfl
  | some f =>
    refine h.flatMap_uses ?_ (by decide) (h.modifierReport t.range hf)
    intro k
    simp only [Check.removedModifiers, h.optionsPlace?, h.isGlobalCall]

/-! ## Rules -/

/-- What a rule finds does not depend on layout, the rule for directives apart. -/
theorem findings (h : Thins pos l'.tokens l.tokens) (hl' : l'.NamesVariables)
    (hl : l.NamesVariables) {r : Rule} (hr : r ≠ .directives) (t : Target) :
    r.findings l t = (r.findings l' t).map (Finding.move pos) := by
  cases r with
  | newFunctions => exact h.run h.isGlobalCall t.range
  | removedFunctions => exact h.run h.isGlobalCall t.range
  | removedExtensions => exact h.extensionFindings t
  | newConstants => exact h.run h.isGlobalConstant t.range
  | removedConstants => exact h.run h.isGlobalConstant t.range
  | newInterfaces => exact h.interfaceFindings t
  | newTypes => exact h.typeFindings hl' hl t
  | newKeywords => exact h.keywordFindings t
  | directives => exact absurd rfl hr
  | removedSettings => exact h.settingFindings t
  | removedModifiers => exact h.modifierFindings t

theorem findAll (h : Thins pos l'.tokens l.tokens) (hl' : l'.NamesVariables)
    (hl : l.NamesVariables) (t : Target) {chosen : List String}
    (hchosen : Rule.directives.name ∉ chosen) :
    Rule.findAll l t chosen = (Rule.findAll l' t chosen).map (Finding.move pos) := by
  have hrules : (Rule.ofNames chosen).flatMap (fun r => r.findings l t) =
      ((Rule.ofNames chosen).flatMap fun r => r.findings l' t).map (Finding.move pos) := by
    rw [List.map_flatMap]
    refine List.flatMap_congr fun r hr => h.findings hl' hl ?_ t
    rintro rfl
    exact hchosen (Rule.name_mem_of_mem_ofNames hr)
  unfold Rule.findAll
  rw [hrules]
  exact (List.map_mergeSort fun f _ g _ => (Finding.notAfter_move h.strictMono f g).symm).symm

end Thins

/-! ## Lists of tokens -/

/-- A list of tokens as it is read from a text: without structure, and with names for variables. -/
structure IsRaw (ts : List Token) : Prop where
  bare : ∀ t ∈ ts, t.Bare
  named : ∀ t ∈ ts, t.kind = .variableName → ¬ t.Blank

/-- A variable starts with `$`, so it has a name. -/
theorem IsLexed.isRaw {ts : List Token} (h : IsLexed ts) : IsRaw ts where
  bare := h.bare
  named := by
    intro t ht hkind hblank
    have hfits := h.fits t ht
    rw [hkind, TokenKind.fits, beq_iff_eq] at hfits
    exact absurd (hblank '$' (List.mem_of_mem_head? hfits)) (by decide)

theorem isRaw_tokens (cs : List Char) : IsRaw ((Source.ofChars cs).tokens (Lexeme.ofChars cs)) :=
  (isLexed_tokens cs).isRaw

namespace IsRaw

variable {ts : List Token}

theorem filter (h : IsRaw ts) (p : Token → Bool) : IsRaw (ts.filter p) where
  bare t ht := h.bare t (List.mem_of_mem_filter ht)
  named t ht := h.named t (List.mem_of_mem_filter ht)

theorem namesVariables (h : IsRaw ts) : (Listing.ofTokens ts).NamesVariables := by
  intro k t ht hkind hblank
  change (withStructure ts)[k]? = some t at ht
  rw [withStructure_getElem? fun t ht => (h.bare t ht).scope, Option.map_eq_some_iff] at ht
  obtain ⟨u, hu, rfl⟩ := ht
  obtain ⟨v, hv, htext, -, hsame | hname⟩ := origin_linked_settleNames hu
  · refine h.named v hv (hsame.symm.trans hkind) ?_
    unfold Token.Blank
    rw [← htext]
    exact hblank
  · cases hname.symm.trans hkind

end IsRaw

/-- White space and comments decide nothing but the numbers of tokens. Every text is read into a raw
list of tokens. Without its layout, such a list has the same findings in the same order; the `k`-th
of its tokens is the token at `sourceIndex ts k` of the whole list. The rule for directives is left
out: it shows the value of a directive with the layout in it. -/
theorem Rule.findAll_without_layout :
    (∀ cs, IsRaw ((Source.ofChars cs).tokens (Lexeme.ofChars cs))) ∧
      ∀ ts, IsRaw ts →
        StrictMono (sourceIndex ts) ∧
        (∀ k : Nat, ts[sourceIndex ts k]? = (ts.filter Token.isSignificant)[k]?) ∧
        ∀ target chosen, Rule.directives.name ∉ chosen →
          Rule.findAll (Listing.ofTokens ts) target chosen =
            (Rule.findAll (Listing.ofTokens (ts.filter Token.isSignificant)) target chosen).map
              (Finding.move (sourceIndex ts)) := by
  refine ⟨isRaw_tokens, fun ts h => ⟨sourceIndex_strictMono ts, getElem?_sourceIndex ts, ?_⟩⟩
  intro target chosen hchosen
  have hembeds := embeds_withStructure h.bare
  exact hembeds.findAll (h.filter _).namesVariables h.namesVariables target hchosen

/-- A typed parameter, and a comment where another one could stand. -/
def commentedParameters : List Token :=
  [{ kind := .kwFunction, text := "function", line := 1, column := 7 },
   { kind := .whitespace, text := " ", line := 1, column := 15 },
   { kind := .name, text := "f", line := 1, column := 16 },
   { kind := .openParen, text := "(", line := 1, column := 17 },
   { kind := .name, text := "iterable", line := 1, column := 18 },
   { kind := .comment, text := "/* of names */", line := 1, column := 26 },
   { kind := .variableName, text := "$names", line := 1, column := 40 },
   { kind := .comma, text := ",", line := 1, column := 46 },
   { kind := .docComment, text := "/** no more */", line := 1, column := 47 },
   { kind := .closeParen, text := ")", line := 1, column := 61 }]

theorem Rule.findAll_without_layout_parameters :
    IsRaw commentedParameters ∧ Rule.directives.name ∉ [Rule.newTypes.name] ∧
      Rule.findAll (Listing.ofTokens commentedParameters) ⟨⟨some ⟨7, 0, none⟩, none⟩, {}⟩
          [Rule.newTypes.name] =
        (Rule.findAll (Listing.ofTokens (commentedParameters.filter Token.isSignificant))
          ⟨⟨some ⟨7, 0, none⟩, none⟩, {}⟩ [Rule.newTypes.name]).map
            (Finding.move (sourceIndex commentedParameters)) := by
  have hsign : ∀ t ∈ commentedParameters, t.kind = .variableName → '$' ∈ t.text.toList := by decide
  have hraw : IsRaw commentedParameters := by
    refine ⟨by decide, fun t ht hkind hblank => ?_⟩
    exact absurd (hblank '$' (hsign t ht hkind)) (by decide)
  have hchosen : Rule.directives.name ∉ [Rule.newTypes.name] := by decide
  exact ⟨hraw, hchosen, (Rule.findAll_without_layout.2 _ hraw).2.2 _ _ hchosen⟩

end Vintage
