import Mathlib.Data.List.Forall2
import Vintage.Rule
import Vintage.Proofs.LetterCase
import Vintage.Proofs.Spelling

/-!
# Findings in any case

A listing is folded when all its texts but the quoted ones are in small letters. Folding changes no
finding: where a token is looked at, its kind counts, or its text up to case. Directives are left
out, since a report of an unknown directive repeats it as it is written.

Results:
* `Listing.items?_fold`, `Listing.parameters?_lowered`, `Listing.interfaces_lowered`: readings, up to
  case.
* `Rule.findings_fold`: a listing and its folded form give the same findings.
* `Rule.findAll_of_sameUpToCase`: listings that are the same up to case give the same report.
-/

namespace Vintage

/-! ## Folded listings -/

/-- The text of a token in small letters; a quoted text is left as it is. -/
def Token.foldedText (t : Token) : String :=
  if t.kind = .quotedText then t.text else Text.lower t.text

theorem Token.lower_foldedText (t : Token) : Text.lower t.foldedText = Text.lower t.text := by
  unfold foldedText
  split
  · rfl
  · exact Text.lower_lower t.text

/-- The token with its text folded. -/
abbrev Token.fold : Token → Token := Token.respell Token.foldedText

theorem Token.spells_fold (t : Token) (s : String) : t.fold.spells s = t.spells s := by
  rw [spells, text_respell, ← Text.sameLetters_lower, lower_foldedText, Text.sameLetters_lower,
    spells]

theorem Catalogue.find?_foldedText (c : Catalogue) (t : Token) :
    c.find? t.foldedText = c.find? t.text := by
  rw [← find?_lower, Token.lower_foldedText, find?_lower]

theorem Catalogue.findPrefix?_foldedText (c : Catalogue) (t : Token) :
    c.findPrefix? t.foldedText = c.findPrefix? t.text := by
  rw [← findPrefix?_lower, Token.lower_foldedText, findPrefix?_lower]

namespace Listing

/-- The listing with its texts folded. -/
abbrev fold (l : Listing) : Listing := l.respell Token.foldedText

variable (l : Listing)

theorem lower_join_fold (ts : List Token) :
    Text.lower (String.join ((ts.map Token.fold).map Token.text)) =
      Text.lower (String.join (ts.map Token.text)) := by
  rw [Text.lower_join, Text.lower_join, List.map_map, List.map_map, List.map_map]
  exact congrArg _ (List.map_congr_left fun t _ => t.lower_foldedText)

theorem lower_textOf_fold (start stop : Nat) :
    Text.lower (l.fold.textOf start stop) = Text.lower (l.textOf start stop) := by
  rw [textOf, stretch_respell, lower_join_fold, textOf]

theorem lower_significantTextOf_fold (start stop : Nat) :
    Text.lower (l.fold.significantTextOf start stop) =
      Text.lower (l.significantTextOf start stop) := by
  rw [significantTextOf, stretch_respell, List.filter_map, lower_join_fold, significantTextOf]
  rfl

/-! ## Arguments -/

/-- An item is blank in any case. -/
theorem isEmpty_reread_fold {item : Item} (h : l.Covers item) :
    (l.fold.reread item).text.isEmpty = item.text.isEmpty := by
  have htext : item.text = (l.item item.start item.stop).text := congrArg Item.text h
  rw [htext, reread, Listing.item, Listing.item, ← Text.isEmpty_lower, ← Text.trim_lower,
    lower_textOf_fold, Text.trim_lower, Text.isEmpty_lower]

theorem dropBlankLast_map {f : Item → Item} {items : List Item}
    (hf : ∀ item ∈ items, (f item).text.isEmpty = item.text.isEmpty) :
    dropBlankLast (items.map f) = (dropBlankLast items).map f := by
  have hlast : ((items.map f).getLast?.any fun item => item.text.isEmpty) =
      items.getLast?.any fun item => item.text.isEmpty := by
    rw [List.getLast?_map]
    cases hitem : items.getLast? with
    | none => rfl
    | some item => exact hf item (List.mem_of_getLast? hitem)
  rw [dropBlankLast, hlast, dropBlankLast]
  split
  · exact List.map_dropLast.symm
  · rfl

theorem items?_fold (opener : Nat) :
    l.fold.items? opener = (l.items? opener).map (List.map l.fold.reread) := by
  rw [items?, get?_respell, items?]
  cases l.get? opener with
  | none => rfl
  | some t =>
    simp only [Option.map_some, Option.bind_some, Token.partner_respell]
    cases t.partner with
    | none => rfl
    | some closer =>
      simp only [itemsFrom?_respell]
      cases hitems : l.itemsFrom? (closer - (opener + 1)) (opener + 1) (opener + 1) 0 with
      | none => rfl
      | some items =>
        have hblank : ∀ item ∈ items, (l.fold.reread item).text.isEmpty = item.text.isEmpty :=
          fun item hitem => l.isEmpty_reread_fold (itemsFrom?_covers hitems item hitem)
        simp only [Option.map_some, dropBlankLast_map hblank]

theorem argument?_fold (i n : Nat) :
    l.fold.argument? i n = (l.argument? i n).map l.fold.reread := by
  rw [argument?, arguments?, openerAfter?_respell, argument?, arguments?]
  cases l.openerAfter? i with
  | none => rfl
  | some opener =>
    rw [Option.bind_some, Option.bind_some, items?_fold]
    cases l.items? opener with
    | none => rfl
    | some items => exact List.getElem?_map

/-! ## Types -/

theorem typeHint?_lowered (start stop : Nat) :
    (l.fold.typeHint? start stop).map TypeHint.lowered =
      (l.typeHint? start stop).map TypeHint.lowered := by
  rw [typeHint?, firstIn?_respell _ l blind_isSignificant,
    lastBefore?_respell _ l blind_isSignificant, typeHint?]
  cases l.firstIn? Token.isSignificant start stop with
  | none => rfl
  | some first =>
    cases l.lastBefore? Token.isSignificant stop with
    | none => rfl
    | some last =>
      simp only [Option.map_some, TypeHint.lowered, lower_significantTextOf_fold]

theorem returnType?_lowered (i : Nat) :
    (l.fold.returnType? i).map TypeHint.lowered = (l.returnType? i).map TypeHint.lowered := by
  have hends : Blind endsReturnType := fun _ _ => rfl
  rw [returnType?, parametersOpener?_respell, partner?_respell, afterSignature?_respell,
    kind?_respell, firstFrom?_respell _ l hends, returnType?]
  cases ((l.parametersOpener? i).bind l.partner?).bind l.afterSignature? with
  | none => rfl
  | some colon =>
    simp only
    split
    · cases l.firstFrom? endsReturnType (colon + 1) with
      | none => rfl
      | some stop => exact l.typeHint?_lowered _ _
    · rfl

end Listing

/-- The parameter in small letters. -/
def Parameter.lowered (p : Parameter) : Parameter :=
  { p with name := Text.lower p.name, type := p.type.map TypeHint.lowered }

namespace Listing

variable (l : Listing)

theorem parameter?_lowered (item : Item) :
    (l.fold.parameter? item).map (Option.map Parameter.lowered) =
      (l.parameter? item).map (Option.map Parameter.lowered) := by
  have hvariable : Blind fun t => t.kind == .variableName := blind_kind (· == .variableName)
  rw [parameter?, firstIn?_respell _ l hvariable, headFrom?_respell, parameter?]
  cases l.firstIn? (fun t => t.kind == .variableName) item.start item.stop with
  | none => rfl
  | some position =>
    have hname : Text.lower (((l.fold.get? position).map Token.text).getD "") =
        Text.lower (((l.get? position).map Token.text).getD "") := by
      rw [get?_respell]
      cases l.get? position with
      | none => rfl
      | some t => exact t.lower_foldedText
    simp only
    cases l.headFrom? (position - item.start) item.start 0 {} with
    | none => rfl
    | some head =>
      simp only [Option.map_some, Parameter.lowered, hname]
      cases head.type with
      | none => rfl
      | some ends => simp only [Option.bind_some, typeHint?_lowered]

theorem parametersOf?_lowered (items : List Item) :
    (l.fold.parametersOf? (items.map l.fold.reread)).map (List.map Parameter.lowered) =
      (l.parametersOf? items).map (List.map Parameter.lowered) := by
  induction items with
  | nil => rfl
  | cons item items ih =>
    have hitem := l.parameter?_lowered item
    rw [List.map_cons, parametersOf?, parametersOf?, parameter?_reread]
    cases hself : l.parameter? item with
    | none =>
      rw [hself, Option.map_none, Option.map_eq_none_iff] at hitem
      rw [hitem]
    | some q =>
      rw [hself, Option.map_some] at hitem
      obtain ⟨p, hp, hpq⟩ := Option.map_eq_some_iff.1 hitem
      cases hrest : l.parametersOf? items with
      | none =>
        rw [hrest, Option.map_none, Option.map_eq_none_iff] at ih
        rw [hp, ih]
      | some qs =>
        rw [hrest, Option.map_some] at ih
        obtain ⟨ps, hps, hpqs⟩ := Option.map_eq_some_iff.1 ih
        simp only [hp, hps, Option.map_some, List.map_append, ← Option.toList_map, hpq, hpqs]

theorem parameters?_lowered (i : Nat) :
    (l.fold.parameters? i).map (List.map Parameter.lowered) =
      (l.parameters? i).map (List.map Parameter.lowered) := by
  rw [parameters?, parametersOpener?_respell, parameters?]
  cases l.parametersOpener? i with
  | none => rfl
  | some opener =>
    rw [Option.bind_some, Option.bind_some, items?_fold]
    cases l.items? opener with
    | none => rfl
    | some items => exact l.parametersOf?_lowered items

/-- The types of the parameters of a function. -/
theorem parameterTypes_lowered (i : Nat) :
    (((l.fold.parameters? i).getD []).filterMap Parameter.type).map TypeHint.lowered =
      (((l.parameters? i).getD []).filterMap Parameter.type).map TypeHint.lowered := by
  have htypes (ps : Option (List Parameter)) :
      ((ps.getD []).filterMap Parameter.type).map TypeHint.lowered =
        ((ps.map (List.map Parameter.lowered)).getD []).filterMap Parameter.type := by
    cases ps with
    | none => rfl
    | some ps =>
      rw [Option.map_some, Option.getD_some, Option.getD_some, List.map_filterMap,
        List.filterMap_map]
      rfl
  rw [htypes, htypes, l.parameters?_lowered]

end Listing

/-! ## References -/

theorem Reference.listFrom_lowered {name name' : String} (h : Text.lower name = Text.lower name')
    (last : Option Nat) (es : List (Token × Nat)) :
    (listFrom name last (es.map fun e => (e.1.fold, e.2))).map lowered =
      (listFrom name' last es).map lowered := by
  have flush {name name' : String} (h : Text.lower name = Text.lower name') (last : Option Nat) :
      (last.map fun position => ({ position, name } : Reference)).toList.map lowered =
        (last.map fun position => ({ position, name := name' } : Reference)).toList.map lowered := by
    cases last with
    | none => rfl
    | some position => simp only [Option.map_some, Option.toList_some, List.map_cons, List.map_nil,
        lowered, h]
  induction es generalizing name name' last with
  | nil => exact flush h last
  | cons e es ih =>
    obtain ⟨t, i⟩ := e
    have hpiece : Text.lower (name ++ t.foldedText) = Text.lower (name' ++ t.text) := by
      rw [Text.lower_append, Text.lower_append, h, t.lower_foldedText]
    rw [List.map_cons, listFrom, listFrom]
    simp only [Token.kind_respell, Token.text_respell]
    split
    · exact ih hpiece (some i)
    · exact ih hpiece last
    · exact ih hpiece last
    · rw [List.map_append, List.map_append, flush h, ih rfl none]
    · exact ih h last

theorem Listing.interfaces_lowered (l : Listing) (i : Nat) :
    (l.fold.interfaces i).map Reference.lowered = (l.interfaces i).map Reference.lowered := by
  have himplements : Blind fun t => t.kind == .kwImplements := blind_kind (· == .kwImplements)
  rw [interfaces, get?_respell, firstIn?_respell _ l himplements, interfaces]
  cases l.get? i with
  | none => rfl
  | some t =>
    simp only [Option.map_some, Token.respell]
    split
    · cases t.scope with
      | none => rfl
      | some s =>
        simp only
        cases l.firstIn? (fun u => u.kind == .kwImplements) (i + 1) s.opener with
        | none => rfl
        | some start =>
          simp only [stretchWithPositions, stretch_respell, List.zipIdx_map]
          exact Reference.listFrom_lowered rfl none _
    · rfl

/-! ## Findings -/

/-- What does not depend on case is the same for lists that are the same up to case. -/
theorem flatMap_eq_of_map_eq {α β : Type} {lowered : α → α} {f : α → List β}
    (hf : ∀ a, f (lowered a) = f a) {as bs : List α} (h : as.map lowered = bs.map lowered) :
    as.flatMap f = bs.flatMap f := by
  have hmap (cs : List α) : (cs.map lowered).flatMap f = cs.flatMap f := by
    rw [List.flatMap_map, show (fun a => f (lowered a)) = f from funext hf]
  rw [← hmap as, h, hmap]

namespace Check

variable (l : Listing) (range : VersionRange)

theorem report_fold (c : Check) : c.report l.fold = c.report l := by
  funext i f range
  rw [report, Listing.place_respell, report]

theorem uses_fold {c : Check} (hc : c.applies l.fold = c.applies l) (kinds : List TokenKind) :
    c.uses l.fold kinds = c.uses l kinds := by
  rw [uses, Listing.positionsOf_respell, hc, uses]

theorem reportToken_fold (c : Check) : c.reportToken l.fold range = c.reportToken l range := by
  funext i
  rw [reportToken, Listing.get?_respell, report_fold, reportToken]
  cases l.get? i with
  | none => rfl
  | some t =>
    simp only [Option.map_some, Option.bind_some, Token.text_respell, Catalogue.find?_foldedText]

theorem run_fold {c : Check} (hc : c.applies l.fold = c.applies l) (kinds : List TokenKind) :
    c.run l.fold range kinds = c.run l range kinds := by
  rw [run, uses_fold l hc, reportToken_fold, run]

/-! Extensions: a call is exempted in any case. -/

/-- The call in small letters. -/
def ExtensionCall.lowered (call : ExtensionCall) : ExtensionCall :=
  { call with function := Text.lower call.function }

theorem extensionCalls_lowered :
    (extensionCalls l.fold).map ExtensionCall.lowered =
      (extensionCalls l).map ExtensionCall.lowered := by
  have huses := uses_fold l (c := removedExtensions) (l.isGlobalCall_respell _) [.name]
  rw [extensionCalls, huses, extensionCalls, List.map_filterMap, List.map_filterMap]
  -- the catalogue is a closed term, which a congruence step would evaluate
  generalize removedExtensions.catalogue = catalogue
  congr 1
  funext i
  rw [Listing.get?_respell]
  cases l.get? i with
  | none => rfl
  | some t =>
    simp only [Option.map_some, Option.bind_some, Token.text_respell, Option.map_map,
      Catalogue.findPrefix?_foldedText]
    apply Option.map_congr
    intro feature _
    simp only [Function.comp_apply, ExtensionCall.lowered, t.lower_foldedText]

theorem extensionFindings_fold (target : Target) :
    extensionFindings l.fold target = extensionFindings l target := by
  have hreport : extensionReport l.fold target.range = extensionReport l target.range := by
    funext call
    rw [extensionReport, Listing.place_respell, extensionReport]
  have hkept : (fun call : ExtensionCall => !target.exempt.contains call.function) ∘
      ExtensionCall.lowered = fun call => !target.exempt.contains call.function := by
    funext call
    exact congrArg not (target.exempt.contains_lower call.function)
  have hcalls := congrArg
    (List.filter fun call : ExtensionCall => !target.exempt.contains call.function)
    (extensionCalls_lowered l)
  rw [List.filter_map, List.filter_map, hkept] at hcalls
  have hcase (call : ExtensionCall) : extensionReport l target.range call.lowered =
      extensionReport l target.range call := rfl
  rw [extensionFindings, hreport]
  exact flatMap_eq_of_map_eq hcase hcalls

theorem interfaceFindings_fold (target : Target) :
    interfaceFindings l.fold target = interfaceFindings l target := by
  have happlies : newInterfaces.applies l.fold = newInterfaces.applies l := by
    funext i
    simp only [newInterfaces, Listing.kind?_respell]
  have hreport : referenceReport l.fold target.range = referenceReport l target.range := by
    funext r
    rw [referenceReport, report_fold, referenceReport]
  have hcase (r : Reference) : referenceReport l target.range r.lowered =
      referenceReport l target.range r := by
    rw [referenceReport, r.isNamespaced_lowered, r.shortName_lowered, Catalogue.find?_lower]
    rfl
  rw [interfaceFindings, uses_fold l happlies, hreport, interfaceFindings]
  congr 1
  funext i
  exact flatMap_eq_of_map_eq hcase (l.interfaces_lowered i)

theorem typeReport_lowered (c : Check) (inClass : Bool) (type : TypeHint) :
    typeReport c l range inClass type.lowered = typeReport c l range inClass type := by
  rw [typeReport, type.names_lowered]
  rfl

theorem signatureReport_fold : signatureReport l.fold range = signatureReport l range := by
  funext i
  have hreport (c : Check) : typeReport c l.fold range = typeReport c l range := by
    funext inClass type
    simp only [typeReport, report_fold]
  have hreturn : (l.fold.returnType? i).toList.map TypeHint.lowered =
      (l.returnType? i).toList.map TypeHint.lowered := by
    rw [← Option.toList_map, ← Option.toList_map, l.returnType?_lowered]
  rw [signatureReport, signatureReport, Listing.enclosing?_respell, hreport, hreport,
    flatMap_eq_of_map_eq (typeReport_lowered l range _ _) (l.parameterTypes_lowered i),
    flatMap_eq_of_map_eq (typeReport_lowered l range _ _) hreturn]

theorem typeFindings_fold (target : Target) : typeFindings l.fold target = typeFindings l target := by
  have happlies : parameterTypes.applies l.fold = parameterTypes.applies l := by
    funext i
    simp only [parameterTypes, isFunctionKeyword, Listing.kind?_respell]
  rw [typeFindings, uses_fold l happlies, signatureReport_fold, typeFindings]

theorem followedByFrom_fold (i : Nat) : followedByFrom l.fold i = followedByFrom l i := by
  rw [followedByFrom, Listing.next?_respell, Listing.bind_get?_respell, Option.any_map,
    followedByFrom]
  congr 1
  funext t
  rw [t.spells_fold]
  rfl

theorem keywordKey_fold (i : Nat) (t : Token) : keywordKey l.fold i t.fold = keywordKey l i t := by
  rw [keywordKey, followedByFrom_fold, keywordKey]
  simp only [Token.kind_respell, Token.text_respell, t.lower_foldedText]

theorem keywordReport_fold : keywordReport l.fold range = keywordReport l range := by
  funext i
  rw [keywordReport, Listing.get?_respell, Listing.place_respell, keywordReport]
  cases l.get? i with
  | none => rfl
  | some t => simp only [Option.map_some, Option.bind_some, keywordKey_fold]

theorem keywordFindings_fold (target : Target) :
    keywordFindings l.fold target = keywordFindings l target := by
  have happlies : newKeywords.applies l.fold = newKeywords.applies l := by
    funext i
    simp only [newKeywords, Listing.kind?_respell]
  rw [keywordFindings, uses_fold l happlies, keywordReport_fold, keywordFindings]

/-! Literals are compared as they are written. -/

theorem literalArgument?_fold : literalArgument? l.fold = literalArgument? l := by
  funext i n
  rw [literalArgument?, Listing.argument?_fold, Listing.firstIn?_respell _ l blind_isSignificant,
    literalArgument?]
  cases l.argument? i n with
  | none => rfl
  | some item =>
    simp only [Option.map_some, Option.bind_some, Listing.reread, Listing.item]
    cases l.firstIn? Token.isSignificant item.start item.stop with
    | none => rfl
    | some first =>
      rw [Option.bind_some, Option.bind_some, Listing.get?_respell]
      cases l.get? first with
      | none => rfl
      | some t =>
        simp only [Option.map_some, Option.bind_some, Token.respell]
        -- a literal is not folded, and any other token gives no argument on either side
        by_cases hkind : t.kind = .quotedText
        · rw [Token.foldedText, if_pos hkind]
        · simp only [hkind, false_and, if_false]

theorem spellsOneOf_fold : spellsOneOf l.fold = spellsOneOf l := by
  funext i names
  rw [spellsOneOf, Listing.get?_respell, Option.any_map, spellsOneOf]
  congr 1
  funext t
  exact congrArg names.any (funext t.spells_fold)

theorem settingFindings_fold (target : Target) :
    settingFindings l.fold target = settingFindings l target := by
  have happlies : removedSettings.applies l.fold = removedSettings.applies l := by
    funext i
    simp only [removedSettings, spellsOneOf_fold, Listing.isGlobalCall_respell]
  have hreport : settingReport l.fold target.range = settingReport l target.range := by
    funext i
    rw [settingReport, literalArgument?_fold, report_fold, spellsOneOf_fold, settingReport]
  rw [settingFindings, uses_fold l happlies, hreport, settingFindings]

theorem optionsPlace?_fold : optionsPlace? l.fold = optionsPlace? l := by
  funext i
  rw [optionsPlace?, Listing.get?_respell, optionsPlace?]
  cases l.get? i with
  | none => rfl
  | some t => simp only [Option.map_some, Option.bind_some, t.spells_fold]

theorem modifierFindings_fold (target : Target) :
    modifierFindings l.fold target = modifierFindings l target := by
  have happlies : removedModifiers.applies l.fold = removedModifiers.applies l := by
    funext i
    simp only [removedModifiers, optionsPlace?_fold, Listing.isGlobalCall_respell]
  have hreport : modifierReport l.fold target.range = modifierReport l target.range := by
    funext f i
    rw [modifierReport, optionsPlace?_fold, literalArgument?_fold, report_fold, modifierReport]
  rw [modifierFindings, uses_fold l happlies, hreport, modifierFindings]

end Check

/-- A listing and its folded form give the same findings. -/
theorem Rule.findings_fold {r : Rule} (hr : r ≠ .directives) (l : Listing) (target : Target) :
    r.findings l.fold target = r.findings l target := by
  have hcall : l.fold.isGlobalCall = l.isGlobalCall := l.isGlobalCall_respell _
  have hconstant : l.fold.isGlobalConstant = l.isGlobalConstant := l.isGlobalConstant_respell _
  cases r with
  | newFunctions => exact Check.run_fold l _ (c := Check.newFunctions) hcall _
  | removedFunctions => exact Check.run_fold l _ (c := Check.removedFunctions) hcall _
  | removedExtensions => exact Check.extensionFindings_fold l target
  | newConstants => exact Check.run_fold l _ (c := Check.newConstants) hconstant _
  | removedConstants => exact Check.run_fold l _ (c := Check.removedConstants) hconstant _
  | newInterfaces => exact Check.interfaceFindings_fold l target
  | newTypes => exact Check.typeFindings_fold l target
  | newKeywords => exact Check.keywordFindings_fold l target
  | directives => exact absurd rfl hr
  | removedSettings => exact Check.settingFindings_fold l target
  | removedModifiers => exact Check.modifierFindings_fold l target

/-! ## Listings that are the same up to case -/

/-- The tokens have the same kind, place and structure, and texts that differ at most in the case of
the letters `A` to `Z`; quoted texts are the same. -/
structure Token.SameUpToCase (t u : Token) : Prop where
  kind : t.kind = u.kind
  line : t.line = u.line
  column : t.column = u.column
  partner : t.partner = u.partner
  parenOwner : t.parenOwner = u.parenOwner
  scope : t.scope = u.scope
  owners : t.owners = u.owners
  text : Text.sameLetters t.text u.text = true
  quoted : t.kind = .quotedText → t.text = u.text

instance Token.decidableSameUpToCase (t u : Token) : Decidable (t.SameUpToCase u) :=
  decidable_of_iff
    (t.kind = u.kind ∧ t.line = u.line ∧ t.column = u.column ∧ t.partner = u.partner ∧
      t.parenOwner = u.parenOwner ∧ t.scope = u.scope ∧ t.owners = u.owners ∧
      Text.sameLetters t.text u.text = true ∧ (t.kind = .quotedText → t.text = u.text))
    ⟨fun ⟨h₁, h₂, h₃, h₄, h₅, h₆, h₇, h₈, h₉⟩ => ⟨h₁, h₂, h₃, h₄, h₅, h₆, h₇, h₈, h₉⟩,
      fun ⟨h₁, h₂, h₃, h₄, h₅, h₆, h₇, h₈, h₉⟩ => ⟨h₁, h₂, h₃, h₄, h₅, h₆, h₇, h₈, h₉⟩⟩

/-- Tokens that are the same up to case have the same folded form. -/
theorem Token.SameUpToCase.fold_eq {t u : Token} (h : t.SameUpToCase u) : t.fold = u.fold := by
  have htext : t.foldedText = u.foldedText := by
    unfold foldedText
    rw [← h.kind]
    split
    · rename_i hkind
      exact h.quoted hkind
    · exact (Text.sameLetters_iff _ _).1 h.text
  unfold fold respell
  rw [htext, h.kind, h.line, h.column, h.partner, h.parenOwner, h.scope, h.owners]

/-- The listings have equally many tokens, and these are the same up to case. -/
def Listing.SameUpToCase (l l' : Listing) : Prop :=
  List.Forall₂ Token.SameUpToCase l.tokens.toList l'.tokens.toList

theorem Listing.SameUpToCase.fold_eq {l l' : Listing} (h : l.SameUpToCase l') :
    l.fold = l'.fold := by
  have hmap {ts us : List Token} (h : List.Forall₂ Token.SameUpToCase ts us) :
      ts.map Token.fold = us.map Token.fold := by
    induction h with
    | nil => rfl
    | cons htoken _ ih => rw [List.map_cons, List.map_cons, htoken.fold_eq, ih]
  unfold fold respell
  rw [Listing.mk.injEq, ← Array.toList_inj, Array.toList_map, Array.toList_map]
  exact hmap h

/-- The case of letters decides nothing. Listings that are the same up to case give the same report,
for every target. The rule for directives is left out: it repeats the name of a directive. -/
theorem Rule.findAll_of_sameUpToCase {l l' : Listing} (h : l.SameUpToCase l') (target : Target)
    {chosen : List String} (hchosen : Rule.directives.name ∉ chosen) :
    Rule.findAll l target chosen = Rule.findAll l' target chosen := by
  have hrules : (Rule.ofNames chosen).flatMap (fun r => r.findings l target) =
      (Rule.ofNames chosen).flatMap fun r => r.findings l' target := by
    refine List.flatMap_congr fun r hr => ?_
    have hr : r ≠ .directives := by
      rintro rfl
      exact hchosen (Rule.name_mem_of_mem_ofNames hr)
    rw [← Rule.findings_fold hr, h.fold_eq, Rule.findings_fold hr]
  unfold Rule.findAll
  rw [hrules]

/-- A keyword, a type, a variable and a function with a leading backslash, in capitals and in small
letters; the quoted text is the same. -/
theorem Rule.findAll_of_sameUpToCase_capitals :
    let l := Listing.ofText "<?php FN(INT $a) => \\INI_GET('Y');"
    let l' := Listing.ofText "<?php fn(int $A) => \\ini_get('Y');"
    let chosen := Rule.names.erase Rule.directives.name
    l.SameUpToCase l' ∧ Rule.directives.name ∉ chosen ∧
      Rule.findAll l {} chosen = Rule.findAll l' {} chosen := by
  intro l l' chosen
  have h : l.SameUpToCase l' := by
    unfold Listing.SameUpToCase
    decide +kernel
  have hchosen : Rule.directives.name ∉ chosen := by decide
  exact ⟨h, hchosen, Rule.findAll_of_sameUpToCase h {} hchosen⟩

end Vintage
