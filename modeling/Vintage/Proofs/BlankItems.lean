import Vintage.Check.Arguments
import Vintage.Listing.Signature

/-!
# Blank last items

A list in parentheses drops its last item if the item's text is blank. A comment in the item is not
blank, so a comment keeps an item without meaning in the list. Such an item has no say in what is
read off the list: it declares no parameter, and it passes nothing that is looked up.

Results:
* `Listing.Covers.isEmpty_iff`: an item is without text iff all its tokens are blank.
* `Listing.parametersOf?_dropBlankLast`: a blank last item declares no parameter.
* `Check.literalAt?_blank`: a literal in a blank item is empty.
* `Check.settingReport_eq`, `Check.modifierReport_eq`: a blank last item is not reported.
-/

namespace Vintage

/-! ## Blank texts -/

theorem Text.trimChars_eq_nil_iff (cs : List Char) :
    Text.trimChars cs = [] ↔ ∀ c ∈ cs, Text.isBlank c = true := by
  have hdrop (cs : List Char) :
      cs.dropWhile Text.isBlank = [] ↔ ∀ c ∈ cs, Text.isBlank c = true := by
    induction cs with
    | nil => simp
    | cons c cs ih =>
      by_cases hc : Text.isBlank c = true
      · rw [List.dropWhile_cons_of_pos hc, ih, List.forall_mem_cons, and_iff_right hc]
      · rw [List.dropWhile_cons_of_neg hc, List.forall_mem_cons]
        exact ⟨nofun, fun h => absurd h.1 hc⟩
  unfold Text.trimChars
  rw [List.reverse_eq_nil_iff, hdrop]
  constructor
  · intro h c hc
    rw [← List.takeWhile_append_dropWhile (p := Text.isBlank) (l := cs), List.mem_append] at hc
    rcases hc with hc | hc
    · exact List.all_eq_true.1 List.all_takeWhile c hc
    · exact h c (List.mem_reverse.2 hc)
  · intro h c hc
    exact h c (List.dropWhile_subset _ (List.mem_reverse.1 hc))

/-- The text of the token is made of blanks. -/
def Token.Blank (t : Token) : Prop := ∀ c ∈ t.text.toList, Text.isBlank c = true

theorem Token.Blank.unquote {t : Token} (h : t.Blank) : Text.unquote t.text = "" := by
  have htrim : Text.trimChars t.text.toList = [] := (Text.trimChars_eq_nil_iff _).2 h
  simp [Text.unquote, Text.unquote?, Text.unquoteChars?, Text.trim, htrim]

namespace Listing

/-! ## Searches and items -/

theorem firstAmong?_eq_some {l : Listing} {p : Token → Bool} {n i j : Nat}
    (h : l.firstAmong? p n i = some j) :
    i ≤ j ∧ j < i + n ∧ ∃ t, l.get? j = some t ∧ p t = true := by
  induction n generalizing i with
  | zero => cases h
  | succ n ih =>
    rw [firstAmong?] at h
    split at h
    · rename_i hp
      cases h
      obtain ⟨t, ht, hp⟩ := (Option.any_eq_true _ _).1 hp
      exact ⟨Nat.le_refl _, by omega, t, ht, hp⟩
    · obtain ⟨h₁, h₂, h₃⟩ := ih h
      exact ⟨by omega, by omega, h₃⟩

theorem firstIn?_eq_some {l : Listing} {p : Token → Bool} {start stop j : Nat}
    (h : l.firstIn? p start stop = some j) :
    start ≤ j ∧ j < stop ∧ ∃ t, l.get? j = some t ∧ p t = true := by
  obtain ⟨h₁, h₂, h₃⟩ := firstAmong?_eq_some h
  exact ⟨h₁, by omega, h₃⟩

/-- The item holds the trimmed text of its tokens. -/
def Covers (l : Listing) (item : Item) : Prop := item = l.item item.start item.stop

theorem itemsFrom?_covers {l : Listing} {n i start resume : Nat} {items : List Item}
    (h : l.itemsFrom? n i start resume = some items) : ∀ item ∈ items, l.Covers item := by
  induction n generalizing i start resume items with
  | zero =>
    cases h
    intro item hitem
    rw [List.mem_singleton.1 hitem]
    exact rfl
  | succ n ih =>
    rw [itemsFrom?] at h
    split at h
    · exact ih h
    · split at h
      · cases h
      · split at h
        · split at h
          · exact ih h
          · cases h
        · split at h
          · obtain ⟨rest, hrest, rfl⟩ := Option.map_eq_some_iff.1 h
            intro item hitem
            rcases List.mem_cons.1 hitem with rfl | hitem
            · exact rfl
            · exact ih hrest item hitem
          · exact ih h

theorem mem_stretch_iff {l : Listing} {start stop : Nat} {t : Token} :
    t ∈ l.stretch start stop ↔ ∃ j, start ≤ j ∧ j < stop ∧ l.get? j = some t := by
  rw [stretch, Array.mem_toList_iff, Array.mem_iff_getElem?]
  constructor
  · rintro ⟨k, hk⟩
    rw [Array.getElem?_extract] at hk
    split at hk
    · exact ⟨start + k, by omega, by omega, hk⟩
    · cases hk
  · rintro ⟨j, hstart, hstop, ht⟩
    have hsize := (Array.getElem?_eq_some_iff.1 ht).1
    refine ⟨j - start, ?_⟩
    rw [Array.getElem?_extract, if_pos (by omega), show start + (j - start) = j by omega]
    exact ht

theorem toList_textOf (l : Listing) (start stop : Nat) :
    (l.textOf start stop).toList = (l.stretch start stop).flatMap fun t => t.text.toList := by
  rw [textOf, String.toList_join, List.flatMap_map]

/-- An item is without text iff all its tokens are blank. -/
theorem Covers.isEmpty_iff {l : Listing} {item : Item} (h : l.Covers item) :
    item.text.isEmpty = true ↔
      ∀ j t, item.start ≤ j → j < item.stop → l.get? j = some t → t.Blank := by
  have htrim : item.text.isEmpty = true ↔
      Text.trimChars (l.textOf item.start item.stop).toList = [] := by
    rw [h]
    simp [Listing.item, Text.trim]
  rw [htrim, Text.trimChars_eq_nil_iff, toList_textOf]
  constructor
  · intro hblank j t hstart hstop ht c hc
    exact hblank c (List.mem_flatMap.2 ⟨t, mem_stretch_iff.2 ⟨j, hstart, hstop, ht⟩, hc⟩)
  · intro hblank c hc
    obtain ⟨t, ht, hc⟩ := List.mem_flatMap.1 hc
    obtain ⟨j, hstart, hstop, ht⟩ := mem_stretch_iff.1 ht
    exact hblank j t hstart hstop ht c hc

/-- The items of the list that opens at a position, a blank last one included. -/
def allItems? (l : Listing) (opener : Nat) : Option (List Item) :=
  match (l.get? opener).bind Token.partner with
  | none => none
  | some closer => l.itemsFrom? (closer - (opener + 1)) (opener + 1) (opener + 1) 0

theorem items?_eq (l : Listing) (opener : Nat) :
    l.items? opener = (l.allItems? opener).map dropBlankLast := by
  unfold items? allItems?
  cases (l.get? opener).bind Token.partner <;> rfl

theorem allItems?_covers {l : Listing} {opener : Nat} {items : List Item}
    (h : l.allItems? opener = some items) : ∀ item ∈ items, l.Covers item := by
  unfold allItems? at h
  split at h
  · cases h
  · exact itemsFrom?_covers h

theorem dropBlankLast_cases (items : List Item) :
    dropBlankLast items = items ∨
      ∃ item, item.text.isEmpty = true ∧ items = dropBlankLast items ++ [item] := by
  unfold dropBlankLast
  split
  · rename_i h
    obtain ⟨item, hlast, hblank⟩ := (Option.any_eq_true _ _).1 h
    obtain ⟨init, rfl⟩ := List.getLast?_eq_some_iff.1 hlast
    exact Or.inr ⟨item, hblank, by rw [List.dropLast_concat]⟩
  · exact Or.inl rfl

/-! ## Parameters -/

theorem parametersOf?_concat (l : Listing) {item : Item} (h : l.parameter? item = some none)
    (items : List Item) : l.parametersOf? (items ++ [item]) = l.parametersOf? items := by
  induction items with
  | nil => simp [parametersOf?, h]
  | cons a items ih => rw [List.cons_append, parametersOf?, parametersOf?, ih]

/-- The variables of the listing have names. -/
def NamesVariables (l : Listing) : Prop :=
  ∀ j t, l.get? j = some t → t.kind = .variableName → ¬ t.Blank

/-- A blank last item declares no parameter. -/
theorem parametersOf?_dropBlankLast {l : Listing} (hl : l.NamesVariables) {items : List Item}
    (h : ∀ item ∈ items, l.Covers item) :
    l.parametersOf? (dropBlankLast items) = l.parametersOf? items := by
  rcases dropBlankLast_cases items with he | ⟨item, hblank, he⟩
  · rw [he]
  · have hcovers : l.Covers item := h item (he ▸ List.mem_append_right _ List.mem_cons_self)
    have hnone : l.parameter? item = some none := by
      unfold parameter?
      split
      · rfl
      · rename_i position hposition
        obtain ⟨hstart, hstop, t, ht, hkind⟩ := firstIn?_eq_some hposition
        exact absurd (hcovers.isEmpty_iff.1 hblank _ t hstart hstop ht) (hl _ t ht (eq_of_beq hkind))
    conv => rhs; rw [he]
    exact (l.parametersOf?_concat hnone _).symm

theorem parameters?_eq {l : Listing} (hl : l.NamesVariables) (i : Nat) :
    l.parameters? i = ((l.parametersOpener? i).bind l.allItems?).bind l.parametersOf? := by
  unfold parameters?
  cases l.parametersOpener? i with
  | none => rfl
  | some opener =>
    rw [Option.bind_some, Option.bind_some, items?_eq]
    cases hitems : l.allItems? opener with
    | none => rfl
    | some items => exact parametersOf?_dropBlankLast hl (allItems?_covers hitems)

end Listing

/-! ## Features of a table -/

/-- The entries of a description have no say in the name. -/
theorem Feature.Draft.name_add (d : Feature.Draft) (e : Feature.Entry) :
    (d.add e).feature.name = d.feature.name := by
  cases e with
  | fact text status =>
    unfold Feature.Draft.add
    simp only
    split <;> rfl
  | note key value =>
    unfold Feature.Draft.add Feature.Draft.addNote
    simp only
    repeat' split
    all_goals rfl
  | _ => rfl

theorem Feature.Draft.name_foldl_add (d : Feature.Draft) (entries : List Feature.Entry) :
    (entries.foldl Feature.Draft.add d).feature.name = d.feature.name := by
  induction entries generalizing d with
  | nil => rfl
  | cons e entries ih => rw [List.foldl_cons, ih, Feature.Draft.name_add]

/-- A described feature is what the entries say, with its facts in order. -/
theorem Feature.eq_of_ofEntries {name : String} {entries : List Feature.Entry} {f : Feature}
    (h : Feature.ofEntries name entries = .ok f) :
    ∃ facts, f =
      { (entries.foldl Feature.Draft.add { feature := { name, facts := [] } }).feature with
        facts } := by
  unfold Feature.ofEntries Feature.ofDraft at h
  split at h
  · cases h
  · split at h
    · cases h
    · simp only at h
      split at h <;> cases h
      exact ⟨_, rfl⟩

theorem Feature.name_of_ofEntries {name : String} {entries : List Feature.Entry} {f : Feature}
    (h : Feature.ofEntries name entries = .ok f) : f.name = name := by
  obtain ⟨facts, rfl⟩ := Feature.eq_of_ofEntries h
  exact Feature.Draft.name_foldl_add _ entries

theorem Feature.exists_of_mapM {α : Type} {g : α → Except FeatureError Feature} {rows : List α}
    {features : List Feature} (h : rows.mapM g = .ok features) :
    ∀ f ∈ features, ∃ row ∈ rows, g row = .ok f := by
  induction rows generalizing features with
  | nil =>
    cases h
    exact nofun
  | cons row rows ih =>
    rw [List.mapM_cons] at h
    cases hrow : g row with
    | error e => rw [hrow] at h; cases h
    | ok f =>
      cases hrows : rows.mapM g with
      | error e => rw [hrow, hrows] at h; cases h
      | ok fs =>
        rw [hrow, hrows] at h
        cases h
        intro f' hf'
        rcases List.mem_cons.1 hf' with rfl | hf'
        · exact ⟨row, List.mem_cons_self, hrow⟩
        · obtain ⟨row', hrow', he⟩ := ih hrows f' hf'
          exact ⟨row', List.mem_cons_of_mem _ hrow', he⟩

theorem Text.lower_eq_empty_iff {s : String} : Text.lower s = "" ↔ s = "" := by
  unfold Text.lower Text.lowerChars
  rw [String.ofList_eq_empty_iff, List.map_eq_nil_iff, String.toList_eq_nil_iff]

/-- What is found in a table is one of its features and has the key. -/
theorem Catalogue.exists_of_find? {table : Except FeatureError (List Feature)} {name : String}
    {f : Feature} (h : (Catalogue.ofTable table).find? name = some f) :
    ∃ features, table = .ok features ∧ f ∈ features ∧
      Text.lower f.name = Catalogue.keyOf name := by
  cases table with
  | error e => cases h
  | ok features =>
    obtain ⟨before, after, hentries, -⟩ := List.lookup_eq_some_iff.1 h
    have hmem : (Catalogue.keyOf name, f) ∈ features.map fun f => (Text.lower f.name, f) := by
      refine List.mem_reverse.1 ?_
      rw [show (features.map fun f => (Text.lower f.name, f)).reverse = _ from hentries]
      exact List.mem_append_right _ List.mem_cons_self
    obtain ⟨g, hg, he⟩ := List.mem_map.1 hmem
    obtain ⟨hkey, rfl⟩ := Prod.mk.inj he
    exact ⟨features, rfl, hg, hkey⟩

/-- An empty name is not found in a table that has none. -/
theorem Catalogue.find?_withdrawn_eq_none {rows : List Feature.Withdrawal}
    (h : ∀ row ∈ rows, row.name ≠ "") :
    (Catalogue.ofTable (Feature.withdrawn rows)).find? "" = none := by
  refine Option.eq_none_iff_forall_ne_some.2 fun f hf => ?_
  obtain ⟨features, hrows, hmem, hkey⟩ := Catalogue.exists_of_find? hf
  obtain ⟨row, hrow, hok⟩ := Feature.exists_of_mapM hrows f hmem
  have hname : f.name = row.name := Feature.name_of_ofEntries hok
  have hempty : Catalogue.keyOf "" = "" := Text.lower_eq_empty_iff.2 rfl
  rw [hname, hempty, Text.lower_eq_empty_iff] at hkey
  exact h row hrow hkey

namespace Check

/-! ## Literals -/

/-- The position and the text of an item that is one plain string literal. -/
def literalAt? (l : Listing) (item : Item) : Option (Nat × String) :=
  (l.firstIn? Token.isSignificant item.start item.stop).bind fun first =>
    (l.get? first).bind fun t =>
      if t.kind = .quotedText ∧
          (l.firstIn? Token.isSignificant (first + 1) item.stop).isNone then
        some (first, Text.unquote t.text)
      else none

/-- A literal in a blank item is empty. -/
theorem literalAt?_blank {l : Listing} {item : Item} (h : l.Covers item)
    (hblank : item.text.isEmpty = true) {literal : Nat × String}
    (hliteral : literalAt? l item = some literal) : literal.2 = "" := by
  unfold literalAt? at hliteral
  obtain ⟨first, hfirst, hliteral⟩ := Option.bind_eq_some_iff.1 hliteral
  obtain ⟨t, ht, hliteral⟩ := Option.bind_eq_some_iff.1 hliteral
  obtain ⟨hstart, hstop, -⟩ := Listing.firstIn?_eq_some hfirst
  split at hliteral
  · cases hliteral
    exact (h.isEmpty_iff.1 hblank _ t hstart hstop ht).unquote
  · cases hliteral

/-- The literal that is written as an argument, whether or not the argument is a blank last one. -/
def writtenLiteral? (l : Listing) (i n : Nat) : Option (Nat × String) :=
  (((l.openerAfter? i).bind l.allItems?).bind (·[n]?)).bind (literalAt? l)

/-- A blank last argument hides an empty literal at most. -/
theorem literalArgument?_cases (l : Listing) (i n : Nat) :
    literalArgument? l i n = writtenLiteral? l i n ∨
      literalArgument? l i n = none ∧ ∃ position, writtenLiteral? l i n = some (position, "") := by
  have harg : literalArgument? l i n =
      (((l.openerAfter? i).bind l.items?).bind (·[n]?)).bind (literalAt? l) := rfl
  rw [harg, writtenLiteral?]
  cases l.openerAfter? i with
  | none => exact Or.inl rfl
  | some opener =>
    rw [Option.bind_some, Option.bind_some, Listing.items?_eq]
    cases hitems : l.allItems? opener with
    | none => exact Or.inl rfl
    | some items =>
      simp only [Option.map_some, Option.bind_some]
      rcases Listing.dropBlankLast_cases items with he | ⟨item, hblank, he⟩
      · exact Or.inl (by rw [he])
      · have hcovers := Listing.allItems?_covers hitems item
          (he ▸ List.mem_append_right _ List.mem_cons_self)
        generalize Listing.dropBlankLast items = init at he
        subst he
        by_cases hn : n = init.length
        · subst hn
          rw [List.getElem?_concat_length, List.getElem?_eq_none (Nat.le_refl _), Option.bind_some,
            Option.bind_none]
          cases hliteral : literalAt? l item with
          | none => exact Or.inl rfl
          | some literal =>
            obtain ⟨position, name⟩ := literal
            obtain rfl : name = "" := literalAt?_blank hcovers hblank hliteral
            exact Or.inr ⟨rfl, position, rfl⟩
        · refine Or.inl ?_
          rw [List.getElem?_append]
          split
          · rfl
          · rw [List.getElem?_eq_none (by omega), List.getElem?_eq_none (by simp; omega)]

/-- The findings for a setting with the given literal. -/
def settingReportOf (l : Listing) (range : VersionRange) (i : Nat) :
    Option (Nat × String) → List Finding
  | none => []
  | some (position, name) =>
    match removedSettings.catalogue.find? name with
    | some f =>
      (removedSettings.report l position f range).map (soften (spellsOneOf l i ["ini_get"]))
    | none => []

/-- No setting has an empty name. -/
theorem find?_empty_setting : removedSettings.catalogue.find? "" = none :=
  Catalogue.find?_withdrawn_eq_none (by decide)

theorem settingReport_eq (l : Listing) (range : VersionRange) (i : Nat) :
    settingReport l range i = settingReportOf l range i (writtenLiteral? l i 0) := by
  have h : settingReport l range i = settingReportOf l range i (literalArgument? l i 0) := by
    unfold settingReport settingReportOf
    cases literalArgument? l i 0 <;> rfl
  rw [h]
  rcases literalArgument?_cases l i 0 with he | ⟨he, position, hwritten⟩
  · rw [he]
  · rw [he, hwritten, settingReportOf, settingReportOf, find?_empty_setting]

/-- The findings for options with the given literal. -/
def modifierReportOf (l : Listing) (range : VersionRange) (f : Feature) :
    Option (Nat × String) → List Finding
  | none => []
  | some (position, options) =>
    if usesModifier f options then removedModifiers.report l position f range else []

/-- Empty options have no modifier. -/
theorem usesModifier_empty {f : Feature} (hf : removedModifiers.catalogue.find? "e" = some f) :
    usesModifier f "" = false := by
  obtain ⟨features, htable, hmem, -⟩ := Catalogue.exists_of_find? hf
  cases hmodifier : evalModifier with
  | error e =>
    rw [hmodifier] at htable
    cases htable
  | ok g =>
    rw [hmodifier] at htable
    cases htable
    obtain rfl := List.mem_singleton.1 hmem
    obtain ⟨facts, rfl⟩ := Feature.eq_of_ofEntries hmodifier
    rfl

/-- Options that a blank last argument hides have no modifier. -/
theorem modifierReport_eq (l : Listing) (range : VersionRange) {f : Feature}
    (hf : removedModifiers.catalogue.find? "e" = some f) (i : Nat) :
    modifierReport l range f i =
      modifierReportOf l range f ((optionsPlace? l i).bind (writtenLiteral? l i)) := by
  have h : modifierReport l range f i =
      modifierReportOf l range f ((optionsPlace? l i).bind (literalArgument? l i)) := by
    unfold modifierReport modifierReportOf
    cases (optionsPlace? l i).bind (literalArgument? l i) <;> rfl
  rw [h]
  cases optionsPlace? l i with
  | none => rfl
  | some n =>
    rw [Option.bind_some, Option.bind_some]
    rcases literalArgument?_cases l i n with he | ⟨he, position, hwritten⟩
    · rw [he]
    · rw [he, hwritten, modifierReportOf, modifierReportOf, usesModifier_empty hf]
      rfl

end Check

end Vintage
