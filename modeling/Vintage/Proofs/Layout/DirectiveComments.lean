import Mathlib.Algebra.Order.BigOperators.Group.List
import Vintage.Check.Directives
import Vintage.Proofs.Layout.Readings
import Vintage.Proofs.Layout.Removal
import Vintage.Proofs.TableChecks

/-!
# Directives and comments

The name of a directive is read without layout, but its value is the raw text after the equal sign.
All three values that are checked are refused if they hold a `/` or a `#`, so a comment beside a
value makes the value look wrong. Comments elsewhere have no say in what is found.

Results:
* `Check.directiveFeatures_eq`: the table of directives has no defect.
* `ValueCheck.not_accepts_of_mark`: no value of a directive holds a comment.
* `Check.map_sign_directiveFindings`: what is found, item by item.
* `Check.directiveFindings_without_comments`: when leaving out comments changes what is found.
-/

namespace Vintage

/-! ## Values with comments -/

namespace Text

theorem mem_dropWhile_isBlank {c : Char} {cs : List Char} (hmem : c ∈ cs)
    (hc : isBlank c = false) : c ∈ cs.dropWhile isBlank := by
  rw [← List.takeWhile_append_dropWhile (p := isBlank) (l := cs), List.mem_append] at hmem
  rcases hmem with hmem | hmem
  · rw [List.all_eq_true.1 List.all_takeWhile c hmem] at hc
    cases hc
  · exact hmem

/-- Trimming keeps all characters but blanks. -/
theorem mem_trimChars {c : Char} {cs : List Char} (hmem : c ∈ cs) (hc : isBlank c = false) :
    c ∈ trimChars cs :=
  List.mem_reverse.2
    (mem_dropWhile_isBlank (List.mem_reverse.2 (mem_dropWhile_isBlank hmem hc)) hc)

/-- Unquoting keeps all characters but blanks and quotes. -/
theorem mem_unquoteChars? {c : Char} {cs value : List Char} (hmem : c ∈ cs)
    (hc : isBlank c = false) (hquote : c ≠ '\'' ∧ c ≠ '"') (h : unquoteChars? cs = some value) :
    c ∈ value := by
  have htrim := mem_trimChars hmem hc
  unfold unquoteChars? at h
  split at h
  · rename_i quote rest hrest
    split at h
    · rename_i hquotes
      obtain ⟨hkind, hlast⟩ := Bool.and_eq_true_iff.1 hquotes
      obtain ⟨init, rfl⟩ := List.getLast?_eq_some_iff.1 (eq_of_beq hlast)
      have hne : c ≠ quote := by
        rintro rfl
        simp [hquote] at hkind
      obtain rfl := Option.some.inj h
      rw [hrest] at htrim
      simpa [hne] using htrim
    · cases h
  · cases h

end Text

namespace ValueCheck

theorem knownEncodings_without_mark {name : String} (h : knownEncodings.contains name = true) :
    ¬ ('/' ∈ name.toList ∨ '#' ∈ name.toList) := by
  have hall : knownEncodings.all
      (fun s => !s.toList.contains '/' && !s.toList.contains '#') = true := by decide +kernel
  simpa using List.all_eq_true.1 hall name (List.contains_iff_mem.1 h)

/-- No value that a directive may have holds a `/` or a `#`. -/
theorem not_accepts_of_mark {check : ValueCheck} (hcheck : check ≠ .regexOptions) {value : String}
    (hmark : '/' ∈ value.toList ∨ '#' ∈ value.toList) : check.accepts value = false := by
  have htrim : '/' ∈ Text.trimChars value.toList ∨ '#' ∈ Text.trimChars value.toList :=
    hmark.imp (Text.mem_trimChars · (by decide)) (Text.mem_trimChars · (by decide))
  refine Bool.eq_false_iff.2 fun haccepts => ?_
  cases check with
  | ticks =>
    have hall := List.all_eq_true.1 (Bool.and_eq_true_iff.1 haccepts).2
    rcases htrim with h | h <;> exact absurd (hall _ h) (by decide)
  | strictTypes =>
    have hdigit {digit : String} (h : Text.trim value = digit) :
        '/' ∈ digit.toList ∨ '#' ∈ digit.toList := by
      rwa [← h, Text.trim, String.toList_ofList]
    rcases Bool.or_eq_true_iff.1 haccepts with h | h <;>
      exact absurd (hdigit (eq_of_beq h)) (by decide)
  | encoding =>
    obtain ⟨name, hname, hknown⟩ := (Option.any_eq_true _ _).1 haccepts
    obtain ⟨cs, hcs, rfl⟩ := Option.map_eq_some_iff.1 hname
    refine knownEncodings_without_mark hknown ?_
    rw [Text.lower, Text.lowerChars, String.toList_ofList, String.toList_ofList]
    have hkept {c : Char} (hc : c ∈ value.toList) (hblank : Text.isBlank c = false)
        (hquote : c ≠ '\'' ∧ c ≠ '"') (hlower : c.toLower = c) : c ∈ cs.map Char.toLower :=
      List.mem_map.2 ⟨c, Text.mem_unquoteChars? hc hblank hquote hcs, hlower⟩
    exact hmark.imp (hkept · (by decide) (by decide) (by decide))
      (hkept · (by decide) (by decide) (by decide))
  | regexOptions => exact hcheck rfl

end ValueCheck

namespace Check

/-! ## The table of directives -/

/-- The features that the table describes. -/
def knownDirectives : List Feature :=
  [{ name := "ticks", valueCheck := some .ticks,
     facts := [⟨⟨3, 1, none⟩, .absent⟩, ⟨⟨4, 0, none⟩, .present⟩] },
   { name := "encoding", valueCheck := some .encoding,
     facts := [⟨⟨5, 2, none⟩, .absent⟩, ⟨⟨5, 3, none⟩, .conditional "--enable-zend-multibyte"⟩,
       ⟨⟨5, 4, none⟩, .present⟩] },
   { name := "strict_types", valueCheck := some .strictTypes,
     facts := [⟨⟨5, 6, none⟩, .absent⟩, ⟨⟨7, 0, none⟩, .present⟩] }]

/-- The table has no defect. -/
theorem directiveFeatures_eq : directiveFeatures = .ok knownDirectives := by
  have hticks : Feature.ofEntries "ticks"
      [.fact "3.1" .absent, .fact "4.0" .present, .valueCheck .ticks] = .ok knownDirectives[0] :=
    Feature.ofDraft_eq_ok_of_perm rfl (by decide) (by decide) (by decide) (by decide)
  have hencoding : Feature.ofEntries "encoding"
      [.fact "5.2" .absent, .fact "5.3" (.conditional "--enable-zend-multibyte"),
        .fact "5.4" .present, .valueCheck .encoding] = .ok knownDirectives[1] :=
    Feature.ofDraft_eq_ok_of_perm rfl (by decide) (by decide) (by decide) (by decide)
  have hstrict : Feature.ofEntries "strict_types"
      [.fact "5.6" .absent, .fact "7.0" .present, .valueCheck .strictTypes] =
        .ok knownDirectives[2] :=
    Feature.ofDraft_eq_ok_of_perm rfl (by decide) (by decide) (by decide) (by decide)
  simp only [directiveFeatures, List.mapM_cons, List.mapM_nil, hticks, hencoding, hstrict]
  rfl

theorem directives_catalogue : directives.catalogue = .ofFeatures knownDirectives := by
  rw [directives, directiveFeatures_eq]
  rfl

/-- Each known directive has a check for its value. -/
theorem valueCheck_of_find? {name : String} {f : Feature}
    (h : directives.catalogue.find? name = some f) :
    ∃ check, f.valueCheck = some check ∧ check ≠ .regexOptions := by
  obtain ⟨features, hfeatures, hf, -⟩ := Catalogue.exists_of_find? h
  obtain rfl := Except.ok.inj (directiveFeatures_eq.symm.trans hfeatures)
  have hall : ∀ f ∈ knownDirectives, ∃ check ∈ f.valueCheck, check ≠ .regexOptions := by decide
  exact hall f hf

end Check

/-! ## Signs of findings -/

/-- What a finding is counted as: its severity and its code. -/
def Finding.sign (f : Finding) : Severity × String := (f.severity, f.code)

/-- The place of a verdict has no say in its severity and code. -/
theorem Wording.map_sign_findings (w : Wording) (place place' : Place) (name display : String)
    (alternative : Option String) (v : Verdict) :
    (w.findings place name display alternative v).map Finding.sign =
      (w.findings place' name display alternative v).map Finding.sign := by
  have hintroduction (base : String) :
      (w.introduction? place base display v).map Finding.sign =
        (w.introduction? place' base display v).map Finding.sign := by
    unfold Wording.introduction?
    cases v.absentIn with
    | some version => rfl
    | none => cases v.conditionalIn <;> rfl
  have hwithdrawal (base : String) :
      (w.withdrawal? place base display alternative v).map Finding.sign =
        (w.withdrawal? place' base display alternative v).map Finding.sign := by
    unfold Wording.withdrawal?
    cases v.isWithdrawal <;> rfl
  unfold Wording.findings
  simp only [List.map_append, ← Option.toList_map, hintroduction, hwithdrawal]

namespace Check

/-- The signs of what is found at a directive with a name and a value. -/
def directiveSigns (range : VersionRange) (name value : String) : List (Severity × String) :=
  match directives.catalogue.find? name with
  | none => [(.error, "InvalidDirectiveFound")]
  | some f =>
    (directives.report ⟨#[]⟩ 0 f range).map Finding.sign
      ++ if hasInvalidValue { name, value, position := 0, valuePosition := none } f then
        [(.warning, "Invalid" ++ codeOf f.name ++ "Found")] else []

/-- The signs of what is found at a directive depend on its name and its value only. -/
theorem map_sign_directiveReport (l : Listing) (range : VersionRange) (d : Directive) :
    (directiveReport l range d).map Finding.sign = directiveSigns range d.name d.value := by
  unfold directiveReport directiveSigns
  cases directives.catalogue.find? d.name with
  | none => rfl
  | some f =>
    have hreport : (directives.report l d.position f range).map Finding.sign =
        (directives.report ⟨#[]⟩ 0 f range).map Finding.sign := by
      unfold report
      cases f.verdict? range with
      | none => rfl
      | some v => exact Wording.map_sign_findings _ _ _ _ _ _ v
    have hinvalid : hasInvalidValue d f =
        hasInvalidValue { name := d.name, value := d.value, position := 0, valuePosition := none } f :=
      rfl
    simp only [List.map_append, hreport, hinvalid]
    split <;> rfl

end Check

namespace Listing

/-! ## Items of `declare` statements -/

/-- The items in the parentheses after each `declare`, blank last ones included. -/
def declaredItems (l : Listing) : List Item :=
  (l.positionsOf [.kwDeclare]).flatMap fun i => ((l.openerAfter? i).bind l.allItems?).getD []

/-- The equal signs of the listing are not blank. -/
def SpellsEqual (l : Listing) : Prop := ∀ j t, l.get? j = some t → t.kind = .equal → ¬ t.Blank

theorem spellsEqual_ofTokens {ts : List Token} (hts : IsLexed ts) :
    (ofTokens ts).SpellsEqual := by
  intro j t ht hkind hblank
  have hfits := fits_of_get? hts ht
  rw [hkind, TokenKind.fits, beq_iff_eq] at hfits
  exact absurd (hblank '=' (List.mem_of_mem_head? hfits)) (by decide)

theorem spellsEqual_of_thins {pos : Nat → Nat} {l l' : Listing}
    (h : Thins pos l'.tokens l.tokens) (hl : l.SpellsEqual) : l'.SpellsEqual := by
  intro k t ht hkind
  have hget := h.listing_get? k
  rw [ht, Option.map_some] at hget
  exact hl _ (t.reindex pos) hget hkind

/-- A blank item gives no directive. -/
theorem directive?_of_blank {l : Listing} (hl : l.SpellsEqual) {item : Item} (h : l.Covers item)
    (hblank : item.text.isEmpty = true) : l.directive? item = none := by
  unfold directive?
  split
  · rfl
  · rename_i position hposition
    rw [Option.map_eq_none_iff, Option.eq_none_iff_forall_ne_some]
    intro equal hequal
    obtain ⟨hlow, hhigh, t, ht, hkind⟩ := firstIn?_eq_some hequal
    have hstart := (firstIn?_eq_some hposition).1
    exact hl _ t ht (eq_of_beq hkind) (h.isEmpty_iff.1 hblank _ t (by omega) hhigh ht)

theorem filterMap_directive?_dropBlankLast {l : Listing} (hl : l.SpellsEqual) {items : List Item}
    (h : ∀ item ∈ items, l.Covers item) :
    (dropBlankLast items).filterMap l.directive? = items.filterMap l.directive? := by
  rcases dropBlankLast_cases items with he | ⟨item, hblank, he⟩
  · rw [he]
  · have hcovers : l.Covers item := h item (he ▸ List.mem_append_right _ List.mem_cons_self)
    conv => rhs; rw [he]
    simp [directive?_of_blank hl hcovers hblank]

end Listing

/-- What is found at directives, item by item. -/
theorem Check.map_sign_directiveFindings {l : Listing} (hl : l.SpellsEqual) (target : Target) :
    (directiveFindings l target).map Finding.sign =
      l.declaredItems.flatMap fun item => (l.directive? item).toList.flatMap fun d =>
        directiveSigns target.range d.name d.value := by
  have huses : directives.uses l [.kwDeclare] = l.positionsOf [.kwDeclare] := by
    refine List.filter_eq_self.2 fun i hi => ?_
    obtain ⟨t, ht, hkind⟩ := (l.mem_positionsOf _ i).1 hi
    rw [List.mem_singleton] at hkind
    simp [directives, Listing.kind?, ht, hkind]
  unfold directiveFindings Listing.declaredItems
  rw [huses, List.map_flatMap, List.flatMap_assoc]
  refine List.flatMap_congr fun i hi => ?_
  obtain ⟨t, ht, hkind⟩ := (l.mem_positionsOf _ i).1 hi
  have hdirectives : (l.directives? i).getD [] =
      (((l.openerAfter? i).bind l.allItems?).getD []).filterMap l.directive? := by
    have hdeclare : l.kind? i = some .kwDeclare := by
      rw [Listing.kind?, ht, Option.map_some, List.mem_singleton.1 hkind]
    rw [Listing.directives?, hdeclare, beq_self_eq_true, if_pos rfl, Listing.arguments?]
    cases l.openerAfter? i with
    | none => rfl
    | some opener =>
      rw [Option.bind_some, Option.bind_some, Listing.items?_eq]
      cases hitems : l.allItems? opener with
      | none => rfl
      | some items =>
        exact Listing.filterMap_directive?_dropBlankLast hl (Listing.allItems?_covers hitems)
  rw [hdirectives, List.filterMap_eq_flatMap_toList, List.flatMap_assoc, List.map_flatMap]
  refine List.flatMap_congr fun item _ => ?_
  rw [List.map_flatMap]
  exact List.flatMap_congr fun d _ => map_sign_directiveReport l target.range d

namespace Listing

/-! ## Values without some of their tokens -/

/-- The equal sign of the directive that an item gives. -/
def equalIn? (l : Listing) (item : Item) : Option Nat :=
  (l.firstIn? Token.isSignificant item.start item.stop).bind fun first =>
    l.firstIn? (fun t => t.kind == .equal) first item.stop

/-- The text from `start` up to `stop` without the dropped tokens. -/
def textKept (l : Listing) (drop : Nat → Bool) (start stop : Nat) : String :=
  String.join (((l.window (stop - start) start).filter fun e => !drop e.2).map fun e => e.1.text)

/-- The value of the directive that an item gives, without the dropped tokens. -/
def keptValue (l : Listing) (drop : Nat → Bool) (item : Item) : String :=
  ((l.equalIn? item).map fun equal => Text.trim (l.textKept drop (equal + 1) item.stop)).getD ""

/-- Some token of the value of the directive that an item gives is dropped. -/
def DropsFromValue (l : Listing) (drop : Nat → Bool) (item : Item) : Prop :=
  ∃ equal j, l.equalIn? item = some equal ∧ equal < j ∧ j < item.stop ∧ drop j = true

section Values

variable {l : Listing} {drop : Nat → Bool} {item : Item} {d : Directive}

theorem equalIn?_of_directive? (h : l.directive? item = some d) :
    ∃ equal, l.equalIn? item = some equal ∧
      d.value = Text.trim (l.textOf (equal + 1) item.stop) := by
  unfold directive? at h
  unfold equalIn?
  cases hfirst : l.firstIn? Token.isSignificant item.start item.stop with
  | none =>
    rw [hfirst] at h
    cases h
  | some first =>
    rw [hfirst] at h
    obtain ⟨equal, hequal, rfl⟩ := Option.map_eq_some_iff.1 h
    exact ⟨equal, hequal, rfl⟩

theorem textKept_eq_textOf {start stop : Nat} (h : ∀ j, start ≤ j → j < stop → drop j = false) :
    l.textKept drop start stop = l.textOf start stop := by
  rw [textKept, textOf, stretch_eq, List.filter_eq_self.2, List.map_map]
  · rfl
  · intro e he
    have hlow := List.le_snd_of_mem_zipIdx he
    have hhigh := List.snd_lt_add_of_mem_zipIdx he
    have hlength : (segment l.tokens (stop - start) start).length ≤ stop - start :=
      List.length_take_le _ _
    rw [h e.2 hlow (by omega)]
    rfl

/-- A value of which nothing is dropped stays as it is. -/
theorem keptValue_eq (hd : l.directive? item = some d) (h : ¬ l.DropsFromValue drop item) :
    l.keptValue drop item = d.value := by
  obtain ⟨equal, hequal, hvalue⟩ := equalIn?_of_directive? hd
  rw [keptValue, hequal, Option.map_some, Option.getD_some, hvalue, textKept_eq_textOf]
  intro j hlow hhigh
  exact Bool.eq_false_iff.2 fun hj => h ⟨equal, j, hequal, hlow, hhigh, hj⟩

end Values

/-- A value that holds a comment looks wrong. -/
theorem hasInvalidValue_of_comment {ts : List Token} (hts : IsLexed ts) {drop : Nat → Bool}
    (hdrop : ∀ j, drop j = true → ((ofTokens ts).kind? j).any TokenKind.isComment = true)
    {item : Item} {d : Directive} {f : Feature} (hd : (ofTokens ts).directive? item = some d)
    (hf : Check.directives.catalogue.find? d.name = some f)
    (h : (ofTokens ts).DropsFromValue drop item) : Check.hasInvalidValue d f = true := by
  obtain ⟨equal, j, hequal, hlow, hhigh, hj⟩ := h
  obtain ⟨equal', hequal', hvalue⟩ := equalIn?_of_directive? hd
  obtain rfl := Option.some.inj (hequal.symm.trans hequal')
  obtain ⟨check, hcheck, hne⟩ := Check.valueCheck_of_find? hf
  obtain ⟨kind, hkind, hcomment⟩ := (Option.any_eq_true _ _).1 (hdrop j hj)
  obtain ⟨t, ht, rfl⟩ := Option.map_eq_some_iff.1 hkind
  have hkept {c : Char} (hc : c ∈ t.text.toList) (hblank : Text.isBlank c = false) :
      c ∈ d.value.toList := by
    rw [hvalue, Text.trim, String.toList_ofList]
    refine Text.mem_trimChars ?_ hblank
    rw [toList_textOf]
    exact List.mem_flatMap.2 ⟨t, mem_stretch_iff.2 ⟨j, hlow, hhigh, ht⟩, hc⟩
  have hmark : '/' ∈ d.value.toList ∨ '#' ∈ d.value.toList :=
    (mark_of_comment hts ht hcomment).imp (hkept · (by decide)) (hkept · (by decide))
  have hsome : d.value.isEmpty = false := by
    refine Bool.eq_false_iff.2 fun hempty => ?_
    rw [String.isEmpty_iff.1 hempty] at hmark
    exact absurd hmark (by decide)
  rw [Check.hasInvalidValue, hsome, hcheck, Option.any_some,
    ValueCheck.not_accepts_of_mark hne hmark]
  rfl

end Listing

namespace Thins

variable {pos : Nat → Nat} {l' l : Listing}

theorem textKept (h : Thins pos l'.tokens l.tokens) {drop : Nat → Bool}
    (hkeep : ∀ i, drop i = false ↔ ∃ k, pos k = i) {a b a' b' : Nat} (ha : Splits pos a a')
    (hb : Splits pos b b') : l.textKept drop a b = l'.textOf a' b' := by
  have hwindow : (l.window (b - a) a).filter (fun e => !drop e.2) =
      (l'.window (b' - a') a').map (move pos) := by
    refine h.window_kept hkeep ha ?_
    rw [show a + (b - a) = max a b by omega, show a' + (b' - a') = max a' b' by omega]
    exact ha.max hb
  rw [Listing.textKept, hwindow, Listing.textOf, Listing.stretch_eq, List.map_map, List.map_map]
  rfl

/-- The directive that an item gives has the same name, and what is kept of its value. -/
theorem directive? (h : Thins pos l'.tokens l.tokens) {drop : Nat → Bool}
    (hkeep : ∀ i, drop i = false ↔ ∃ k, pos k = i) {item item' : Item}
    (hitem : item.Matches pos item') :
    (l'.directive? item').map (fun d => (d.name, d.value)) =
      (l.directive? item).map fun d => (d.name, l.keptValue drop item) := by
  unfold Listing.directive? Listing.keptValue Listing.equalIn?
  rw [h.firstIn? selects_isSignificant hitem.start hitem.stop]
  cases l'.firstIn? Token.isSignificant item'.start item'.stop with
  | none => rfl
  | some first =>
    simp only [Option.map_some, Option.bind_some]
    have hfirst := Splits.before h.strictMono first
    rw [h.firstIn? (selects_beq .equal rfl) hfirst hitem.stop]
    cases l'.firstIn? (fun t => t.kind == .equal) first item'.stop with
    | none => rfl
    | some equal =>
      simp only [Option.map_some, Option.getD_some]
      rw [h.significantTextOf hfirst (Splits.before h.strictMono equal),
        h.textKept hkeep (Splits.after h.strictMono equal) hitem.stop]

theorem declaredItems (h : Thins pos l'.tokens l.tokens) :
    List.Forall₂ (Item.Matches pos) l.declaredItems l'.declaredItems := by
  unfold Listing.declaredItems
  rw [h.positionsOf (by decide), List.flatMap_map]
  refine List.rel_flatMap (R := Eq) (List.forall₂_refl _) ?_
  rintro k _ rfl
  beta_reduce
  rw [h.openerAfter?]
  cases l'.openerAfter? k with
  | none => exact .nil
  | some opener =>
    rw [Option.map_some, Option.bind_some, Option.bind_some]
    rcases itemsMatch_cases (h.allItems? opener) with ⟨hl, hl'⟩ | ⟨items, items', hl, hl', hall⟩
    · rw [hl, hl']
      exact .nil
    · rw [hl, hl']
      exact hall

end Thins

/-! ## Leaving out comments -/

theorem flatMap_eq_of_forall₂ {α β γ : Type} {R : α → β → Prop} {xs : List α} {ys : List β}
    (h : List.Forall₂ R xs ys) {f : α → List γ} {g : β → List γ}
    (hfg : ∀ {x y}, R x y → f x = g y) : xs.flatMap f = ys.flatMap g := by
  induction h with
  | nil => rfl
  | cons hxy _ ih => rw [List.flatMap_cons, List.flatMap_cons, hfg hxy, ih]

/-- Two lists that are put together from parts, of which one has the shorter parts, are equal iff
all their parts are. -/
theorem flatMap_eq_flatMap_iff {α β : Type} {xs : List α} {f g : α → List β}
    (h : ∀ x ∈ xs, g x <+: f x) : xs.flatMap g = xs.flatMap f ↔ ∀ x ∈ xs, g x = f x := by
  induction xs with
  | nil => exact ⟨fun _ => nofun, fun _ => rfl⟩
  | cons x xs ih =>
    obtain ⟨hx, hxs⟩ := List.forall_mem_cons.1 h
    rw [List.forall_mem_cons, List.flatMap_cons, List.flatMap_cons, ← ih hxs]
    constructor
    · intro heq
      have hrest : (xs.flatMap g).length ≤ (xs.flatMap f).length := by
        rw [List.length_flatMap, List.length_flatMap]
        exact List.sum_le_sum fun y hy => (hxs y hy).length_le
      have hlength := congrArg List.length heq
      rw [List.length_append, List.length_append] at hlength
      have hsame := hx.eq_of_length (Nat.le_antisymm hx.length_le (by omega))
      rw [hsame] at heq
      exact ⟨hsame, List.append_cancel_left heq⟩
    · rintro ⟨hsame, hrest⟩
      rw [hsame, hrest]

namespace Check

open Listing (ofText ofTokens)

/-- What is found at a directive with one value and with another, if the first looks wrong whenever
the second does. -/
theorem directiveSigns_cases (range : VersionRange) {name value value' : String}
    (h : ∀ f, directives.catalogue.find? name = some f →
      hasInvalidValue ⟨name, 0, value', none⟩ f = true →
      hasInvalidValue ⟨name, 0, value, none⟩ f = true) :
    directiveSigns range name value' <+: directiveSigns range name value ∧
      (directiveSigns range name value' = directiveSigns range name value ↔
        ∀ f, directives.catalogue.find? name = some f →
          hasInvalidValue ⟨name, 0, value, none⟩ f = true →
          hasInvalidValue ⟨name, 0, value', none⟩ f = true) := by
  unfold directiveSigns
  cases hfind : directives.catalogue.find? name with
  | none => exact ⟨List.prefix_rfl, fun _ => nofun, fun _ => rfl⟩
  | some f =>
    have hf := h f hfind
    simp only [Option.some.injEq, forall_eq', List.append_cancel_left_eq, List.prefix_append_right_inj]
    cases hvalue : hasInvalidValue ⟨name, 0, value, none⟩ f <;>
      cases hvalue' : hasInvalidValue ⟨name, 0, value', none⟩ f <;> simp_all

section Comments

variable {ts : List Token} {drop : Nat → Bool}
  (hdrop : ∀ j, drop j = true → ((ofTokens ts).kind? j).any TokenKind.isComment = true)
include hdrop

theorem dropsLayout_of_comments : (ofTokens ts).DropsLayout drop := by
  intro j hj
  obtain ⟨kind, hkind, hcomment⟩ := (Option.any_eq_true _ _).1 (hdrop j hj)
  obtain ⟨t, ht, rfl⟩ := Option.map_eq_some_iff.1 hkind
  refine ⟨t, ht, ?_⟩
  rw [Token.isSignificant, TokenKind.isLayout_iff.2 (Or.inr hcomment)]
  rfl

/-- What is found without comments, item by item of the text with comments. -/
theorem map_sign_directiveFindings_without (hts : IsLexed ts) (target : Target) :
    (directiveFindings ((ofTokens ts).without drop) target).map Finding.sign =
      (ofTokens ts).declaredItems.flatMap fun item => ((ofTokens ts).directive? item).toList.flatMap
        fun d => directiveSigns target.range d.name ((ofTokens ts).keptValue drop item) := by
  have hlayout := dropsLayout_of_comments hdrop
  have hthins := Listing.thins_without hts.bare hlayout
  have hspells := Listing.spellsEqual_of_thins hthins (Listing.spellsEqual_ofTokens hts)
  rw [map_sign_directiveFindings hspells]
  refine (flatMap_eq_of_forall₂ hthins.declaredItems fun {item item'} hitem => ?_).symm
  have hsame := hthins.directive? hlayout.keep_iff hitem
  cases hd : (ofTokens ts).directive? item with
  | none =>
    rw [hd, Option.map_none, Option.map_eq_none_iff] at hsame
    rw [hsame]
    rfl
  | some d =>
    rw [hd, Option.map_some] at hsame
    obtain ⟨d', hd', hpair⟩ := Option.map_eq_some_iff.1 hsame
    obtain ⟨hname, hvalue⟩ := Prod.mk.inj hpair
    rw [hd', Option.toList_some, Option.toList_some, List.flatMap_singleton,
      List.flatMap_singleton, hname, hvalue]

/-- A value looks right with its comments only if it has none. -/
theorem hasInvalidValue_mono (hts : IsLexed ts) {item : Item} {d : Directive}
    (hd : (ofTokens ts).directive? item = some d) {f : Feature}
    (hf : directives.catalogue.find? d.name = some f)
    (h : hasInvalidValue ⟨d.name, 0, (ofTokens ts).keptValue drop item, none⟩ f = true) :
    hasInvalidValue ⟨d.name, 0, d.value, none⟩ f = true := by
  by_cases hdrops : (ofTokens ts).DropsFromValue drop item
  · exact Listing.hasInvalidValue_of_comment hts (d := d) hdrop hd hf hdrops
  · rwa [Listing.keptValue_eq hd hdrops] at h

end Comments

theorem directiveSigns_ticks (value : String) :
    directiveSigns { low := some ⟨7, 0, none⟩ } "ticks" value =
      if !value.isEmpty && !ValueCheck.ticks.accepts value then [(.warning, "InvalidticksFound")]
      else [] := by
  have hfind : directives.catalogue.find? "ticks" = some knownDirectives[0] := by
    rw [directives_catalogue]
    decide +kernel
  rw [directiveSigns, hfind]
  rfl

/-- What is found at a single directive, with and without one comment. -/
theorem map_sign_of_single {ts : List Token} (hts : IsLexed ts) {i : Nat} {item : Item}
    {d : Directive} (hcomment : ((ofTokens ts).kind? i).any TokenKind.isComment = true)
    (hitems : (ofTokens ts).declaredItems = [item])
    (hd : (ofTokens ts).directive? item = some d) (target : Target) :
    (directiveFindings (ofTokens ts) target).map Finding.sign =
        directiveSigns target.range d.name d.value ∧
      (directiveFindings ((ofTokens ts).without (· == i)) target).map Finding.sign =
        directiveSigns target.range d.name ((ofTokens ts).keptValue (· == i) item) := by
  have hdrop : ∀ j, (j == i) = true → ((ofTokens ts).kind? j).any TokenKind.isComment = true :=
    fun j hj => eq_of_beq hj ▸ hcomment
  rw [map_sign_directiveFindings (Listing.spellsEqual_ofTokens hts),
    map_sign_directiveFindings_without hdrop hts, hitems]
  simp only [List.flatMap_singleton, hd, Option.toList_some, and_self]

/-- Leaving out comments changes what is found at directives, other than texts and places, iff it
makes the value of a known directive look right: the comment stands beside the value, and what is
left of the value passes the check or is nothing. -/
theorem directiveFindings_without_comments {ts : List Token} (hts : IsLexed ts) (target : Target)
    {drop : Nat → Bool}
    (hdrop : ∀ j, drop j = true → ((ofTokens ts).kind? j).any TokenKind.isComment = true) :
    (directiveFindings ((ofTokens ts).without drop) target).map Finding.sign =
        (directiveFindings (ofTokens ts) target).map Finding.sign ↔
      ∀ item ∈ (ofTokens ts).declaredItems, ∀ d f, (ofTokens ts).directive? item = some d →
        directives.catalogue.find? d.name = some f → (ofTokens ts).DropsFromValue drop item →
        hasInvalidValue { d with value := (ofTokens ts).keptValue drop item } f = true := by
  rw [map_sign_directiveFindings_without hdrop hts,
    map_sign_directiveFindings (Listing.spellsEqual_ofTokens hts), flatMap_eq_flatMap_iff]
  · refine forall₂_congr fun item _ => ?_
    cases hd : (ofTokens ts).directive? item with
    | none => exact ⟨fun _ => nofun, fun _ => rfl⟩
    | some d =>
      rw [Option.toList_some, List.flatMap_singleton, List.flatMap_singleton,
        (directiveSigns_cases _ fun f hf => hasInvalidValue_mono hdrop hts hd hf).2]
      constructor
      · rintro h d' f hd' hf hdrops
        obtain rfl := Option.some.inj hd'
        exact h f hf (Listing.hasInvalidValue_of_comment hts (d := d) hdrop hd hf hdrops)
      · intro h f hf hinvalid
        by_cases hdrops : (ofTokens ts).DropsFromValue drop item
        · exact h d f rfl hf hdrops
        · rwa [Listing.keptValue_eq hd hdrops]
  · intro item _
    cases hd : (ofTokens ts).directive? item with
    | none => exact List.prefix_rfl
    | some d =>
      rw [Option.toList_some, List.flatMap_singleton, List.flatMap_singleton]
      exact (directiveSigns_cases _ fun f hf => hasInvalidValue_mono hdrop hts hd hf).1

theorem directiveFindings_without_comments_beside_name :
    let l := ofText "<?php declare(/* a */ ticks # b\n = 1);"
    let drop : Nat → Bool := fun j => j == 4 || j == 8
    (∀ j, drop j = true → (l.kind? j).any TokenKind.isComment = true) ∧
      (directiveFindings (l.without drop) {}).map Finding.sign =
        (directiveFindings l {}).map Finding.sign := by
  intro l drop
  obtain ⟨hfirst, hsecond, hitems, hequal⟩ :
      (l.kind? 4).any TokenKind.isComment = true ∧ (l.kind? 8).any TokenKind.isComment = true ∧
      l.declaredItems = [⟨4, 13, "/* a */ ticks # b\n = 1"⟩] ∧
      l.equalIn? ⟨4, 13, "/* a */ ticks # b\n = 1"⟩ = some 10 := by
    decide +kernel
  have hdrop : ∀ j, drop j = true → (l.kind? j).any TokenKind.isComment = true := by
    intro j hj
    rcases Bool.or_eq_true_iff.1 hj with h | h
    · rwa [eq_of_beq h]
    · rwa [eq_of_beq h]
  refine ⟨hdrop, (directiveFindings_without_comments (isLexed_tokens _) _ hdrop).2 ?_⟩
  rintro item hitem d f - - ⟨equal, j, hequal', hlow, -, hj⟩
  obtain rfl := List.mem_singleton.1 (show item ∈ [_] from hitems ▸ hitem)
  obtain rfl := Option.some.inj (hequal.symm.trans hequal')
  rcases Bool.or_eq_true_iff.1 hj with h | h
  · exact absurd (eq_of_beq h) (by omega)
  · exact absurd (eq_of_beq h) (by omega)

/-- A comment after a value makes the value look wrong, and a comment in the place of a value is
taken for one. -/
theorem comments_beside_values :
    let target : Target := { range := { low := some ⟨7, 0, none⟩ } }
    let after := ofText "<?php declare(ticks=1 /* c */);"
    let alone := ofText "<?php declare(ticks=/* c */);"
    (after.kind? 8 = some .comment ∧
        (directiveFindings after target).map Finding.sign = [(.warning, "InvalidticksFound")] ∧
        (directiveFindings (after.without (· == 8)) target).map Finding.sign = []) ∧
      alone.kind? 6 = some .comment ∧
        (directiveFindings alone target).map Finding.sign = [(.warning, "InvalidticksFound")] ∧
        (directiveFindings (alone.without (· == 6)) target).map Finding.sign = [] := by
  intro target after alone
  obtain ⟨hafter, hitems, hd, hkept⟩ : after.kind? 8 = some .comment ∧
      after.declaredItems = [⟨4, 9, "ticks=1 /* c */"⟩] ∧
      after.directive? ⟨4, 9, "ticks=1 /* c */"⟩ = some ⟨"ticks", 4, "1 /* c */", some 6⟩ ∧
      after.keptValue (· == 8) ⟨4, 9, "ticks=1 /* c */"⟩ = "1" := by
    decide +kernel
  obtain ⟨halone, hitems', hd', hkept'⟩ : alone.kind? 6 = some .comment ∧
      alone.declaredItems = [⟨4, 7, "ticks=/* c */"⟩] ∧
      alone.directive? ⟨4, 7, "ticks=/* c */"⟩ = some ⟨"ticks", 4, "/* c */", none⟩ ∧
      alone.keptValue (· == 6) ⟨4, 7, "ticks=/* c */"⟩ = "" := by
    decide +kernel
  have hcomment : (after.kind? 8).any TokenKind.isComment = true := by
    rw [hafter]
    rfl
  have hcomment' : (alone.kind? 6).any TokenKind.isComment = true := by
    rw [halone]
    rfl
  obtain ⟨hwith, hwithout⟩ := map_sign_of_single (isLexed_tokens _) hcomment hitems hd target
  obtain ⟨hwith', hwithout'⟩ := map_sign_of_single (isLexed_tokens _) hcomment' hitems' hd' target
  refine ⟨⟨hafter, ?_, ?_⟩, halone, ?_, ?_⟩
  · exact (hwith.trans (directiveSigns_ticks _)).trans (by decide +kernel)
  · refine hwithout.trans ?_
    show directiveSigns _ _ (after.keptValue (· == 8) _) = []
    rw [hkept, directiveSigns_ticks]
    decide +kernel
  · exact (hwith'.trans (directiveSigns_ticks _)).trans (by decide +kernel)
  · refine hwithout'.trans ?_
    show directiveSigns _ _ (alone.keptValue (· == 6) _) = []
    rw [hkept', directiveSigns_ticks]
    decide +kernel

end Check

end Vintage
