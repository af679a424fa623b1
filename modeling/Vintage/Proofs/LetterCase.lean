import Vintage.Listing.Reference
import Vintage.Listing.Signature
import Vintage.NameSet
import Vintage.Proofs.BlankItems

/-!
# Texts in any case

Names are looked up without regard to the case of the letters `A` to `Z`: what is done to a text
beforehand, trimming, cutting and lowering, does not depend on their case.

Results:
* `Text.apply_toLower`: a function of characters that does not depend on case.
* `Text.trim_lower`, `Text.splitOn_lowerChars`, `Text.lowerText_lower`: texts.
* `NameSet.contains_lower`, `Catalogue.find?_lower`, `Catalogue.findPrefix?_lower`: look-ups.
* `TypeHint.names_lowered`, `Reference.shortName_lowered`: written types and references.
-/

namespace Vintage

/-! ## Characters and texts -/

namespace Text

/-- The letters `A` to `Z`, by number. -/
def capital (n : Nat) : Char := Char.ofNat (65 + n)

/-- The letters `a` to `z`, by number. -/
def small (n : Nat) : Char := Char.ofNat (97 + n)

theorem toLower_cases (c : Char) :
    c.toLower = c ∨ ∃ n < 26, c = capital n ∧ c.toLower = small n := by
  by_cases h : c.val ≥ 'A'.val ∧ c.val ≤ 'Z'.val
  · have hlow : 65 ≤ c.toNat := h.1
    have hhigh : c.toNat ≤ 90 := h.2
    have hc : c = capital (c.toNat - 65) := by
      rw [capital, show 65 + (c.toNat - 65) = c.toNat by omega, Char.ofNat_toNat]
    have hlower : ∀ n < 26, (capital n).toLower = small n := by decide
    refine Or.inr ⟨c.toNat - 65, by omega, hc, ?_⟩
    rw [← hlower _ (by omega), ← hc]
  · exact Or.inl (dif_neg h)

/-- A function of characters that does not tell the letters `A` to `Z` from `a` to `z`. -/
theorem apply_toLower {α : Type} {f : Char → α} (hf : ∀ n < 26, f (small n) = f (capital n))
    (c : Char) : f c.toLower = f c := by
  rcases toLower_cases c with hc | ⟨n, hn, hc, hlower⟩
  · rw [hc]
  · rw [hlower, hc]
    exact hf n hn

theorem isBlank_toLower (c : Char) : isBlank c.toLower = isBlank c := apply_toLower (by decide) c

theorem beq_backslash_toLower (c : Char) : (c.toLower == '\\') = (c == '\\') :=
  apply_toLower (f := (· == '\\')) (by decide) c

theorem lowerChars_lowerChars (cs : List Char) : lowerChars (lowerChars cs) = lowerChars cs := by
  rw [lowerChars, lowerChars, List.map_map]
  exact List.map_congr_left fun c _ => apply_toLower (f := Char.toLower) (by decide) c

theorem lowerChars_reverse (cs : List Char) : (lowerChars cs).reverse = lowerChars cs.reverse :=
  List.map_reverse.symm

theorem dropWhile_lowerChars {p : Char → Bool} (hp : ∀ c, p c.toLower = p c) (cs : List Char) :
    (lowerChars cs).dropWhile p = lowerChars (cs.dropWhile p) := by
  rw [lowerChars, List.dropWhile_map, show p ∘ Char.toLower = p from funext hp, lowerChars]

theorem takeWhile_lowerChars {p : Char → Bool} (hp : ∀ c, p c.toLower = p c) (cs : List Char) :
    (lowerChars cs).takeWhile p = lowerChars (cs.takeWhile p) := by
  rw [lowerChars, List.takeWhile_map, show p ∘ Char.toLower = p from funext hp, lowerChars]

theorem toList_lower (s : String) : (lower s).toList = lowerChars s.toList := String.toList_ofList

theorem lower_ofList (cs : List Char) : lower (String.ofList cs) = String.ofList (lowerChars cs) := by
  rw [lower, String.toList_ofList]

theorem lower_lower (s : String) : lower (lower s) = lower s := by
  rw [lower, toList_lower, lowerChars_lowerChars, lower]

theorem lower_append (s t : String) : lower (s ++ t) = lower s ++ lower t := by
  rw [lower, String.toList_append, lowerChars, List.map_append, String.ofList_append]
  rfl

theorem lower_join (ss : List String) : lower (String.join ss) = String.join (ss.map lower) := by
  have hpiece : (fun s => lowerChars s.toList) = fun s => (lower s).toList :=
    funext fun s => (toList_lower s).symm
  rw [← String.toList_inj, toList_lower, String.toList_join, String.toList_join, lowerChars,
    List.map_flatMap, List.flatMap_map]
  exact congrArg (ss.flatMap ·) hpiece

theorem isEmpty_lower (s : String) : (lower s).isEmpty = s.isEmpty := by
  rw [Bool.eq_iff_iff, String.isEmpty_iff, String.isEmpty_iff, lower_eq_empty_iff]

theorem sameLetters_iff (s t : String) : sameLetters s t = true ↔ lower s = lower t := by
  rw [sameLetters, beq_iff_eq, ← String.toList_inj, toList_lower, toList_lower]

theorem sameLetters_lower (s t : String) : sameLetters (lower s) t = sameLetters s t := by
  rw [sameLetters, toList_lower, lowerChars_lowerChars, sameLetters]

theorem trim_lower (s : String) : trim (lower s) = lower (trim s) := by
  rw [trim, trimChars, toList_lower, dropWhile_lowerChars isBlank_toLower, lowerChars_reverse,
    dropWhile_lowerChars isBlank_toLower, lowerChars_reverse, ← lower_ofList]
  rfl

theorem dropBackslashes_lower (s : String) :
    dropBackslashes (lower s) = lower (dropBackslashes s) := by
  rw [dropBackslashes, toList_lower, dropWhile_lowerChars beq_backslash_toLower, ← lower_ofList]
  rfl

theorem splitOn_lowerChars {sep : Char → Bool} (hsep : ∀ c, sep c.toLower = sep c)
    (cs : List Char) : splitOn sep (lowerChars cs) = (splitOn sep cs).map lowerChars := by
  induction cs with
  | nil => rfl
  | cons c cs ih =>
    show splitOn sep (c.toLower :: lowerChars cs) = _
    rw [splitOn, splitOn, ih, hsep]
    split
    · rfl
    · cases splitOn sep cs <;> rfl

/-- No letter `A` to `Z` or `a` to `z` is ignored when the case of a word is judged. -/
theorem caseIgnorable_toLower (c : Char) :
    inRanges caseIgnorable c.toLower = inRanges caseIgnorable c := by
  have hranges : ∀ range ∈ caseIgnorable,
      range.2 < 65 ∨ (90 < range.1 ∧ range.2 < 97) ∨ 122 < range.1 := by decide +kernel
  have hletter {c : Char} (hc : 65 ≤ c.toNat ∧ c.toNat ≤ 90 ∨ 97 ≤ c.toNat ∧ c.toNat ≤ 122) :
      inRanges caseIgnorable c = false := by
    refine List.any_eq_false.2 fun range hrange hmem => ?_
    rw [Bool.and_eq_true, decide_eq_true_iff, decide_eq_true_iff] at hmem
    have := hranges range hrange
    omega
  have hcapital : ∀ n < 26, 65 ≤ (capital n).toNat ∧ (capital n).toNat ≤ 90 := by decide
  have hsmall : ∀ n < 26, 97 ≤ (small n).toNat ∧ (small n).toNat ≤ 122 := by decide
  refine apply_toLower (f := inRanges caseIgnorable) (fun n hn => ?_) c
  rw [hletter (Or.inl (hcapital n hn)), hletter (Or.inr (hsmall n hn))]

theorem startsCased_lowerChars (cs : List Char) : startsCased (lowerChars cs) = startsCased cs := by
  rw [startsCased, dropWhile_lowerChars caseIgnorable_toLower, startsCased]
  cases cs.dropWhile (inRanges caseIgnorable) with
  | nil => rfl
  | cons c _ => exact apply_toLower (f := inRanges cased) (by decide +kernel) c

theorem lowerFrom_lowerChars (before cs : List Char) :
    lowerFrom (lowerChars before) (lowerChars cs) = lowerFrom before cs := by
  induction cs generalizing before with
  | nil => rfl
  | cons c cs ih =>
    have hsigma : (c.toLower == 'Σ') = (c == 'Σ') := apply_toLower (f := (· == 'Σ')) (by decide) c
    have hlower : lowerChar c.toLower = lowerChar c := apply_toLower (by decide +kernel) c
    have hrest := ih (c :: before)
    show lowerFrom (lowerChars before) (c.toLower :: lowerChars cs) = _
    rw [lowerFrom, lowerFrom, hsigma, hlower, startsCased_lowerChars, startsCased_lowerChars]
    exact congrArg _ hrest

theorem lowerText_lower (s : String) : lowerText (lower s) = lowerText s := by
  rw [lowerText, toList_lower]
  exact congrArg String.ofList (lowerFrom_lowerChars [] s.toList)

end Text

/-! ## Look-ups -/

namespace NameSet

theorem normalForm_lower (name : String) : normalForm (Text.lower name) = normalForm name := by
  rw [normalForm, Text.trim_lower, Text.dropBackslashes_lower, Text.lowerText_lower, normalForm]

theorem contains_lower (set : NameSet) (name : String) :
    set.contains (Text.lower name) = set.contains name := by
  rw [contains, normalForm_lower, contains]

end NameSet

namespace Catalogue

theorem keyOf_lower (name : String) : keyOf (Text.lower name) = keyOf name := by
  rw [keyOf, Text.dropBackslashes_lower, Text.lower_lower, keyOf]

theorem find?_lower (c : Catalogue) (name : String) : c.find? (Text.lower name) = c.find? name := by
  rw [find?, keyOf_lower, find?]

theorem findPrefix?_lower (c : Catalogue) (name : String) :
    c.findPrefix? (Text.lower name) = c.findPrefix? name := by
  rw [findPrefix?, keyOf_lower, findPrefix?]

end Catalogue

/-- The type in small letters. -/
def TypeHint.lowered (type : TypeHint) : TypeHint := { type with text := Text.lower type.text }

/-- The names in a type are in small letters anyway. -/
theorem TypeHint.names_lowered (type : TypeHint) : type.lowered.names = type.names := by
  have hconnective (c : Char) : isConnective c.toLower = isConnective c :=
    Text.apply_toLower (by decide) c
  rw [names, lowered, Text.toList_lower, Text.splitOn_lowerChars hconnective, List.map_map, names]
  refine congrArg _ (List.map_congr_left fun piece _ => ?_)
  rw [Function.comp_apply, ← Text.lower_ofList, Text.trim_lower, Text.dropBackslashes_lower,
    Text.lower_lower]

namespace Reference

/-- The reference in small letters. -/
def lowered (r : Reference) : Reference := { r with name := Text.lower r.name }

theorem shortName_lowered (r : Reference) : r.lowered.shortName = Text.lower r.shortName := by
  have hother (c : Char) : (c.toLower != '\\') = (c != '\\') :=
    congrArg not (Text.beq_backslash_toLower c)
  rw [shortName, lowered, Text.toList_lower, Text.lowerChars_reverse,
    Text.takeWhile_lowerChars hother, Text.lowerChars_reverse, ← Text.lower_ofList]
  rfl

theorem isNamespaced_lowered (r : Reference) : r.lowered.isNamespaced = r.isNamespaced := by
  rw [isNamespaced, lowered, Text.toList_lower,
    Text.dropWhile_lowerChars Text.beq_backslash_toLower, isNamespaced, List.contains_eq_any_beq,
    List.contains_eq_any_beq, Text.lowerChars, List.any_map]
  congr 1
  funext c
  rw [Function.comp_apply, Bool.beq_comm, Text.beq_backslash_toLower, Bool.beq_comm]

end Reference

end Vintage
