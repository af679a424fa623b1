import Vintage.Proofs.LooseOrder
import Vintage.Proofs.VersionSyntax

/-!
# How ranges are written

A range is written as one version, or as two bounds with a dash between them. A bound may be left
out, but not both, and blanks may stand around the range and around its bounds. A text of this
shape whose bounds are the wrong way round is refused with the bounds, any other text as it stands.

Results:
* `VersionRange.parse_of_writes`: a text of the right shape is read as its bounds.
* `VersionRange.parse_iff_writes`: the texts that are read, and the error for every other text.
* `VersionRange.parse_text`: reading the text of a range gives the range back.
-/

namespace Vintage

namespace Text

/-! ## Blanks, backslashes and dashes -/

theorem dropWhile_eq_self {p : Char → Bool} {cs : List Char}
    (h : ∀ c ∈ cs.head?, p c = false) : cs.dropWhile p = cs := by
  cases cs with
  | nil => rfl
  | cons c cs => exact List.dropWhile_cons_of_neg (by simp [h c rfl])

/-- Blanks inside a text are not trimmed. -/
theorem trimChars_eq_self_of_ends {cs : List Char} (hstart : ∀ c ∈ cs.head?, isBlank c = false)
    (hend : ∀ c ∈ cs.getLast?, isBlank c = false) : trimChars cs = cs := by
  rw [← List.head?_reverse] at hend
  rw [trimChars, dropWhile_eq_self hstart, dropWhile_eq_self hend, List.reverse_reverse]

theorem trimChars_eq_self {cs : List Char} (h : ∀ c ∈ cs, isBlank c = false) :
    trimChars cs = cs :=
  trimChars_eq_self_of_ends (fun c hc => h c (List.mem_of_head? hc))
    fun c hc => h c (List.mem_of_getLast? hc)

theorem not_isBlank_of_head?_dropWhile {cs : List Char} {c : Char}
    (h : (cs.dropWhile isBlank).head? = some c) : isBlank c = false := by
  have hhead := List.head?_dropWhile_not isBlank cs
  rwa [h] at hhead

/-- A text that is trimmed has nothing more to trim. -/
theorem trimChars_trimChars (cs : List Char) : trimChars (trimChars cs) = trimChars cs := by
  refine trimChars_eq_self_of_ends (fun c hc => ?_) fun c hc => ?_
  · have hstart : trimChars cs <+: cs.dropWhile isBlank := by
      rw [← List.reverse_suffix, trimChars, List.reverse_reverse]
      exact List.dropWhile_suffix isBlank
    obtain ⟨rest, hrest⟩ := hstart
    have hhead : (cs.dropWhile isBlank).head? = some c := by
      rw [← hrest, List.head?_append, hc, Option.some_or]
    exact not_isBlank_of_head?_dropWhile hhead
  · rw [trimChars, Option.mem_def, List.getLast?_reverse] at hc
    exact not_isBlank_of_head?_dropWhile hc

theorem dropWhile_backslashes {cs : List Char} (h : ∀ c ∈ cs.head?, c ≠ '\\') (n : Nat) :
    (List.replicate n '\\' ++ cs).dropWhile (· == '\\') = cs := by
  have hbackslash : ∀ c ∈ List.replicate n '\\', (c == '\\') = true := by
    intro c hc
    rw [List.eq_of_mem_replicate hc, beq_self_eq_true]
  rw [List.dropWhile_append_of_pos hbackslash]
  exact dropWhile_eq_self fun c hc => beq_eq_false_iff_ne.2 (h c hc)

theorem splitFirst_eq_none_iff {sep : Char} {cs : List Char} :
    splitFirst sep cs = none ↔ sep ∉ cs := by
  induction cs with
  | nil => simp [splitFirst]
  | cons c cs ih =>
    rw [splitFirst]
    split
    · rename_i hc
      simp [hc]
    · rename_i hc
      rw [Option.map_eq_none_iff, ih, List.mem_cons, not_or]
      exact ⟨fun h => ⟨fun he => hc he.symm, h⟩, And.right⟩

theorem splitFirst_append_cons {sep : Char} {before : List Char} (h : sep ∉ before)
    (after : List Char) : splitFirst sep (before ++ sep :: after) = some (before, after) := by
  induction before with
  | nil => rw [List.nil_append, splitFirst, if_pos rfl]
  | cons c before ih =>
    rw [List.mem_cons, not_or] at h
    rw [List.cons_append, splitFirst, if_neg (Ne.symm h.1), ih h.2]
    rfl

/-- A text is cut at its first separator. -/
theorem eq_append_of_splitFirst {sep : Char} {cs before after : List Char}
    (h : splitFirst sep cs = some (before, after)) :
    cs = before ++ sep :: after ∧ sep ∉ before := by
  induction cs generalizing before with
  | nil => cases h
  | cons c cs ih =>
    rw [splitFirst] at h
    split at h
    · rename_i hc
      cases h
      exact ⟨by rw [hc, List.nil_append], List.not_mem_nil⟩
    · rename_i hc
      obtain ⟨⟨front, rest⟩, hcut, he⟩ := Option.map_eq_some_iff.1 h
      cases he
      obtain ⟨rfl, hfront⟩ := ih hcut
      refine ⟨rfl, ?_⟩
      rw [List.mem_cons, not_or]
      exact ⟨Ne.symm hc, hfront⟩

end Text

/-- Versions on one level are the same if neither or both give a patch. -/
theorem Version.level_and_patch_iff (v w : Version) :
    (v.level w && v.patch == w.patch) = true ↔ v = w := by
  obtain ⟨major, minor, patch⟩ := v
  obtain ⟨major', minor', patch'⟩ := w
  simp only [level, key, Bool.and_eq_true, beq_iff_eq, Prod.mk.injEq, UInt16.toNat_inj, mk.injEq]
  constructor
  · rintro ⟨⟨hmajor, hminor, -⟩, hpatch⟩
    exact ⟨hmajor, hminor, hpatch⟩
  · rintro ⟨rfl, rfl, rfl⟩
    exact ⟨⟨rfl, rfl, rfl⟩, rfl⟩

namespace VersionRange

/-! ## The grammar -/

/-- `cs` writes a bound: nothing for a missing one, otherwise a version. -/
inductive WritesBound : List Char → Option Version → Prop
  | missing : WritesBound [] none
  | given {cs : List Char} {v : Version} (hv : v.Spells cs) : WritesBound cs (some v)

/-- `cs` has the shape of a range with the bounds `low` and `high`. -/
inductive Writes : List Char → Option Version → Option Version → Prop
  | single {cs : List Char} {v : Version} (hdash : '-' ∉ cs) (hv : v.Spells cs) :
      Writes cs (some v) (some v)
  | bounds {before after : List Char} {low high : Option Version} (hdash : '-' ∉ before)
      (hlow : WritesBound (Text.trimChars before) low)
      (hhigh : WritesBound (Text.trimChars after) high) (hgiven : ¬(low = none ∧ high = none)) :
      Writes (before ++ '-' :: after) low high

theorem parse_ofList_eq_ok_iff {cs : List Char} (hcs : Text.trimChars cs = cs) {v : Version} :
    Version.parse (String.ofList cs) = .ok v ↔ v.Spells cs := by
  rw [← Version.ofChars?_eq_some_iff, Version.parse, String.toList_ofList, hcs]
  cases Version.ofChars? cs <;> simp

theorem bound?_eq_some_iff {cs : List Char} (hcs : Text.trimChars cs = cs)
    {bound : Option Version} : bound? cs = some bound ↔ WritesBound cs bound := by
  unfold bound?
  constructor
  · intro h
    split at h
    · rename_i hcs
      rw [List.isEmpty_iff.1 hcs, ← Option.some.inj h]
      exact .missing
    · obtain ⟨v, hv, rfl⟩ := Option.map_eq_some_iff.1 h
      cases hparse : Version.parse (String.ofList cs) with
      | error e => rw [hparse] at hv; cases hv
      | ok w =>
        rw [hparse] at hv
        rw [← Option.some.inj hv]
        exact .given ((parse_ofList_eq_ok_iff hcs).1 hparse)
  · intro h
    cases h with
    | missing => rfl
    | given hv =>
      rw [if_neg (by simpa using hv.ne_nil), (parse_ofList_eq_ok_iff hcs).2 hv]
      rfl

/-! ## Reading -/

theorem ofBounds_eq_ok_iff {low high : Option Version} {r : VersionRange} :
    ofBounds low high = .ok r ↔ r = { low, high } ∧
      ∀ l h, low = some l → high = some h → l.compareLoose h ≠ .gt := by
  unfold ofBounds
  split
  · rename_i l h
    split
    · rename_i hgt
      exact ⟨nofun, fun hr => absurd hgt (hr.2 l h rfl rfl)⟩
    · rename_i hle
      rw [Except.ok.injEq, eq_comm, iff_self_and]
      rintro - _ _ ⟨⟩ ⟨⟩
      exact hle
  · rename_i hopen
    rw [Except.ok.injEq, eq_comm, iff_self_and]
    rintro - l h rfl rfl
    exact absurd rfl (hopen l h rfl)

theorem ofBounds_eq_error_iff {low high : Option Version} {e : RangeError} :
    ofBounds low high = .error e ↔ ∃ l h, low = some l ∧ high = some h ∧
      l.compareLoose h = .gt ∧ e = .inverted l h := by
  unfold ofBounds
  split
  · rename_i l h
    split
    · rename_i hgt
      rw [Except.error.injEq, eq_comm]
      constructor
      · intro he
        exact ⟨l, h, rfl, rfl, hgt, he⟩
      · rintro ⟨_, _, ⟨⟩, ⟨⟩, -, he⟩
        exact he
    · rename_i hle
      constructor
      · nofun
      · rintro ⟨_, _, ⟨⟩, ⟨⟩, hgt, -⟩
        exact absurd hgt hle
  · rename_i hopen
    constructor
    · nofun
    · rintro ⟨l, h, rfl, rfl, -⟩
      exact absurd rfl (hopen l h rfl)

/-- A text of the right shape is read as its bounds, if these are in order. -/
theorem parse_of_writes {s : String} {low high : Option Version}
    (h : Writes (Text.trimChars s.toList) low high) : parse s = ofBounds low high := by
  unfold parse
  have htrim := Text.trimChars_trimChars s.toList
  generalize Text.trimChars s.toList = cs at h htrim ⊢
  cases h with
  | single hdash hv =>
    rename_i v
    have hbounds : ofBounds (some v) (some v) = .ok { low := some v, high := some v } := by
      refine ofBounds_eq_ok_iff.2 ⟨rfl, ?_⟩
      rintro _ _ ⟨⟩ ⟨⟩
      exact Version.atMost_refl v
    simp only [Text.splitFirst_eq_none_iff.2 hdash, (parse_ofList_eq_ok_iff htrim).2 hv, hbounds]
  | bounds hdash hlow hhigh hgiven =>
    simp only [Text.splitFirst_append_cons hdash,
      (bound?_eq_some_iff (Text.trimChars_trimChars _)).2 hlow,
      (bound?_eq_some_iff (Text.trimChars_trimChars _)).2 hhigh]
    split
    · rename_i hnone hnone'
      exact absurd ⟨Option.some.inj hnone, Option.some.inj hnone'⟩ hgiven
    · rename_i he he'
      rw [Option.some.inj he, Option.some.inj he']
    · rename_i hother
      exact absurd rfl (hother _ _ rfl)

/-- A text of another shape is refused as it stands. -/
theorem parse_of_not_writes {s : String}
    (h : ∀ low high, ¬ Writes (Text.trimChars s.toList) low high) :
    parse s = .error (.malformed s) := by
  unfold parse
  have htrim := Text.trimChars_trimChars s.toList
  generalize Text.trimChars s.toList = cs at h htrim ⊢
  simp only
  split
  · rename_i hcut
    split
    · rename_i v hv
      exact absurd (.single (Text.splitFirst_eq_none_iff.1 hcut)
        ((parse_ofList_eq_ok_iff htrim).1 hv)) (h _ _)
    · rfl
  · rename_i before after hcut
    obtain ⟨rfl, hdash⟩ := Text.eq_append_of_splitFirst hcut
    split
    · rfl
    · rename_i low high hgiven hlow hhigh
      refine absurd (.bounds hdash ((bound?_eq_some_iff (Text.trimChars_trimChars _)).1 hlow)
        ((bound?_eq_some_iff (Text.trimChars_trimChars _)).1 hhigh) ?_) (h _ _)
      rintro ⟨hlow, hhigh⟩
      exact hgiven hlow hhigh
    · rfl

theorem parse_eq_ok_iff {s : String} {r : VersionRange} :
    parse s = .ok r ↔ Writes (Text.trimChars s.toList) r.low r.high ∧
      ∀ l h, r.low = some l → r.high = some h → l.compareLoose h ≠ .gt := by
  constructor
  · intro hr
    by_cases hshape : ∃ low high, Writes (Text.trimChars s.toList) low high
    · obtain ⟨low, high, hw⟩ := hshape
      rw [parse_of_writes hw] at hr
      obtain ⟨rfl, horder⟩ := ofBounds_eq_ok_iff.1 hr
      exact ⟨hw, horder⟩
    · rw [parse_of_not_writes (by simpa using hshape)] at hr
      cases hr
  · rintro ⟨hw, horder⟩
    rw [parse_of_writes hw]
    exact ofBounds_eq_ok_iff.2 ⟨rfl, horder⟩

theorem parse_eq_error_iff {s : String} {e : RangeError} :
    parse s = .error e ↔
      (∀ low high, ¬ Writes (Text.trimChars s.toList) low high) ∧ e = .malformed s ∨
      ∃ l h, Writes (Text.trimChars s.toList) (some l) (some h) ∧ l.compareLoose h = .gt ∧
        e = .inverted l h := by
  constructor
  · intro he
    by_cases hshape : ∃ low high, Writes (Text.trimChars s.toList) low high
    · obtain ⟨low, high, hw⟩ := hshape
      rw [parse_of_writes hw] at he
      obtain ⟨l, h, rfl, rfl, hgt, rfl⟩ := ofBounds_eq_error_iff.1 he
      exact Or.inr ⟨l, h, hw, hgt, rfl⟩
    · have hnone : ∀ low high, ¬ Writes (Text.trimChars s.toList) low high := by
        simpa using hshape
      rw [parse_of_not_writes hnone] at he
      exact Or.inl ⟨hnone, (Except.error.inj he).symm⟩
  · rintro (⟨hnone, rfl⟩ | ⟨l, h, hw, hgt, rfl⟩)
    · exact parse_of_not_writes hnone
    · rw [parse_of_writes hw]
      exact ofBounds_eq_error_iff.2 ⟨l, h, rfl, rfl, hgt, rfl⟩

/-- A text is read iff, without the blanks around it, it has the shape of a range and its bounds
are in order; the range has these bounds. Of the other texts, those with the bounds the wrong way
round are refused with the bounds, and those of another shape as they stand. -/
theorem parse_iff_writes (s : String) :
    (∀ r, parse s = .ok r ↔ Writes (Text.trimChars s.toList) r.low r.high ∧
      ∀ l h, r.low = some l → r.high = some h → l.compareLoose h ≠ .gt) ∧
    ∀ e, parse s = .error e ↔
      (∀ low high, ¬ Writes (Text.trimChars s.toList) low high) ∧ e = .malformed s ∧
        e.message = "Invalid testVersion setting: '" ++ s ++ "'" ∨
      ∃ l h, Writes (Text.trimChars s.toList) (some l) (some h) ∧ l.compareLoose h = .gt ∧
        e = .inverted l h ∧
        e.message = "Invalid range in testVersion setting: '" ++ l.text ++ "-" ++ h.text ++ "'" := by
  refine ⟨fun r => parse_eq_ok_iff, fun e => ?_⟩
  rw [parse_eq_error_iff]
  constructor
  · rintro (⟨hnone, rfl⟩ | ⟨l, h, hw, hgt, rfl⟩)
    · exact Or.inl ⟨hnone, rfl, rfl⟩
    · exact Or.inr ⟨l, h, hw, hgt, rfl, rfl⟩
  · rintro (⟨hnone, he, -⟩ | ⟨l, h, hw, hgt, he, -⟩)
    · exact Or.inl ⟨hnone, he⟩
    · exact Or.inr ⟨l, h, hw, hgt, he⟩

/-! ## Writing -/

/-- The text of a range has the shape of the range. -/
theorem writes_text {r : VersionRange} (h : r.isAll = false) :
    Writes (Text.trimChars r.text.toList) r.low r.high := by
  have hdash (v : Version) : '-' ∉ v.text.toList := v.spells_text.not_mem rfl (by decide)
  have hblank (v : Version) : ∀ c ∈ v.text.toList, Text.isBlank c = false :=
    v.spells_text.not_blank
  have hbound (v : Version) : WritesBound (Text.trimChars v.text.toList) (some v) := by
    rw [Text.trimChars_eq_self (hblank v)]
    exact .given v.spells_text
  -- neither the bounds nor the dash are blank, so nothing is trimmed
  have htrim {a b : List Char} (ha : ∀ c ∈ a, Text.isBlank c = false)
      (hb : ∀ c ∈ b, Text.isBlank c = false) :
      Text.trimChars (a ++ '-' :: b) = a ++ '-' :: b := by
    apply Text.trimChars_eq_self
    intro c hc
    rcases List.mem_append.1 hc with hc | hc
    · exact ha c hc
    · rcases List.mem_cons.1 hc with rfl | hc
      · rfl
      · exact hb c hc
  obtain ⟨low, high⟩ := r
  cases low with
  | none =>
    cases high with
    | none => cases h
    | some v =>
      have htext : (text ⟨none, some v⟩).toList = [] ++ '-' :: v.text.toList := by simp [text]
      rw [htext, htrim (by simp) (hblank v)]
      exact .bounds List.not_mem_nil .missing (hbound v) nofun
  | some l =>
    cases high with
    | none =>
      have htext : (text ⟨some l, none⟩).toList = l.text.toList ++ '-' :: [] := by simp [text]
      rw [htext, htrim (hblank l) (by simp)]
      exact .bounds (hdash l) (hbound l) .missing nofun
    | some v =>
      have hsame := l.level_and_patch_iff v
      by_cases he : l = v
      · have htext : text ⟨some l, some v⟩ = l.text := if_pos (hsame.2 he)
        rw [htext, ← he, Text.trimChars_eq_self (hblank l)]
        exact .single (hdash l) l.spells_text
      · have htext : text ⟨some l, some v⟩ = l.text ++ "-" ++ v.text :=
          if_neg fun h => he (hsame.1 h)
        have hchars : (text ⟨some l, some v⟩).toList = l.text.toList ++ '-' :: v.text.toList := by
          simp [htext]
        rw [hchars, htrim (hblank l) (hblank v)]
        exact .bounds (hdash l) (hbound l) (hbound v) nofun

theorem Writes.isAll_eq_false {cs : List Char} {r : VersionRange}
    (h : Writes cs r.low r.high) : r.isAll = false := by
  obtain ⟨low, high⟩ := r
  cases h with
  | single => rfl
  | bounds hdash hlow hhigh hgiven =>
    rw [isAll, Bool.and_eq_false_iff]
    cases low with
    | some l => exact Or.inl rfl
    | none =>
      cases high with
      | some v => exact Or.inr rfl
      | none => exact absurd ⟨rfl, rfl⟩ hgiven

theorem parse_text_of_valid {r : VersionRange} (hr : r.Valid) (h : r.isAll = false) :
    parse r.text = .ok r :=
  (parse_of_writes (writes_text h)).trans hr

/-- Reading the text of a range gives the range back, with each bound as it was: a bound that gives
no patch is not confused with the bound at patch `0`. -/
theorem parse_text :
    (∀ low high r, ofBounds low high = .ok r → r.isAll = false → parse r.text = .ok r) ∧
    ∀ s r, parse s = .ok r → parse r.text = .ok r := by
  constructor
  · intro low high r hr h
    exact parse_text_of_valid (valid_of_ofBounds hr) h
  · intro s r hr
    obtain ⟨hw, horder⟩ := parse_eq_ok_iff.1 hr
    exact parse_text_of_valid (ofBounds_eq_ok_iff.2 ⟨rfl, horder⟩) hw.isAll_eq_false

/-- The bounds `5.3` and `5.3.0` are level, and both come back as they were. -/
theorem parse_text_level :
    let r : VersionRange := { low := some ⟨5, 3, none⟩, high := some ⟨5, 3, some 0⟩ }
    ofBounds r.low r.high = .ok r ∧ r.isAll = false ∧ parse r.text = .ok r ∧
      parse " 05.3 - 5.3.0" = .ok r ∧ r.text = "5.3-5.3.0" := by
  intro r
  have hbounds : ofBounds r.low r.high = .ok r := by decide
  have hparse : parse " 05.3 - 5.3.0" = .ok r := by decide
  exact ⟨hbounds, by decide, parse_text.1 _ _ r hbounds (by decide), hparse, by decide⟩

end VersionRange

end Vintage
