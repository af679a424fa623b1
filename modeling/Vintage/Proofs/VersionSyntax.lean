import Mathlib.Data.List.Induction
import Mathlib.Data.Nat.Digits.Defs
import Vintage.Version

/-!
# How versions are written

A version is written as two or three decimal numbers with dots between them. Each number is a run
of the digits `0` to `9`, may have leading zeros, and is below 65536.

Results:
* `Text.natural?_eq_some_iff`: the value of a run of digits is its value in base ten.
* `Version.ofChars?_eq_some_iff`: exactly the written versions are read, each as itself.
* `Version.spells_text`: the text of a version writes that version.
-/

namespace Vintage

namespace Text

/-! ## Decimal numbers -/

/-- `cs` writes `n` in base ten: one or more of the digits `0` to `9`, leading zeros allowed. -/
structure Writes (cs : List Char) (n : Nat) : Prop where
  nonempty : cs ≠ []
  digits : ∀ c ∈ cs, c.isDigit = true
  value : Nat.ofDigits 10 (cs.reverse.map fun c => c.toNat - '0'.toNat) = n

/-- Taking digits in from the left gives the number that they are the digits of. -/
theorem ofDigitChars_eq_ofDigits (cs : List Char) :
    Nat.ofDigitChars 10 cs 0 = Nat.ofDigits 10 (cs.reverse.map fun c => c.toNat - '0'.toNat) := by
  -- on the last digit, the one that the value has at its lowest place
  induction cs using List.reverseRecOn with
  | nil => rfl
  | append_singleton cs c ih =>
    rw [Nat.ofDigitChars_append, ih, Nat.ofDigitChars_cons, Nat.ofDigitChars_nil,
      List.reverse_append, List.reverse_singleton, List.singleton_append, List.map_cons,
      Nat.ofDigits_cons, Nat.add_comm]

theorem natural?_eq_some_iff {cs : List Char} {n : Nat} :
    natural? cs = some n ↔ Writes cs n := by
  have hvalue := ofDigitChars_eq_ofDigits cs
  rw [Nat.ofDigitChars_eq_foldl] at hvalue
  unfold natural?
  constructor
  · intro h
    split at h
    · cases h
    · rename_i hcs
      simp only [Bool.or_eq_true, List.isEmpty_iff, Bool.not_eq_true', not_or,
        Bool.not_eq_false, List.all_eq_true] at hcs
      exact ⟨hcs.1, hcs.2, hvalue.symm.trans (Option.some.inj h)⟩
  · rintro ⟨hne, hdigits, hn⟩
    have hall : cs.all Char.isDigit = true := List.all_eq_true.2 hdigits
    rw [if_neg (by simp [hne, hall]), hvalue, hn]

theorem writes_toDigits (n : Nat) : Writes (Nat.toDigits 10 n) n where
  nonempty := Nat.toDigits_ne_nil
  digits _ hc := Nat.isDigit_of_mem_toDigits (by decide) (by decide) hc
  value := by rw [← ofDigitChars_eq_ofDigits, Nat.ofDigitChars_ten_toDigits]

theorem Writes.not_mem {cs : List Char} {n : Nat} (h : Writes cs n) {c : Char}
    (hc : c.isDigit = false) : c ∉ cs := by
  intro hmem
  have hdigit := h.digits c hmem
  rw [hc] at hdigit
  cases hdigit

theorem isBlank_eq_false_of_isDigit {c : Char} (h : c.isDigit = true) : isBlank c = false := by
  simp only [Char.isDigit, Bool.and_eq_true, decide_eq_true_eq, UInt32.le_iff_toNat_le,
    Char.reduceVal, UInt32.reduceToNat] at h
  simp only [isBlank, Bool.or_eq_false_iff, Bool.and_eq_false_iff, decide_eq_false_iff_not,
    Char.le_def, UInt32.le_iff_toNat_le, beq_eq_false_iff_ne, ne_eq, Char.ext_iff,
    ← UInt32.toNat_inj, Char.reduceVal, UInt32.reduceToNat]
  omega

/-! ## Pieces between separators -/

theorem splitOn_eq_splitOnP (sep : Char → Bool) (cs : List Char) :
    splitOn sep cs = cs.splitOnP sep := by
  induction cs with
  | nil => rfl
  | cons c cs ih =>
    rw [splitOn, List.splitOnP_cons_eq_if_modifyHead, ih]
    split
    · rfl
    · cases h : cs.splitOnP sep with
      | nil => exact absurd h (List.splitOnP_ne_nil sep cs)
      | cons piece pieces => rfl

end Text

namespace Version

/-! ## Versions -/

/-- `cs` writes the version: its components in base ten, with dots between them. -/
inductive Spells : List Char → Version → Prop
  | bare {a b : List Char} {major minor : UInt16} (ha : Text.Writes a major.toNat)
      (hb : Text.Writes b minor.toNat) : Spells (a ++ '.' :: b) { major, minor }
  | patched {a b c : List Char} {major minor patch : UInt16} (ha : Text.Writes a major.toNat)
      (hb : Text.Writes b minor.toNat) (hc : Text.Writes c patch.toNat) :
      Spells (a ++ '.' :: (b ++ '.' :: c)) { major, minor, patch := some patch }

theorem component?_eq_some_iff {cs : List Char} {n : UInt16} :
    component? cs = some n ↔ Text.Writes cs n.toNat := by
  unfold component?
  rw [← Text.natural?_eq_some_iff]
  cases Text.natural? cs with
  | none => simp
  | some k =>
    have hn := n.toNat_lt
    simp only [Option.some.injEq]
    split
    · rename_i hk
      rw [Option.some.injEq, ← UInt16.toNat_inj, UInt16.toNat_ofNat_of_lt' hk]
    · constructor
      · nofun
      · intro h
        omega

/-- Reading accepts exactly the written versions. -/
theorem ofChars?_eq_some_iff {cs : List Char} {v : Version} :
    ofChars? cs = some v ↔ Spells cs v := by
  unfold ofChars?
  rw [Text.splitOn_eq_splitOnP, ← List.splitOn_eq_splitOnP]
  constructor
  · intro h
    -- the pieces joined with dots are the text again
    have hjoin : ['.'].intercalate (cs.splitOn '.') = cs := List.intercalate_splitOn '.'
    split at h
    · rename_i a b hsplit
      have hcs : a ++ '.' :: b = cs := by simpa [hsplit] using hjoin
      cases ha : component? a <;> cases hb : component? b <;> rw [ha, hb] at h <;> cases h
      rw [← hcs]
      exact .bare (component?_eq_some_iff.1 ha) (component?_eq_some_iff.1 hb)
    · rename_i a b c hsplit
      have hcs : a ++ '.' :: (b ++ '.' :: c) = cs := by simpa [hsplit] using hjoin
      cases ha : component? a <;> cases hb : component? b <;> cases hc : component? c <;>
        rw [ha, hb, hc] at h <;> cases h
      rw [← hcs]
      exact .patched (component?_eq_some_iff.1 ha) (component?_eq_some_iff.1 hb)
        (component?_eq_some_iff.1 hc)
    · cases h
  · -- a run of digits has no dot, so the pieces are the components
    have hdot : ('.' : Char).isDigit = false := rfl
    rintro (⟨ha, hb⟩ | ⟨ha, hb, hc⟩)
    · rename_i a b _ _
      have hsplit : (['.'].intercalate [a, b]).splitOn '.' = [a, b] :=
        List.splitOn_intercalate '.' (by simp [ha.not_mem hdot, hb.not_mem hdot]) (by simp)
      rw [show a ++ '.' :: b = ['.'].intercalate [a, b] by simp, hsplit]
      simp only [component?_eq_some_iff.2 ha, component?_eq_some_iff.2 hb]
    · rename_i a b c _ _ _
      have hsplit : (['.'].intercalate [a, b, c]).splitOn '.' = [a, b, c] :=
        List.splitOn_intercalate '.' (by simp [ha.not_mem hdot, hb.not_mem hdot, hc.not_mem hdot])
          (by simp)
      rw [show a ++ '.' :: (b ++ '.' :: c) = ['.'].intercalate [a, b, c] by simp, hsplit]
      simp only [component?_eq_some_iff.2 ha, component?_eq_some_iff.2 hb,
        component?_eq_some_iff.2 hc]

/-- The text of a version writes that version. -/
theorem spells_text (v : Version) : Spells v.text.toList v := by
  obtain ⟨major, minor, patch⟩ := v
  cases patch with
  | none =>
    have h : (Version.text ⟨major, minor, none⟩).toList =
        Nat.toDigits 10 major.toNat ++ '.' :: Nat.toDigits 10 minor.toNat := by
      simp [text, Nat.toList_repr]
    rw [h]
    exact .bare (Text.writes_toDigits _) (Text.writes_toDigits _)
  | some p =>
    have h : (Version.text ⟨major, minor, some p⟩).toList =
        Nat.toDigits 10 major.toNat ++
          '.' :: (Nat.toDigits 10 minor.toNat ++ '.' :: Nat.toDigits 10 p.toNat) := by
      simp [text, Nat.toList_repr]
    rw [h]
    exact .patched (Text.writes_toDigits _) (Text.writes_toDigits _) (Text.writes_toDigits _)

/-- A written version is made of digits and dots. -/
theorem Spells.digit_or_dot {cs : List Char} {v : Version} (h : Spells cs v) :
    ∀ c ∈ cs, c.isDigit = true ∨ c = '.' := by
  intro c hc
  cases h with
  | bare ha hb =>
    rcases List.mem_append.1 hc with hc | hc
    · exact Or.inl (ha.digits c hc)
    · rcases List.mem_cons.1 hc with rfl | hc
      · exact Or.inr rfl
      · exact Or.inl (hb.digits c hc)
  | patched ha hb hp =>
    rcases List.mem_append.1 hc with hc | hc
    · exact Or.inl (ha.digits c hc)
    · rcases List.mem_cons.1 hc with rfl | hc
      · exact Or.inr rfl
      · rcases List.mem_append.1 hc with hc | hc
        · exact Or.inl (hb.digits c hc)
        · rcases List.mem_cons.1 hc with rfl | hc
          · exact Or.inr rfl
          · exact Or.inl (hp.digits c hc)

theorem Spells.not_mem {cs : List Char} {v : Version} (h : Spells cs v) {c : Char}
    (hdigit : c.isDigit = false) (hdot : c ≠ '.') : c ∉ cs := by
  intro hc
  rcases h.digit_or_dot c hc with hd | rfl
  · rw [hdigit] at hd
    cases hd
  · exact hdot rfl

theorem Spells.not_blank {cs : List Char} {v : Version} (h : Spells cs v) :
    ∀ c ∈ cs, Text.isBlank c = false := by
  intro c hc
  rcases h.digit_or_dot c hc with hd | rfl
  · exact Text.isBlank_eq_false_of_isDigit hd
  · rfl

theorem Spells.ne_nil {cs : List Char} {v : Version} (h : Spells cs v) : cs ≠ [] := by
  cases h <;> simp

end Version

end Vintage
