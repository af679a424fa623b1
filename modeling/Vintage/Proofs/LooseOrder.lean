import Vintage.VersionRange

/-!
# The loose order and what a range reaches

The loose order is not transitive: `7.0.5` is level with `7.0`, which is level with `7.0.1`. It is
transitive through a version that gives its patch. Such versions are the ones that a range is made
of, so what a range reaches can be said by its members.

Results:
* `AtMost.trans_patched`: transitivity of the loose order through a patched version.
* `reachesDown_iff`, `reachesUp_iff`: a valid range reaches down (up) to `v` iff it has a patched
  version loosely at or before (at or after) `v`.
* `Within.reachesDown`, `Within.reachesUp`: a wider range reaches at least as far.
-/

namespace Vintage

namespace Version

/-- `v` stands loosely at or before `w`. -/
def AtMost (v w : Version) : Prop := v.compareLoose w ≠ .gt

/-- The version gives its patch. -/
def IsPatched (v : Version) : Prop := v.patch.isSome = true

/-- The loose order by components: the patches are compared if both are there. -/
theorem atMost_iff (v w : Version) :
    v.AtMost w ↔ v.major.toNat < w.major.toNat ∨ v.major.toNat = w.major.toNat ∧
      (v.minor.toNat < w.minor.toNat ∨ v.minor.toNat = w.minor.toNat ∧
        ∀ p q, v.patch = some p → w.patch = some q → p.toNat ≤ q.toNat) := by
  unfold AtMost compareLoose
  rw [Ne, Ordering.then_eq_gt, Ordering.then_eq_gt, Nat.compare_eq_gt, Nat.compare_eq_gt,
    Nat.compare_eq_eq, Nat.compare_eq_eq]
  cases hv : v.patch with
  | none => simp; omega
  | some p =>
    cases hw : w.patch with
    | none => simp; omega
    | some q => simp [Nat.compare_eq_gt]; omega

theorem atMost_refl (v : Version) : v.AtMost v := by
  rw [atMost_iff]
  refine Or.inr ⟨rfl, Or.inr ⟨rfl, ?_⟩⟩
  intro p q hp hq
  exact Nat.le_of_eq (congrArg UInt16.toNat (Option.some.inj (hp.symm.trans hq)))

/-- The loose comparison the other way round. -/
theorem compareLoose_swap (v w : Version) : (v.compareLoose w).swap = w.compareLoose v := by
  unfold compareLoose
  rw [Ordering.swap_then, Ordering.swap_then, Nat.compare_swap, Nat.compare_swap]
  cases hv : v.patch with
  | none => cases w.patch <;> rfl
  | some p =>
    cases hw : w.patch with
    | none => rfl
    | some q => simp only [Nat.compare_swap]

theorem compareLoose_ne_lt_iff (v w : Version) : v.compareLoose w ≠ .lt ↔ w.AtMost v := by
  rw [AtMost, ← compareLoose_swap v w]
  cases v.compareLoose w <;> decide

/-- The loose order is transitive through a version that gives its patch. -/
theorem AtMost.trans_patched {u w v : Version} (huw : u.AtMost w) (hwv : w.AtMost v)
    (hw : w.IsPatched) : u.AtMost v := by
  rw [atMost_iff] at huw hwv ⊢
  obtain ⟨m, hm⟩ := Option.isSome_iff_exists.1 hw
  have hpatch : (∀ p q, u.patch = some p → w.patch = some q → p.toNat ≤ q.toNat) →
      (∀ p q, w.patch = some p → v.patch = some q → p.toNat ≤ q.toNat) →
      ∀ p q, u.patch = some p → v.patch = some q → p.toNat ≤ q.toNat := by
    intro h₁ h₂ p q hp hq
    exact Nat.le_trans (h₁ p m hp hm) (h₂ m q hm hq)
  rcases huw with h | ⟨h, h' | ⟨h', hp⟩⟩
  · left; omega
  · rcases hwv with k | ⟨k, k' | ⟨k', -⟩⟩
    · left; omega
    · exact Or.inr ⟨by omega, Or.inl (by omega)⟩
    · exact Or.inr ⟨by omega, Or.inl (by omega)⟩
  · rcases hwv with k | ⟨k, k' | ⟨k', kp⟩⟩
    · left; omega
    · exact Or.inr ⟨by omega, Or.inl (by omega)⟩
    · exact Or.inr ⟨by omega, Or.inr ⟨by omega, hpatch hp kp⟩⟩

/-! ## The first and the last patch of a version -/

/-- The version with its patch, `p` if it gives none. -/
def withPatch (p : UInt16) (v : Version) : Version := { v with patch := some (v.patch.getD p) }

theorem withPatch_isPatched (p : UInt16) (v : Version) : (v.withPatch p).IsPatched := rfl

theorem atMost_withPatch (p : UInt16) (v : Version) : v.AtMost (v.withPatch p) := by
  rw [atMost_iff]
  refine Or.inr ⟨rfl, Or.inr ⟨rfl, ?_⟩⟩
  intro a b ha hb
  rw [withPatch, ha, Option.getD_some, Option.some.injEq] at hb
  exact Nat.le_of_eq (congrArg UInt16.toNat hb)

theorem withPatch_atMost (p : UInt16) (v : Version) : (v.withPatch p).AtMost v := by
  rw [atMost_iff]
  refine Or.inr ⟨rfl, Or.inr ⟨rfl, ?_⟩⟩
  intro a b ha hb
  rw [withPatch, hb, Option.getD_some, Option.some.injEq] at ha
  exact Nat.le_of_eq (congrArg UInt16.toNat ha.symm)

/-- Below what a version is below, there is its first patch. -/
theorem AtMost.first_patch {v w : Version} (h : v.AtMost w) : (v.withPatch 0).AtMost w := by
  rw [atMost_iff] at h ⊢
  rcases h with h | ⟨h, h' | ⟨h', hp⟩⟩
  · exact Or.inl h
  · exact Or.inr ⟨h, Or.inl h'⟩
  · refine Or.inr ⟨h, Or.inr ⟨h', ?_⟩⟩
    intro p q hp' hq
    cases hv : v.patch with
    | none =>
      rw [withPatch, hv, Option.getD_none, Option.some.injEq] at hp'
      rw [← hp']
      exact Nat.zero_le _
    | some a =>
      rw [withPatch, hv, Option.getD_some, Option.some.injEq] at hp'
      rw [← hp']
      exact hp a q hv hq

/-- Above what a version is above, there is its last patch. -/
theorem AtMost.last_patch {v w : Version} (h : v.AtMost w) : v.AtMost (w.withPatch 65535) := by
  rw [atMost_iff] at h ⊢
  rcases h with h | ⟨h, h' | ⟨h', hp⟩⟩
  · exact Or.inl h
  · exact Or.inr ⟨h, Or.inl h'⟩
  · refine Or.inr ⟨h, Or.inr ⟨h', ?_⟩⟩
    intro p q hp' hq
    cases hw : w.patch with
    | none =>
      rw [withPatch, hw, Option.getD_none, Option.some.injEq] at hq
      rw [← hq]
      have hlt := p.toNat_lt
      show p.toNat ≤ 65535
      omega
    | some b =>
      rw [withPatch, hw, Option.getD_some, Option.some.injEq] at hq
      rw [← hq]
      exact hp p b hp' hw

/-- The first of all versions. -/
def first : Version := { major := 0, minor := 0, patch := some 0 }

/-- The last of all versions. -/
def last : Version := { major := 65535, minor := 65535, patch := some 65535 }

theorem first_atMost (v : Version) : first.AtMost v := by
  rw [atMost_iff]
  have h₁ : first.major.toNat = 0 := rfl
  have h₂ : first.minor.toNat = 0 := rfl
  rw [h₁, h₂]
  by_cases hmajor : 0 < v.major.toNat
  · exact Or.inl hmajor
  · refine Or.inr ⟨by omega, ?_⟩
    by_cases hminor : 0 < v.minor.toNat
    · exact Or.inl hminor
    · refine Or.inr ⟨by omega, ?_⟩
      intro p q hp _
      rw [← Option.some.inj hp]
      exact Nat.zero_le _

theorem atMost_last (v : Version) : v.AtMost last := by
  rw [atMost_iff]
  have h₁ : last.major.toNat = 65535 := rfl
  have h₂ : last.minor.toNat = 65535 := rfl
  have hmajor := v.major.toNat_lt
  have hminor := v.minor.toNat_lt
  rw [h₁, h₂]
  by_cases h : v.major.toNat < 65535
  · exact Or.inl h
  · refine Or.inr ⟨by omega, ?_⟩
    by_cases h' : v.minor.toNat < 65535
    · exact Or.inl h'
    · refine Or.inr ⟨by omega, ?_⟩
      intro p q _ hq
      rw [← Option.some.inj hq]
      have hp := p.toNat_lt
      show p.toNat ≤ 65535
      omega

end Version

namespace VersionRange

open Version

/-! ## Ranges by their members -/

/-- The bounds are not the wrong way round: `ofBounds` accepts them. -/
def Valid (r : VersionRange) : Prop := ofBounds r.low r.high = .ok r

theorem Valid.low_atMost_high {r : VersionRange} (hr : r.Valid) {l h : Version}
    (hl : r.low = some l) (hh : r.high = some h) : l.AtMost h := by
  intro hgt
  rw [Valid, hl, hh, ofBounds] at hr
  simp [hgt] at hr

/-- Whatever `ofBounds` accepts is valid. -/
theorem valid_of_ofBounds {low high : Option Version} {r : VersionRange}
    (h : ofBounds low high = .ok r) : r.Valid := by
  have hr : r = { low, high } := by
    unfold ofBounds at h
    split at h
    · split at h
      · cases h
      · exact (Except.ok.inj h).symm
    · exact (Except.ok.inj h).symm
  rw [hr] at h ⊢
  exact h

theorem reachesDown_iff_low (r : VersionRange) (v : Version) :
    r.reachesDown v = true ↔ ∀ l, r.low = some l → l.AtMost v := by
  unfold reachesDown
  cases r.low with
  | none => simp
  | some l => simp [AtMost]

theorem reachesUp_iff_high (r : VersionRange) (v : Version) :
    r.reachesUp v = true ↔ ∀ h, r.high = some h → v.AtMost h := by
  unfold reachesUp
  cases r.high with
  | none => simp
  | some h => simp [← compareLoose_ne_lt_iff]

theorem contains_iff (r : VersionRange) (v : Version) :
    r.contains v = true ↔ r.reachesDown v = true ∧ r.reachesUp v = true := by
  rw [← Bool.and_eq_true]
  unfold contains reachesDown reachesUp
  cases r.low <;> cases r.high <;> rfl

/-- A valid range reaches down to `v` iff it has a patched version loosely at or before `v`. -/
theorem reachesDown_iff {r : VersionRange} (hr : r.Valid) (v : Version) :
    r.reachesDown v = true ↔ ∃ w, w.IsPatched ∧ r.contains w = true ∧ w.AtMost v := by
  constructor
  · intro h
    rw [reachesDown_iff_low] at h
    cases hlow : r.low with
    | none =>
      refine ⟨first, rfl, ?_, first_atMost v⟩
      rw [contains_iff, reachesDown_iff_low, reachesUp_iff_high]
      exact ⟨by simp [hlow], fun k _ => first_atMost k⟩
    | some l =>
      refine ⟨l.withPatch 0, withPatch_isPatched 0 l, ?_, (h l hlow).first_patch⟩
      rw [contains_iff, reachesDown_iff_low, reachesUp_iff_high]
      refine ⟨?_, fun k hk => (hr.low_atMost_high hlow hk).first_patch⟩
      intro k hk
      rw [← Option.some.inj (hlow.symm.trans hk)]
      exact atMost_withPatch 0 l
  · rintro ⟨w, hw, hc, hwv⟩
    rw [contains_iff, reachesDown_iff_low] at hc
    rw [reachesDown_iff_low]
    intro l hl
    exact (hc.1 l hl).trans_patched hwv hw

/-- A valid range reaches up to `v` iff it has a patched version loosely at or after `v`. -/
theorem reachesUp_iff {r : VersionRange} (hr : r.Valid) (v : Version) :
    r.reachesUp v = true ↔ ∃ w, w.IsPatched ∧ r.contains w = true ∧ v.AtMost w := by
  constructor
  · intro h
    rw [reachesUp_iff_high] at h
    cases hhigh : r.high with
    | none =>
      refine ⟨last, rfl, ?_, atMost_last v⟩
      rw [contains_iff, reachesDown_iff_low, reachesUp_iff_high]
      exact ⟨fun k _ => atMost_last k, by simp [hhigh]⟩
    | some k =>
      refine ⟨k.withPatch 65535, withPatch_isPatched 65535 k, ?_, (h k hhigh).last_patch⟩
      rw [contains_iff, reachesDown_iff_low, reachesUp_iff_high]
      refine ⟨fun l hl => (hr.low_atMost_high hl hhigh).last_patch, ?_⟩
      intro j hj
      rw [← Option.some.inj (hhigh.symm.trans hj)]
      exact withPatch_atMost 65535 k
  · rintro ⟨w, hw, hc, hvw⟩
    rw [contains_iff, reachesUp_iff_high] at hc
    rw [reachesUp_iff_high]
    intro k hk
    exact hvw.trans_patched (hc.2 k hk) hw

/-! ## Inclusion -/

/-- Every patched version of `r` is in `s`. -/
def Within (r s : VersionRange) : Prop :=
  ∀ w : Version, w.IsPatched → r.contains w = true → s.contains w = true

theorem Within.reachesDown {r s : VersionRange} (h : r.Within s) (hr : r.Valid) {v : Version}
    (hv : r.reachesDown v = true) : s.reachesDown v = true := by
  obtain ⟨w, hw, hc, hwv⟩ := (reachesDown_iff hr v).1 hv
  have hs := (contains_iff s w).1 (h w hw hc)
  rw [reachesDown_iff_low] at hs ⊢
  intro l hl
  exact (hs.1 l hl).trans_patched hwv hw

theorem Within.reachesUp {r s : VersionRange} (h : r.Within s) (hr : r.Valid) {v : Version}
    (hv : r.reachesUp v = true) : s.reachesUp v = true := by
  obtain ⟨w, hw, hc, hvw⟩ := (reachesUp_iff hr v).1 hv
  have hs := (contains_iff s w).1 (h w hw hc)
  rw [reachesUp_iff_high] at hs ⊢
  intro k hk
  exact hvw.trans_patched (hs.2 k hk) hw

end VersionRange

end Vintage
