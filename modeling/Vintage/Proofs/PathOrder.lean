import Mathlib.Data.List.Perm.Basic
import Vintage.Collection

/-!
# Paths in order

Paths are ordered by their components. The order is total, and two paths are level if they have the
same components. A sorted list without repeats in a row is strictly ascending, so it says nothing
but which paths are in it.

Results:
* `Path.compare_eq_eq_iff`: paths that are level.
* `Collection.pairwise_sorted`, `Collection.mem_of_mem_sorted`, `Collection.exists_mem_sorted`: the
  paths in a sorted list.
* `Path.map_components_eq_of_pairwise`: strictly ascending lists with the same paths are the same.
-/

namespace Vintage

namespace Path

/-! ## The order of components -/

namespace Component

instance : Std.TransCmp Component.compare :=
  inferInstanceAs (Std.TransCmp (compareLex (compareOn rank) (compareOn text)))

theorem eq_of_rank_of_text {a b : Component} (hrank : a.rank = b.rank) (htext : a.text = b.text) :
    a = b := by
  cases a <;> cases b <;> first | rfl | exact congrArg normal htext | cases hrank

instance : Std.LawfulEqCmp Component.compare where
  eq_of_compare {a b} h := by
    obtain ⟨hrank, htext⟩ := Ordering.then_eq_eq.1 h
    exact eq_of_rank_of_text (Std.LawfulEqOrd.eq_of_compare hrank)
      (Std.LawfulEqOrd.eq_of_compare htext)

end Component

theorem compareComponents_eq (as bs : List Component) :
    compareComponents as bs = List.compareLex Component.compare as bs := by
  induction as generalizing bs with
  | nil => cases bs <;> rfl
  | cons a as ih =>
    cases bs with
    | nil => rfl
    | cons b bs => rw [compareComponents, List.compareLex_cons_cons, ih]

/-! ## The order of paths -/

theorem compare_eq (p q : Path) :
    p.compare q = List.compareLex Component.compare p.components q.components :=
  compareComponents_eq p.components q.components

instance : Std.TransCmp Path.compare where
  eq_swap {p q} := by
    rw [compare_eq, compare_eq]
    exact Std.OrientedCmp.eq_swap
  isLE_trans {p q r} hpq hqr := by
    rw [compare_eq] at *
    exact Std.TransCmp.isLE_trans hpq hqr

theorem compare_eq_eq_iff {p q : Path} : p.compare q = .eq ↔ p.components = q.components := by
  rw [compare_eq]
  exact Std.LawfulEqCmp.compare_eq_iff_eq

theorem compare_lt_of_isLE {p q : Path} (h : (p.compare q).isLE = true)
    (hne : p.components ≠ q.components) : p.compare q = .lt := by
  rw [Ne, ← compare_eq_eq_iff] at hne
  cases hpq : p.compare q with
  | lt => rfl
  | eq => exact absurd hpq hne
  | gt =>
    rw [hpq] at h
    cases h

/-- Strictly ascending lists with the same paths in them are the same, path by path. -/
theorem map_components_eq_of_pairwise {ps qs : List Path}
    (hps : ps.Pairwise fun p q => p.compare q = .lt) (hqs : qs.Pairwise fun p q => p.compare q = .lt)
    (h : ∀ c, c ∈ ps.map components ↔ c ∈ qs.map components) :
    ps.map components = qs.map components := by
  let lt (a b : List Component) : Prop := List.compareLex Component.compare a b = .lt
  have hmap {ps : List Path} (hps : ps.Pairwise fun p q => p.compare q = .lt) :
      (ps.map components).Pairwise lt := by
    refine List.pairwise_map.2 (hps.imp ?_)
    intro p q hpq
    rwa [compare_eq] at hpq
  have hnodup {ps : List Path} (hps : ps.Pairwise fun p q => p.compare q = .lt) :
      (ps.map components).Nodup := by
    refine (hmap hps).imp ?_
    rintro a b hab rfl
    exact Std.OrientedCmp.not_lt_of_lt hab hab
  refine List.Perm.eq_of_pairwise ?_ (hmap hps) (hmap hqs)
    ((List.perm_ext_iff_of_nodup (hnodup hps) (hnodup hqs)).2 h)
  intro a b _ _ hab hba
  exact absurd hba (Std.OrientedCmp.not_lt_of_lt hab)

end Path

namespace Collection

/-! ## Sorted lists -/

theorem dropRepeatsAfter_subset (last : Path) (ps : List Path) : dropRepeatsAfter last ps ⊆ ps := by
  induction ps generalizing last with
  | nil => exact List.Subset.refl _
  | cons p ps ih =>
    rw [dropRepeatsAfter]
    split
    · exact List.subset_cons_of_subset p (ih last)
    · exact List.cons_subset_cons p (ih p)

theorem pairwise_dropRepeatsAfter {last : Path} {ps : List Path}
    (h : (last :: ps).Pairwise fun p q => (p.compare q).isLE = true) :
    (last :: dropRepeatsAfter last ps).Pairwise fun p q => p.compare q = .lt := by
  induction ps generalizing last with
  | nil => exact List.pairwise_singleton _ _
  | cons p ps ih =>
    obtain ⟨hlast, hps⟩ := List.pairwise_cons.1 h
    rw [dropRepeatsAfter]
    split
    · exact ih (List.pairwise_cons.2 ⟨fun q hq => hlast q (List.mem_cons_of_mem p hq), hps.of_cons⟩)
    · rename_i hne
      have hlt := Path.compare_lt_of_isLE (hlast p List.mem_cons_self) (Ne.symm hne)
      have hrest := ih hps
      refine List.pairwise_cons.2 ⟨?_, hrest⟩
      intro q hq
      rcases List.mem_cons.1 hq with rfl | hq
      · exact hlt
      · exact Std.TransCmp.lt_trans hlt (List.rel_of_pairwise_cons hrest hq)

/-- A path that is dropped has the components of one that stays. -/
theorem exists_mem_dropRepeatsAfter {last : Path} {ps : List Path} {p : Path}
    (hp : p ∈ last :: ps) :
    ∃ q ∈ last :: dropRepeatsAfter last ps, q.components = p.components := by
  induction ps generalizing last with
  | nil => exact ⟨p, hp, rfl⟩
  | cons r ps ih =>
    rw [dropRepeatsAfter]
    split
    · rename_i hsame
      rcases List.mem_cons.1 hp with rfl | hp
      · exact ⟨p, List.mem_cons_self, rfl⟩
      · rcases List.mem_cons.1 hp with rfl | hp
        · exact ⟨last, List.mem_cons_self, hsame.symm⟩
        · exact ih (List.mem_cons_of_mem last hp)
    · rcases List.mem_cons.1 hp with rfl | hp
      · exact ⟨p, List.mem_cons_self, rfl⟩
      · obtain ⟨q, hq, hcomponents⟩ := ih hp
        exact ⟨q, List.mem_cons_of_mem last hq, hcomponents⟩

/-- A sorted list is what is left when repeats are dropped from the paths in ascending order. -/
theorem sorted_cases (ps : List Path) :
    ps = [] ∧ sorted ps = [] ∨
      ∃ first rest, ps.Perm (first :: rest) ∧ sorted ps = first :: dropRepeatsAfter first rest ∧
        (first :: rest).Pairwise fun p q => (p.compare q).isLE = true := by
  have hle (p q : Path) : (p.compare q != .gt) = (p.compare q).isLE := by
    cases p.compare q <;> rfl
  have hperm := List.mergeSort_perm ps fun p q => p.compare q != .gt
  have hsort : (ps.mergeSort fun p q => p.compare q != .gt).Pairwise
      fun p q => (p.compare q).isLE = true := by
    simp only [hle]
    refine List.pairwise_mergeSort ?_ ?_ ps
    · intro p q r hpq hqr
      exact Std.TransCmp.isLE_trans hpq hqr
    · intro p q
      rw [Bool.or_eq_true, ← Std.OrientedCmp.isGE_iff_isLE]
      cases q.compare p <;> decide
  unfold sorted
  cases hps : ps.mergeSort fun p q => p.compare q != .gt with
  | nil =>
    rw [hps] at hperm
    exact Or.inl ⟨List.nil_perm.1 hperm, rfl⟩
  | cons first rest =>
    rw [hps] at hperm hsort
    exact Or.inr ⟨first, rest, hperm.symm, rfl, hsort⟩

theorem pairwise_sorted (ps : List Path) :
    (sorted ps).Pairwise fun p q => p.compare q = .lt := by
  rcases sorted_cases ps with ⟨-, hsorted⟩ | ⟨first, rest, -, hsorted, hascending⟩
  · rw [hsorted]
    exact List.Pairwise.nil
  · rw [hsorted]
    exact pairwise_dropRepeatsAfter hascending

/-- Nothing is in the sorted list that was not there before. -/
theorem mem_of_mem_sorted {p : Path} {ps : List Path} (h : p ∈ sorted ps) : p ∈ ps := by
  rcases sorted_cases ps with ⟨-, hsorted⟩ | ⟨first, rest, hperm, hsorted, -⟩
  · rw [hsorted] at h
    cases h
  · rw [hsorted] at h
    exact hperm.mem_iff.2 (List.cons_subset_cons first (dropRepeatsAfter_subset first rest) h)

/-- Every path is in the sorted list, perhaps written differently. -/
theorem exists_mem_sorted {p : Path} {ps : List Path} (h : p ∈ ps) :
    ∃ q ∈ sorted ps, q.components = p.components := by
  rcases sorted_cases ps with ⟨rfl, -⟩ | ⟨first, rest, hperm, hsorted, -⟩
  · cases h
  · rw [hsorted]
    exact exists_mem_dropRepeatsAfter (hperm.mem_iff.1 h)

end Collection

end Vintage
