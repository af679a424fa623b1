import Mathlib.Data.List.Flatten
import Vintage.Proofs.FindingPlaces

/-!
# Reports of chosen rules

The rules that are chosen run one after the other, and what they find is brought into the order of
the text. Findings with the same key stay as the rules gave them, so a report of fewer rules is a
part of the report of more.

Results:
* `mergeSort_sublist`: sorting keeps parts of lists.
* `Rule.findAll_chosen`: what a report is made of, its order, and how it grows with the choice.
-/

namespace Vintage

/-! ## Sorting parts of a list -/

section Sorting

variable {α : Type} {le : α → α → Bool} (htrans : ∀ a b c, le a b → le b c → le a c)
  (htotal : ∀ a b, le a b || le b a)
include htrans htotal

/-- A new first element goes behind all that it is not before, and these and the others stay as they
are. -/
theorem mergeSort_cons_eq (a : α) (xs : List α) :
    (a :: xs).mergeSort le =
      (xs.mergeSort le).filter (fun b => !le a b) ++ a :: (xs.mergeSort le).filter (le a) := by
  obtain ⟨before, after, hcons, hsort, hbefore⟩ := List.mergeSort_cons htrans htotal a xs
  have hsorted := List.pairwise_mergeSort htrans htotal (a :: xs)
  rw [hcons] at hsorted
  have hafter : ∀ b ∈ after, le a b := by
    intro b hb
    exact List.rel_of_pairwise_cons (List.pairwise_append.1 hsorted).2.1 hb
  have hleft : (before ++ after).filter (fun b => !le a b) = before := by
    rw [List.filter_append, List.filter_eq_self.2 hbefore, List.filter_eq_nil_iff.2,
      List.append_nil]
    intro b hb
    simp [hafter b hb]
  have hright : (before ++ after).filter (le a) = after := by
    rw [List.filter_append, List.filter_eq_self.2 hafter, List.filter_eq_nil_iff.2, List.nil_append]
    intro b hb
    simpa using hbefore b hb
  rw [hcons, hsort, hleft, hright]

/-- Sorting keeps parts of lists: what is left out leaves no trace in the order of the rest. -/
theorem mergeSort_sublist {xs ys : List α} (h : xs.Sublist ys) :
    (xs.mergeSort le).Sublist (ys.mergeSort le) := by
  induction h with
  | slnil => exact List.Sublist.refl _
  | @cons xs ys a _ ih =>
    obtain ⟨before, after, hcons, hsort, -⟩ := List.mergeSort_cons htrans htotal a ys
    rw [hsort] at ih
    rw [hcons]
    exact ih.middle a
  | cons_cons a _ ih =>
    rw [mergeSort_cons_eq htrans htotal, mergeSort_cons_eq htrans htotal]
    exact (ih.filter _).append ((ih.filter _).cons_cons a)

/-- Elements that are level stay in their order. -/
theorem filter_mergeSort {p : α → Bool} {xs : List α}
    (hp : ∀ a ∈ xs, ∀ b ∈ xs, p a → p b → le a b) :
    (xs.mergeSort le).filter p = xs.filter p := by
  have hlevel : (xs.filter p).Pairwise fun a b => le a b := by
    refine List.pairwise_of_forall_mem_list ?_
    intro a ha b hb
    exact hp a (List.mem_of_mem_filter ha) b (List.mem_of_mem_filter hb)
      (List.of_mem_filter ha) (List.of_mem_filter hb)
  have hpart : (xs.filter p).Sublist (xs.mergeSort le) :=
    List.sublist_mergeSort htrans htotal hlevel List.filter_sublist
  have hpart' : (xs.filter p).Sublist ((xs.mergeSort le).filter p) := by
    simpa using hpart.filter p
  have hlength : ((xs.mergeSort le).filter p).length = (xs.filter p).length :=
    ((List.mergeSort_perm xs le).filter p).length_eq
  exact (hpart'.eq_of_length hlength.symm).symm

end Sorting

/-! ## Arrangements -/

namespace Finding

/-- `found` has what was `gathered`, in ascending order of the keys; findings with the same key
stay in the order in which they were gathered. -/
structure Arranges (gathered found : List Finding) : Prop where
  perm : found.Perm gathered
  sorted : found.Pairwise fun f g => f.key ≤ g.key
  ties : ∀ k, found.filter (fun f => f.key = k) = gathered.filter fun f => f.key = k

theorem arranges_mergeSort (gathered : List Finding) :
    Arranges gathered (gathered.mergeSort notAfter) where
  perm := List.mergeSort_perm gathered notAfter
  sorted := by
    refine (List.pairwise_mergeSort notAfter_trans notAfter_total gathered).imp ?_
    intro f g h
    exact (notAfter_iff f g).1 h
  ties := by
    intro k
    apply filter_mergeSort notAfter_trans notAfter_total
    intro f _ g _ hf hg
    have hkey : f.key = g.key := (of_decide_eq_true hf).trans (of_decide_eq_true hg).symm
    exact (notAfter_iff f g).2 hkey.le

end Finding

/-! ## Choices of rules -/

namespace Rule

/-- More names choose more rules, in the same order. -/
theorem ofNames_sublist {few many : List String} (h : few ⊆ many) :
    (ofNames few).Sublist (ofNames many) := by
  rw [ofNames_eq, ofNames_eq]
  apply List.monotone_filter_right
  intro r hr
  exact decide_eq_true (h (of_decide_eq_true hr))

/-- A report has what the chosen rules find, ordered by position, line, column and code; findings
that are level stay in the order of the rules. Names of no rule choose nothing. A report of fewer
rules is the report of more with findings left out. -/
theorem findAll_chosen (l : Listing) (t : Target) {few many : List String} (h : few ⊆ many) :
    (∀ chosen : List String, Finding.Arranges
      ((all.filter fun r => r.name ∈ chosen).flatMap fun r => r.findings l t)
      (findAll l t chosen)) ∧
    (findAll l t few).Sublist (findAll l t many) := by
  constructor
  · intro chosen
    rw [← ofNames_eq]
    exact Finding.arranges_mergeSort _
  · have hgathered := (ofNames_sublist h).flatMap fun r => r.findings l t
    exact mergeSort_sublist Finding.notAfter_trans Finding.notAfter_total hgathered

/-- Two names of no rule, one rule chosen by its name given twice, and a type that is named twice
at one place. -/
theorem findAll_chosen_types :
    let l := Listing.ofText "<?php function f(int|INT $a): int { return mysql_query($a); }"
    let few := ["no_rule", "new_type_declarations"]
    let many := ["new_type_declarations", "removed_functions", "new_type_declarations",
      "removed_extensions", "no_rule", ""]
    few ⊆ many ∧
      Finding.Arranges
        ((all.filter fun r => r.name ∈ many).flatMap fun r => r.findings l {})
        (findAll l {} many) ∧
      (findAll l {} few).Sublist (findAll l {} many) := by
  intro l few many
  have hsub : few ⊆ many := by decide
  obtain ⟨hall, hpart⟩ := findAll_chosen l {} hsub
  exact ⟨hsub, hall many, hpart⟩

end Rule

end Vintage
