import Mathlib.Data.List.Forall2
import Vintage.Proofs.ConstantNames
import Vintage.Proofs.FindingPlaces
import Vintage.Proofs.Signatures.Compact

/-!
# Lists of interfaces

The interfaces of a class are read in one pass over the tokens between `implements` and the brace.
The pass keeps the name that it is reading and the last word of it; a comma ends the name. Cut at
its commas, the list falls into segments. What is read of a segment depends on this segment alone:
the pass comes to each comma with what the segment before it has, and leaves it with nothing.

Results:
* `Reference.listFrom_eq`: what is read from any state on, by segments.
* `flatten_splitOnP`: segments have all tokens but the commas.
* `Listing.interfaces_by_segments`: the interfaces that a class implements.
-/

namespace Vintage

/-! ## Segments -/

namespace Reference

/-- The token is a word of a name. -/
def isWord (e : Token × Nat) : Bool := e.1.kind == .name

/-- The token is a piece of a name. -/
def isPiece (e : Token × Nat) : Bool := [.name, .nsSeparator, .kwNamespace].contains e.1.kind

/-- The token ends a segment. -/
def isComma (e : Token × Nat) : Bool := e.1.kind == .comma

/-- The name in a segment, layout and all else left out. -/
def nameOf (segment : List (Token × Nat)) : String :=
  String.join ((segment.filter isPiece).map fun e => e.1.text)

/-- The reference has the name in the segment, and is at the last word of it. -/
structure IsReadFrom (segment : List (Token × Nat)) (r : Reference) : Prop where
  name : r.name = nameOf segment
  position : ∃ before t after, segment = before ++ (t, r.position) :: after ∧ t.kind = .name ∧
    ∀ e ∈ after, e.1.kind ≠ .name

/-- The position of the last word in a segment. -/
def lastWord? (segment : List (Token × Nat)) : Option Nat :=
  (segment.reverse.find? isWord).map (·.2)

/-- The reference to a name that has been read, if it has a word. -/
def of? (name : String) (last : Option Nat) : Option Reference :=
  last.map fun position => { position, name }

/-- The reference in a segment, if it has a word. -/
def ofSegment? (segment : List (Token × Nat)) : Option Reference :=
  of? (nameOf segment) (lastWord? segment)

theorem lastWord?_cons (e : Token × Nat) (segment : List (Token × Nat)) :
    lastWord? (e :: segment) =
      (lastWord? segment).or (if isWord e then some e.2 else none) := by
  rw [lastWord?, List.reverse_cons, List.find?_append, Option.map_or, List.find?_singleton,
    lastWord?]
  split <;> rfl

theorem nameOf_cons (e : Token × Nat) (segment : List (Token × Nat)) :
    nameOf (e :: segment) = (if isPiece e then e.1.text else "") ++ nameOf segment := by
  unfold nameOf
  split
  · rename_i h
    rw [List.filter_cons_of_pos h, List.map_cons, String.join_cons]
  · rename_i h
    rw [List.filter_cons_of_neg h, String.empty_append]

theorem isReadFrom_of_ofSegment? {segment : List (Token × Nat)} {r : Reference}
    (h : ofSegment? segment = some r) : IsReadFrom segment r := by
  obtain ⟨position, hlast, rfl⟩ := Option.map_eq_some_iff.1 h
  obtain ⟨⟨t, i⟩, hfind, rfl⟩ := Option.map_eq_some_iff.1 hlast
  obtain ⟨hword, after, before, hsegment, hafter⟩ := List.find?_eq_some_iff_append.1 hfind
  refine ⟨rfl, before.reverse, t, after.reverse, ?_, eq_of_beq hword, ?_⟩
  · rw [← List.reverse_reverse segment, hsegment, List.reverse_append, List.reverse_cons,
      List.append_assoc, List.singleton_append]
  · intro e he hkind
    have := hafter e (List.mem_reverse.1 he)
    rw [isWord, hkind] at this
    cases this

theorem ofSegment?_eq_none_iff {segment : List (Token × Nat)} :
    ofSegment? segment = none ↔ segment.any isWord = false := by
  rw [ofSegment?, of?, Option.map_eq_none_iff, lastWord?, Option.map_eq_none_iff, List.find?_eq_none,
    List.any_eq_false]
  simp only [List.mem_reverse]

/-! ## Reading segment by segment -/

theorem listFrom_comma (name : String) (last : Option Nat) {e : Token × Nat}
    (he : isComma e = true) (es : List (Token × Nat)) :
    listFrom name last (e :: es) = (of? name last).toList ++ listFrom "" none es := by
  rw [listFrom, eq_of_beq he]
  rfl

/-- A token inside a segment adds to the name if it is a piece of one, and moves the position if it
is a word. -/
theorem listFrom_cons (name : String) (last : Option Nat) {e : Token × Nat}
    (he : isComma e = false) (es : List (Token × Nat)) :
    listFrom name last (e :: es) =
      listFrom (name ++ if isPiece e then e.1.text else "") (if isWord e then some e.2 else last)
        es := by
  obtain ⟨t, i⟩ := e
  rw [listFrom]
  split
  · rename_i hkind
    simp [isPiece, isWord, hkind]
  · rename_i hkind
    simp [isPiece, isWord, hkind]
  · rename_i hkind
    simp [isPiece, isWord, hkind]
  · rename_i hkind
    simp [isComma, hkind] at he
  · rename_i hname hseparator hnamespace _
    have hpiece : isPiece (t, i) = false := by
      simpa [isPiece] using ⟨hname, hseparator, hnamespace⟩
    have hword : isWord (t, i) = false := by
      simpa [isWord] using hname
    simp [hpiece, hword]

theorem filterMap_ofSegment?_cons (segment : List (Token × Nat))
    (segments : List (List (Token × Nat))) :
    (segment :: segments).filterMap ofSegment? =
      (ofSegment? segment).toList ++ segments.filterMap ofSegment? := by
  rw [List.filterMap_eq_flatMap_toList, List.filterMap_eq_flatMap_toList, List.flatMap_cons]

/-- From any state on, the first segment goes on with the name at hand, and every other one is read
on its own. -/
theorem listFrom_eq (name : String) (last : Option Nat) (es : List (Token × Nat))
    {segment : List (Token × Nat)} {segments : List (List (Token × Nat))}
    (h : es.splitOnP isComma = segment :: segments) :
    listFrom name last es =
      (of? (name ++ nameOf segment) ((lastWord? segment).or last)).toList ++
        segments.filterMap ofSegment? := by
  induction es generalizing name last segment segments with
  | nil =>
    obtain ⟨rfl, rfl⟩ := List.cons.inj h
    rw [listFrom, List.filterMap_nil, List.append_nil, nameOf, lastWord?]
    simp [of?]
  | cons e es ih =>
    obtain ⟨next, rest, hes⟩ := List.exists_cons_of_ne_nil (List.splitOnP_ne_nil isComma es)
    rw [List.splitOnP_cons_eq_if_modifyHead, hes] at h
    cases he : isComma e with
    | true =>
      -- the name ends here, and the next segment starts with nothing
      rw [if_pos he] at h
      obtain ⟨rfl, rfl⟩ := List.cons.inj h
      rw [listFrom_comma name last he, ih "" none hes, String.empty_append, Option.or_none,
        ← ofSegment?, ← filterMap_ofSegment?_cons]
      simp [nameOf, lastWord?]
    | false =>
      rw [if_neg (by simp [he]), List.modifyHead_cons] at h
      obtain ⟨rfl, rfl⟩ := List.cons.inj h
      have hword : (if isWord e then some e.2 else last) =
          (if isWord e then some e.2 else none).or last := by
        split <;> simp
      rw [listFrom_cons name last he, ih _ _ hes, nameOf_cons, lastWord?_cons, String.append_assoc,
        hword, Option.or_assoc]

/-- A list is read segment by segment. -/
theorem listFrom_start (es : List (Token × Nat)) :
    listFrom "" none es = (es.splitOnP isComma).filterMap ofSegment? := by
  obtain ⟨segment, segments, hes⟩ := List.exists_cons_of_ne_nil (List.splitOnP_ne_nil isComma es)
  rw [listFrom_eq "" none es hes, hes, String.empty_append, Option.or_none, ← ofSegment?,
    filterMap_ofSegment?_cons]

/-- Each segment with a word gives one reference, in the order of the segments. -/
theorem forall₂_isReadFrom (segments : List (List (Token × Nat))) :
    List.Forall₂ IsReadFrom (segments.filter (·.any isWord)) (segments.filterMap ofSegment?) := by
  induction segments with
  | nil => exact .nil
  | cons segment segments ih =>
    cases hread : ofSegment? segment with
    | none =>
      have hword := ofSegment?_eq_none_iff.1 hread
      rw [List.filterMap_cons_none hread, List.filter_cons_of_neg (by simp [hword])]
      exact ih
    | some r =>
      have hword : segment.any isWord = true := by
        rw [← Bool.not_eq_false, ← ofSegment?_eq_none_iff, hread]
        exact Option.some_ne_none r
      rw [List.filterMap_cons_some hread, List.filter_cons_of_pos (by exact hword)]
      exact .cons (isReadFrom_of_ofSegment? hread) ih

end Reference

/-! ## Segments of a listing -/

/-- Cut at separators, a list has everything in its pieces but these. -/
theorem flatten_splitOnP {α : Type} (p : α → Bool) (xs : List α) :
    (xs.splitOnP p).flatten = xs.filter fun x => !p x := by
  induction xs with
  | nil => rfl
  | cons x xs ih =>
    obtain ⟨piece, pieces, hxs⟩ := List.exists_cons_of_ne_nil (List.splitOnP_ne_nil p xs)
    rw [List.splitOnP_cons_eq_if_modifyHead, hxs]
    rw [hxs, List.flatten_cons] at ih
    cases hx : p x with
    | true =>
      rw [if_pos rfl, List.flatten_cons, List.flatten_cons, List.nil_append, ih,
        List.filter_cons_of_neg (by simp [hx])]
    | false =>
      rw [if_neg Bool.false_ne_true, List.modifyHead_cons, List.flatten_cons, List.cons_append, ih,
        List.filter_cons_of_pos (by simp [hx])]

namespace Listing

/-- The segments from `start` up to `stop`, cut at commas. -/
def segments (l : Listing) (start stop : Nat) : List (List (Token × Nat)) :=
  (l.stretchWithPositions start stop).splitOnP Reference.isComma

/-- No token is in two segments: those of one come before those of the next. -/
theorem pairwise_segments (l : Listing) (start stop : Nat) :
    (l.segments start stop).Pairwise fun a b => ∀ e ∈ a, ∀ f ∈ b, e.2 < f.2 := by
  have hpositions : (l.stretchWithPositions start stop).Pairwise fun e f => e.2 < f.2 := by
    rw [← List.pairwise_map (f := Prod.snd) (R := (· < ·)), stretchWithPositions, List.zipIdx_map_snd]
    exact List.pairwise_lt_range' 1
  have hflatten : (l.segments start stop).flatten.Pairwise fun e f => e.2 < f.2 := by
    rw [segments, flatten_splitOnP]
    exact hpositions.filter _
  exact (List.pairwise_flatten.1 hflatten).2

theorem exists_firstIn? {l : Listing} {p : Token → Bool} {start stop j : Nat}
    (hj : (l.get? j).any p = true) (hstart : start ≤ j) (hstop : j < stop) :
    ∃ first, l.firstIn? p start stop = some first := by
  obtain ⟨t, ht, -⟩ := (Option.any_eq_true _ _).1 hj
  have hsize : j < l.size := (Array.getElem?_eq_some_iff.1 ht).1
  obtain ⟨first, hfirst, -⟩ := exists_firstAmong? hj (n := min stop l.size - start) hstart (by omega)
  exact ⟨first, hfirst⟩

/-- The class or enumeration at a position, with a scope and an `implements` before it, implements
one interface for each segment between the first `implements` and the scope that has a word in it,
in this order. Its name is made of the pieces in the segment, and it is at the last word there. No
token is in two segments. -/
theorem interfaces_by_segments {l : Listing} {i : Nat} {t : Token} {s : Scope}
    (ht : l.get? i = some t) (hkind : t.kind = .kwClass ∨ t.kind = .kwEnum)
    (hscope : t.scope = some s)
    (himplements : ∃ j, i < j ∧ j < s.opener ∧ l.kind? j = some .kwImplements) :
    ∃ first, i < first ∧ first < s.opener ∧ l.kind? first = some .kwImplements ∧
      (∀ j, i < j → j < first → l.kind? j ≠ some .kwImplements) ∧
      List.Forall₂ Reference.IsReadFrom
        ((l.segments (first + 1) s.opener).filter (·.any Reference.isWord)) (l.interfaces i) ∧
      (l.segments (first + 1) s.opener).Pairwise fun a b => ∀ e ∈ a, ∀ f ∈ b, e.2 < f.2 := by
  have hany (k : Nat) : (l.get? k).any (fun u => u.kind == .kwImplements) = true ↔
      l.kind? k = some .kwImplements := by
    rw [any_kind_beq, beq_iff_eq]
  obtain ⟨j, hij, hj, himplements⟩ := himplements
  obtain ⟨first, hfirst⟩ := exists_firstIn? ((hany j).2 himplements) hij hj
  obtain ⟨hstart, hstop, hkeyword⟩ := firstIn?_eq_some hfirst
  refine ⟨first, hstart, hstop, (hany first).1 ((Option.any_eq_true _ _).2 hkeyword), ?_, ?_,
    pairwise_segments l _ _⟩
  · intro k hik hk himplements
    have hbefore := firstAmong?_before hfirst hik hk
    rw [(hany k).2 himplements] at hbefore
    cases hbefore
  · have hinterfaces : l.interfaces i =
        (l.segments (first + 1) s.opener).filterMap Reference.ofSegment? := by
      rw [interfaces, ht]
      simp only [if_pos hkind, hscope, hfirst]
      exact Reference.listFrom_start _
    rw [hinterfaces]
    exact Reference.forall₂_isReadFrom _

/-- A segment without a word and one without a name lie between the two interfaces. -/
theorem interfaces_by_segments_four :
    let l := ofText "<?php class A implements \\B\\C, \\, /* none */, D \x7b\x7d"
    let s : Scope := ⟨2, 22, 23⟩
    (∃ t, l.get? 2 = some t ∧ t.kind = .kwClass ∧ t.scope = some s) ∧
      l.kind? 6 = some .kwImplements ∧ l.interfaces 2 = [⟨11, "\\B\\C"⟩, ⟨20, "D"⟩] ∧
      ∃ first, 2 < first ∧ first < s.opener ∧ l.kind? first = some .kwImplements ∧
        (∀ j, 2 < j → j < first → l.kind? j ≠ some .kwImplements) ∧
        List.Forall₂ Reference.IsReadFrom
          ((l.segments (first + 1) s.opener).filter (·.any Reference.isWord)) (l.interfaces 2) ∧
        (l.segments (first + 1) s.opener).Pairwise fun a b => ∀ e ∈ a, ∀ f ∈ b, e.2 < f.2 := by
  intro l s
  -- the text is read once for all that is computed
  obtain ⟨hclass, hkeyword, hinterfaces⟩ :
      (l.get? 2).any (fun t => t.kind == .kwClass && t.scope == some s) = true ∧
      l.kind? 6 = some .kwImplements ∧ l.interfaces 2 = [⟨11, "\\B\\C"⟩, ⟨20, "D"⟩] := by
    decide +kernel
  obtain ⟨t, ht, hclass⟩ := (Option.any_eq_true _ _).1 hclass
  obtain ⟨hkind, hscope⟩ := (Bool.and_eq_true _ _).mp hclass
  refine ⟨⟨t, ht, eq_of_beq hkind, eq_of_beq hscope⟩, hkeyword, hinterfaces, ?_⟩
  exact interfaces_by_segments ht (Or.inl (eq_of_beq hkind)) (eq_of_beq hscope)
    ⟨6, by decide, by decide, hkeyword⟩

end Listing

end Vintage
