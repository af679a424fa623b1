import Vintage.Proofs.Encoding
import Vintage.Source

/-!
# Looking up offsets

A text is looked up by byte offset, and an offset between two characters has the line and the column
that are counted in the characters before it. The line is found by bisection among the offsets at
which lines start, and the column by counting the characters of the line up to the offset.

Results:
* `bisect_eq`: what bisection finds.
* `Source.place_eq`: the line and the column of an offset, counted in the text before it.
* `Source.place_mono`: lines and columns ascend with the offset.
* `Source.slice_eq`: the text between two offsets.
-/

namespace Vintage

/-! ## Boundaries -/

namespace Text.Utf8

/-- The offset is one between two characters of the text, or one of its ends. -/
def IsBoundary (cs : List Char) (offset : Nat) : Prop :=
  ∃ before, before <+: cs ∧ size before = offset

instance (cs : List Char) (offset : Nat) : Decidable (IsBoundary cs offset) :=
  decidable_of_iff (offset ∈ cs.inits.map size) (by simp [IsBoundary, List.mem_map])

variable {cs : List Char}

theorem isBoundary_zero (cs : List Char) : IsBoundary cs 0 := ⟨[], List.nil_prefix, rfl⟩

theorem isBoundary_size (cs : List Char) : IsBoundary cs (size cs) := ⟨cs, List.prefix_rfl, rfl⟩

theorem IsBoundary.le_size {offset : Nat} (h : IsBoundary cs offset) : offset ≤ size cs := by
  obtain ⟨before, ⟨after, rfl⟩, rfl⟩ := h
  rw [size_append]
  exact Nat.le_add_right _ _

/-- Of two initial pieces of a text, the one with fewer bytes is an initial piece of the other. -/
theorem prefix_of_size_le {before before' : List Char} (h : before <+: cs) (h' : before' <+: cs)
    (hle : size before ≤ size before') : before <+: before' := by
  rcases List.prefix_or_prefix_of_prefix h h' with hprefix | ⟨more, rfl⟩
  · exact hprefix
  · have hmore := length_le_size more
    rw [size_append] at hle
    rw [List.length_eq_zero_iff.1 (show more.length = 0 by omega), List.append_nil]

/-- A boundary after the text `before` is after some more characters. -/
theorem IsBoundary.exists_append {before : List Char} {offset : Nat} (h : IsBoundary cs offset)
    (hbefore : before <+: cs) (hle : size before ≤ offset) :
    ∃ more, before ++ more <+: cs ∧ offset = size (before ++ more) := by
  obtain ⟨before', hbefore', rfl⟩ := h
  obtain ⟨more, rfl⟩ := prefix_of_size_le hbefore hbefore' hle
  exact ⟨more, hbefore', rfl⟩

theorem IsBoundary.cons {offset : Nat} (h : IsBoundary cs offset) (c : Char) :
    IsBoundary (c :: cs) (c.utf8Size + offset) := by
  obtain ⟨before, hbefore, rfl⟩ := h
  exact ⟨c :: before, List.cons_prefix_cons.2 ⟨rfl, hbefore⟩, size_cons c before⟩

/-- A byte below `0x80` is a character of its own, so there are boundaries on both of its sides. -/
theorem isBoundary_of_ascii {offset : Nat} {byte : UInt8} (h : (encode cs)[offset]? = some byte)
    (hbyte : byte.toNat < 0x80) : IsBoundary cs offset ∧ IsBoundary cs (offset + 1) := by
  induction cs generalizing offset with
  | nil => cases h
  | cons c cs ih =>
    obtain ⟨first, others, hbytes, -, hothers, hone⟩ := exists_utf8EncodeChar c
    have hsize : c.utf8Size = others.length + 1 := by
      rw [← String.length_utf8EncodeChar, hbytes, List.length_cons]
    rw [encode_cons] at h
    by_cases hlt : offset < c.utf8Size
    · rw [List.getElem?_append_left (by rwa [String.length_utf8EncodeChar]), hbytes] at h
      cases offset with
      | zero =>
        obtain rfl : first = byte := by simpa using h
        rw [(hone hbyte).2, List.length_nil, Nat.zero_add] at hsize
        have hend := (isBoundary_zero cs).cons c
        rw [hsize] at hend
        exact ⟨isBoundary_zero _, hend⟩
      | succ offset =>
        -- the other bytes of a character are not below `0x80`
        have hother := hothers byte (List.mem_of_getElem? h)
        rw [startsChar_iff.2 (Or.inl hbyte)] at hother
        cases hother
    · rw [List.getElem?_append_right (by rw [String.length_utf8EncodeChar]; omega),
        String.length_utf8EncodeChar] at h
      obtain ⟨hstart, hend⟩ := ih h
      have hstart := hstart.cons c
      have hend := hend.cons c
      rw [show c.utf8Size + (offset - c.utf8Size) = offset by omega] at hstart
      rw [show c.utf8Size + (offset - c.utf8Size + 1) = offset + 1 by omega] at hend
      exact ⟨hstart, hend⟩

end Text.Utf8

open Text.Utf8

/-! ## Lines and columns -/

namespace Text

/-- The line after a text that starts on line one. -/
def lineAfter (before : List Char) : Nat := 1 + before.count '\n'

/-- The column after a text that starts in column one: the characters after the last line feed
count. -/
def columnAfter (before : List Char) : Nat :=
  1 + (before.reverse.takeWhile (· != '\n')).length

variable (before : List Char)

theorem lineAfter_newline : lineAfter (before ++ ['\n']) = lineAfter before + 1 := by
  simp [lineAfter, Nat.add_assoc]

theorem columnAfter_newline : columnAfter (before ++ ['\n']) = 1 := by
  simp [columnAfter]

theorem lineAfter_concat {c : Char} (hc : c ≠ '\n') :
    lineAfter (before ++ [c]) = lineAfter before := by
  simp [lineAfter, hc]

theorem columnAfter_concat {c : Char} (hc : c ≠ '\n') :
    columnAfter (before ++ [c]) = columnAfter before + 1 := by
  simp [columnAfter, hc, Nat.add_assoc]

/-- Reading on, the line grows, or it stays and the column does not shrink. -/
theorem lineAfter_append (more : List Char) :
    lineAfter before < lineAfter (before ++ more) ∨
      lineAfter before = lineAfter (before ++ more) ∧
        columnAfter before ≤ columnAfter (before ++ more) := by
  induction more generalizing before with
  | nil =>
    rw [List.append_nil]
    exact Or.inr ⟨rfl, Nat.le_refl _⟩
  | cons c more ih =>
    have hmore := ih (before ++ [c])
    rw [List.append_assoc, List.singleton_append] at hmore
    by_cases hc : c = '\n'
    · subst hc
      rw [lineAfter_newline] at hmore
      omega
    · rw [lineAfter_concat _ hc, columnAfter_concat _ hc] at hmore
      omega

/-- A text is whole lines and a last line, whose characters the column counts. -/
theorem exists_lastLine : ∃ lines last, before = lines ++ last ∧ '\n' ∉ last ∧
    (lines = [] ∨ ∃ others, lines = others ++ ['\n']) ∧ columnAfter before = 1 + last.length := by
  induction before using List.reverseRecOn with
  | nil => exact ⟨[], [], rfl, List.not_mem_nil, Or.inl rfl, rfl⟩
  | append_singleton before c ih =>
    by_cases hc : c = '\n'
    · subst hc
      refine ⟨before ++ ['\n'], [], (List.append_nil _).symm, List.not_mem_nil, ?_, ?_⟩
      · exact Or.inr ⟨before, rfl⟩
      · rw [columnAfter_newline, List.length_nil]
    · obtain ⟨lines, last, rfl, hlast, hlines, hcolumn⟩ := ih
      refine ⟨lines, last ++ [c], List.append_assoc _ _ _, ?_, hlines, ?_⟩
      · rw [List.mem_append, List.mem_singleton]
        exact fun h => h.elim hlast fun h => hc h.symm
      · rw [columnAfter_concat _ hc, hcolumn, List.length_append]
        rfl

end Text

/-! ## Bisection -/

/-- Bisection finds where the property stops to hold. The invariant is that this is from `low` up to
`high`. -/
theorem bisect_eq {p : Nat → Bool} {low high m : Nat} (hlow : low ≤ m) (hhigh : m ≤ high)
    (htrue : ∀ i < m, p i = true) (hfalse : ∀ i, m ≤ i → i < high → p i = false) :
    bisect p low high = m := by
  induction low, high using bisect.induct p with
  | case1 low high hlt middle hp ih =>
    rw [bisect, if_pos hlt]
    simp only
    rw [if_pos hp]
    refine ih ?_ hhigh hfalse
    by_contra hle
    rw [hfalse middle (by omega) (by omega)] at hp
    cases hp
  | case2 low high hlt middle hp ih =>
    rw [bisect, if_pos hlt]
    simp only
    rw [if_neg hp]
    refine ih hlow ?_ fun i hi hmiddle => hfalse i hi (by omega)
    by_contra hle
    exact hp (htrue middle (by omega))
  | case3 low high hle =>
    rw [bisect, if_neg hle]
    omega

namespace Source

open Text (lineAfter columnAfter)

/-! ## Starts of lines -/

/-- The offsets after the line feeds of a text that starts at `offset`. -/
def lineEnds : (offset : Nat) → List Char → List Nat
  | _, [] => []
  | offset, c :: cs =>
    (if c = '\n' then [offset + 1] else []) ++ lineEnds (offset + c.utf8Size) cs

theorem toList_startsFrom (offset : Nat) (found : Array Nat) (cs : List Char) :
    (startsFrom offset found cs).toList = found.toList ++ lineEnds offset cs := by
  induction cs generalizing offset found with
  | nil => simp [startsFrom, lineEnds]
  | cons c cs ih =>
    rw [startsFrom, ih, lineEnds]
    by_cases hc : c = '\n'
    · simp [hc]
    · simp [hc]

theorem lineEnds_append (offset : Nat) (cs ds : List Char) :
    lineEnds offset (cs ++ ds) = lineEnds offset cs ++ lineEnds (offset + size cs) ds := by
  induction cs generalizing offset with
  | nil => rfl
  | cons c cs ih =>
    rw [List.cons_append, lineEnds, ih, lineEnds, List.append_assoc, size_cons, Nat.add_assoc]

theorem length_lineEnds (offset : Nat) (cs : List Char) :
    (lineEnds offset cs).length = cs.count '\n' := by
  induction cs generalizing offset with
  | nil => rfl
  | cons c cs ih =>
    rw [lineEnds, List.length_append, ih]
    by_cases hc : c = '\n'
    · simp [hc, Nat.add_comm]
    · simp [hc]

theorem lt_of_mem_lineEnds {offset n : Nat} {cs : List Char} (h : n ∈ lineEnds offset cs) :
    offset < n ∧ n ≤ offset + size cs := by
  induction cs generalizing offset with
  | nil => cases h
  | cons c cs ih =>
    have hpos := c.utf8Size_pos
    rw [lineEnds, List.mem_append] at h
    rw [size_cons]
    rcases h with h | h
    · split_ifs at h
      · obtain rfl := List.mem_singleton.1 h
        omega
      · cases h
    · have := ih h
      omega

theorem lineEnds_eq_nil {offset : Nat} {cs : List Char} (h : '\n' ∉ cs) :
    lineEnds offset cs = [] := by
  rw [← List.length_eq_zero_iff, length_lineEnds, List.count_eq_zero]
  exact h

theorem toList_starts (before after : List Char) :
    (ofChars (before ++ after)).starts.toList =
      (0 :: lineEnds 0 before) ++ lineEnds (size before) after := by
  rw [ofChars, toList_startsFrom, lineEnds_append, Nat.zero_add, ← List.append_assoc]
  rfl

/-- The lines that start at an offset or before it are those that the text before it starts. -/
theorem line_eq (before after : List Char) :
    (ofChars (before ++ after)).line (size before) = lineAfter before := by
  have hstarts := toList_starts before after
  have hlength : (0 :: lineEnds 0 before).length = lineAfter before := by
    rw [List.length_cons, length_lineEnds, lineAfter, Nat.add_comm]
  have hsize : lineAfter before ≤ (ofChars (before ++ after)).starts.size := by
    rw [← Array.length_toList, hstarts, List.length_append, hlength]
    exact Nat.le_add_right _ _
  rw [line, bisect_eq (Nat.zero_le _) hsize]
  · exact Nat.max_eq_right (Nat.le_add_right 1 _)
  · intro i hi
    rw [← Array.getElem?_toList, hstarts, List.getElem?_append_left (by omega),
      List.getElem?_eq_getElem (by omega), Option.any_some, decide_eq_true_eq]
    rcases List.mem_cons.1 (List.getElem_mem (hlength.symm ▸ hi)) with hzero | hmem
    · omega
    · have := (lt_of_mem_lineEnds hmem).2
      omega
  · intro i hi hlt
    rw [← Array.length_toList, hstarts, List.length_append] at hlt
    rw [← Array.getElem?_toList, hstarts, List.getElem?_append_right (by omega),
      List.getElem?_eq_getElem (by omega), Option.any_some, decide_eq_false_iff_not]
    have := (lt_of_mem_lineEnds (List.getElem_mem (l := lineEnds (size before) after)
      (n := i - (0 :: lineEnds 0 before).length) (by omega))).1
    omega

/-- The line of an offset starts after the whole lines before it. -/
theorem start_eq {before lines last : List Char} (after : List Char)
    (hbefore : before = lines ++ last) (hlast : '\n' ∉ last) (hlines : lines = [] ∨ ∃ others, lines = others ++ ['\n']) :
    (ofChars (before ++ after)).starts.getD (lineAfter before - 1) 0 = size lines := by
  have hends : lineEnds 0 before = lineEnds 0 lines := by
    rw [hbefore, lineEnds_append, lineEnds_eq_nil hlast, List.append_nil]
  have hcount : lineAfter before - 1 = (lineEnds 0 lines).length := by
    rw [← hends, length_lineEnds, lineAfter]
    omega
  rw [Array.getD_eq_getD_getElem?, ← Array.getElem?_toList, toList_starts, hends, hcount,
    List.getElem?_append_left (Nat.lt_succ_self _)]
  rcases hlines with rfl | ⟨others, rfl⟩
  · rfl
  · have hfeed : '\n'.utf8Size = 1 := rfl
    rw [lineEnds_append]
    simp [lineEnds, hfeed]

/-! ## Between two boundaries -/

@[simp] theorem size_bytes (cs : List Char) : (ofChars cs).bytes.size = size cs := by
  simp [ofChars]

theorem getElem?_bytes (cs : List Char) (offset : Nat) :
    (ofChars cs).bytes[offset]? = (encode cs)[offset]? := by
  simp [ofChars]

/-- The bytes between two boundaries are those of the characters there. -/
theorem toList_extract_bytes (before piece after : List Char) :
    ((ofChars (before ++ piece ++ after)).bytes.extract (size before)
      (size (before ++ piece))).toList = encode piece := by
  rw [ofChars, Array.toList_extract, List.extract_eq_take_drop, encode_append, encode_append,
    List.append_assoc, ← length_encode before, List.drop_left, size_append,
    ← length_encode before, Nat.add_sub_cancel_left, ← length_encode piece, List.take_left]

theorem isBoundary_eq_true {cs : List Char} {offset : Nat} (h : IsBoundary cs offset) :
    (ofChars cs).isBoundary offset = true := by
  obtain ⟨before, ⟨after, rfl⟩, rfl⟩ := h
  rw [isBoundary, Bool.or_eq_true]
  cases after with
  | nil =>
    rw [List.append_nil, size_bytes]
    exact Or.inl (Bool.or_eq_true_iff.2 (Or.inr (beq_self_eq_true _)))
  | cons c after =>
    obtain ⟨first, others, hbytes, hfirst, -⟩ := exists_utf8EncodeChar c
    right
    rw [getElem?_bytes, encode_append, ← length_encode, encode_cons, hbytes,
      List.getElem?_append_right (Nat.le_refl _), Nat.sub_self]
    exact hfirst

/-- Between two boundaries characters are counted. -/
theorem charsBetween?_eq (before piece after : List Char) :
    (ofChars (before ++ piece ++ after)).charsBetween? (size before) (size (before ++ piece)) =
      some piece.length := by
  have hstart : IsBoundary (before ++ piece ++ after) (size before) :=
    ⟨before, by rw [List.append_assoc]; exact List.prefix_append _ _, rfl⟩
  have hstop : IsBoundary (before ++ piece ++ after) (size (before ++ piece)) :=
    ⟨_, List.prefix_append _ _, rfl⟩
  rw [charsBetween?, isBoundary_eq_true hstart, isBoundary_eq_true hstop, if_pos (by simp),
    ← Array.countP_toList, toList_extract_bytes, countP_startsChar_encode]

/-- Between two boundaries the text is read. -/
theorem slice_eq (before piece after : List Char) :
    (ofChars (before ++ piece ++ after)).slice (size before) (size (before ++ piece)) =
      String.ofList piece := by
  rw [slice, if_pos (by simp), toList_extract_bytes, decodeLossy_encode]

/-! ## Lines and columns of offsets -/

/-- An offset between two characters has the line and the column after the text before it. -/
theorem place_eq (before after : List Char) :
    (ofChars (before ++ after)).place (size before) = (lineAfter before, columnAfter before) := by
  obtain ⟨lines, last, hbefore, hlast, hlines, hcolumn⟩ := Text.exists_lastLine before
  rw [place, line_eq, start_eq after hbefore hlast hlines, hbefore, charsBetween?_eq, ← hbefore,
    hcolumn, Option.getD_some, Nat.add_comm]

/-- Places ascend with the offset: by line, and on one line by column. -/
theorem place_mono {cs : List Char} {m n : Nat} (hmn : m ≤ n) (hm : IsBoundary cs m)
    (hn : IsBoundary cs n) :
    ((ofChars cs).place m).1 < ((ofChars cs).place n).1 ∨
      ((ofChars cs).place m).1 = ((ofChars cs).place n).1 ∧
        ((ofChars cs).place m).2 ≤ ((ofChars cs).place n).2 := by
  obtain ⟨before, hbefore, rfl⟩ := hm
  obtain ⟨more, ⟨after, rfl⟩, rfl⟩ := hn.exists_append hbefore hmn
  rw [place_eq, List.append_assoc, place_eq]
  exact Text.lineAfter_append _ _

end Source

end Vintage
