import Mathlib.Data.List.Basic
import Mathlib.Data.Set.Basic
import Vintage.Proofs.RangeSyntax
import Vintage.Report.Format

/-!
# Reading annotations back

An annotation names a path, a severity, a line, a column and a message. The message is escaped, so
that it can be read back. The path is not: a path that goes on like an annotation is read as a
shorter path with a longer message. This is all that can go wrong.

Results:
* `toList_foldl_replaceChar`: when replacing one character after the other comes to the same as
  replacing them all at once.
* `unescapedChars_escapedChars`: an escaped message can be read back.
* `annotationMessage_reversible`: what is written for a message.
* `marker_append_eq`: two texts with a marker in them are equal only if the markers are the same or
  one of them lies inside the other text's first part.
* `annotation_unambiguous_iff`: for which paths annotations are unambiguous.
* `annotation_ambiguous`: two different findings with the same annotation.
-/

namespace Vintage.Report

/-! ## Replacing characters -/

/-- What stands for a character when all replacements are made at once. -/
def replacement : List (Char × String) → Char → List Char
  | [], c => [c]
  | escape :: escapes, c => if c = escape.1 then escape.2.toList else replacement escapes c

theorem replacement_of_forall_ne {escapes : List (Char × String)} {c : Char}
    (h : ∀ escape ∈ escapes, c ≠ escape.1) : replacement escapes c = [c] := by
  induction escapes with
  | nil => rfl
  | cons escape escapes ih =>
    obtain ⟨hne, hrest⟩ := List.forall_mem_cons.1 h
    rw [replacement, if_neg hne, ih hrest]

/-- Replacements leave a text alone that has none of their characters. -/
theorem flatMap_replacement_of_forall_ne {escapes : List (Char × String)} {cs : List Char}
    (h : ∀ escape ∈ escapes, escape.1 ∉ cs) : cs.flatMap (replacement escapes) = cs := by
  have hsame : ∀ c ∈ cs, replacement escapes c = [c] := by
    intro c hc
    refine replacement_of_forall_ne ?_
    rintro escape hescape rfl
    exact h escape hescape hc
  rw [List.flatMap_congr hsame, List.flatMap_singleton']

theorem toList_replaceChar (s : String) (c : Char) (t : String) :
    (replaceChar s c t).toList = s.toList.flatMap fun d => if d = c then t.toList else [d] :=
  String.toList_ofList

/-- Characters that are replaced one after the other might as well be replaced all at once, if what
is written for one of them has none in it that is replaced later. -/
theorem toList_foldl_replaceChar {escapes : List (Char × String)}
    (h : escapes.Pairwise fun escape later => later.1 ∉ escape.2.toList) (s : String) :
    (escapes.foldl (fun s escape => replaceChar s escape.1 escape.2) s).toList =
      s.toList.flatMap (replacement escapes) := by
  induction escapes generalizing s with
  | nil => exact (List.flatMap_singleton' s.toList).symm
  | cons escape escapes ih =>
    obtain ⟨hlater, hrest⟩ := List.pairwise_cons.1 h
    rw [List.foldl_cons, ih hrest, toList_replaceChar, List.flatMap_assoc]
    refine List.flatMap_congr ?_
    intro c _
    by_cases hc : c = escape.1
    · rw [if_pos hc, flatMap_replacement_of_forall_ne hlater, replacement, if_pos hc]
    · rw [if_neg hc, List.flatMap_singleton, replacement, if_neg hc]

/-! ## Escaped messages -/

/-- A character of an annotation's message. -/
def annotationChar (c : Char) : List Char :=
  match c with
  | '%' => ['%', '2', '5']
  | '\r' => ['%', '0', 'D']
  | '\n' => ['%', '0', 'A']
  | _ => [c]

/-- The characters of a message as an annotation has them. -/
def escapedChars (cs : List Char) : List Char := cs.flatMap annotationChar

/-- Reads escaped characters back, from left to right. -/
def unescapedChars : List Char → List Char
  | '%' :: '2' :: '5' :: rest => '%' :: unescapedChars rest
  | '%' :: '0' :: 'D' :: rest => '\r' :: unescapedChars rest
  | '%' :: '0' :: 'A' :: rest => '\n' :: unescapedChars rest
  | c :: rest => c :: unescapedChars rest
  | [] => []

theorem annotationChar_of_ne {c : Char} (hpercent : c ≠ '%') (hreturn : c ≠ '\r')
    (hnewline : c ≠ '\n') : annotationChar c = [c] := by
  unfold annotationChar
  split
  · exact absurd rfl hpercent
  · exact absurd rfl hreturn
  · exact absurd rfl hnewline
  · rfl

theorem unescapedChars_annotationChar (c : Char) (rest : List Char) :
    unescapedChars (annotationChar c ++ rest) = c :: unescapedChars rest := by
  by_cases hpercent : c = '%'
  · subst hpercent
    rfl
  by_cases hreturn : c = '\r'
  · subst hreturn
    rfl
  by_cases hnewline : c = '\n'
  · subst hnewline
    rfl
  rw [annotationChar_of_ne hpercent hreturn hnewline, List.singleton_append, unescapedChars]
  all_goals
    rintro - rfl
    contradiction

theorem unescapedChars_escapedChars (cs : List Char) : unescapedChars (escapedChars cs) = cs := by
  induction cs with
  | nil => rfl
  | cons c cs ih =>
    show unescapedChars (annotationChar c ++ escapedChars cs) = c :: cs
    rw [unescapedChars_annotationChar, ih]

theorem replacement_annotationEscapes (c : Char) :
    replacement annotationEscapes c = annotationChar c := by
  by_cases hpercent : c = '%'
  · subst hpercent
    decide
  by_cases hreturn : c = '\r'
  · subst hreturn
    decide
  by_cases hnewline : c = '\n'
  · subst hnewline
    decide
  rw [annotationChar_of_ne hpercent hreturn hnewline]
  refine replacement_of_forall_ne ?_
  simp [annotationEscapes, hpercent, hreturn, hnewline]

/-- The message is escaped character by character: a percent sign that an escape brings in is not
escaped again. -/
theorem toList_annotationMessage (message : String) :
    (annotationMessage message).toList = escapedChars message.toList := by
  have hescapes : annotationEscapes.Pairwise fun escape later => later.1 ∉ escape.2.toList := by
    decide
  rw [annotationMessage, toList_foldl_replaceChar hescapes, escapedChars]
  exact List.flatMap_congr fun c _ => replacement_annotationEscapes c

theorem annotationMessage_append (m n : String) :
    annotationMessage (m ++ n) = annotationMessage m ++ annotationMessage n := by
  apply String.toList_inj.1
  simp only [toList_annotationMessage, String.toList_append, escapedChars, List.flatMap_append]

/-- Different messages are written differently. -/
theorem annotationMessage_inj {m n : String} (h : annotationMessage m = annotationMessage n) :
    m = n := by
  have hchars := congrArg (fun s => unescapedChars s.toList) h
  simp only [toList_annotationMessage, unescapedChars_escapedChars] at hchars
  exact String.toList_inj.1 hchars

/-- No escape has the end of a line in it. -/
theorem not_mem_annotationChar {c : Char} : '\r' ∉ annotationChar c ∧ '\n' ∉ annotationChar c := by
  unfold annotationChar
  split
  · decide
  · decide
  · decide
  · rename_i hreturn hnewline
    exact ⟨fun h => hreturn (List.mem_singleton.1 h).symm,
      fun h => hnewline (List.mem_singleton.1 h).symm⟩

theorem not_mem_escapedChars (cs : List Char) : '\r' ∉ escapedChars cs ∧ '\n' ∉ escapedChars cs := by
  constructor
  · intro h
    obtain ⟨c, -, hc⟩ := List.mem_flatMap.1 h
    exact not_mem_annotationChar.1 hc
  · intro h
    obtain ⟨c, -, hc⟩ := List.mem_flatMap.1 h
    exact not_mem_annotationChar.2 hc

/-- A message is written on one line, character by character, and can be read back from there; so
different messages are written differently. -/
theorem annotationMessage_reversible (message : String) :
    '\r' ∉ (annotationMessage message).toList ∧ '\n' ∉ (annotationMessage message).toList ∧
      annotationMessage message = String.ofList (message.toList.flatMap annotationChar) ∧
      unescapedChars (annotationMessage message).toList = message.toList ∧
      ∀ other, annotationMessage other = annotationMessage message ↔ other = message := by
  have hchars := toList_annotationMessage message
  obtain ⟨hreturn, hnewline⟩ := not_mem_escapedChars message.toList
  refine ⟨hchars ▸ hreturn, hchars ▸ hnewline, ?_, ?_, ?_⟩
  · rw [← escapedChars, ← hchars, String.ofList_toList]
  · rw [hchars, unescapedChars_escapedChars]
  · intro other
    exact ⟨annotationMessage_inj, congrArg annotationMessage⟩

/-- A message that looks escaped is escaped once more, and the ends of lines do not get in between. -/
example : annotationMessage "100%0A\r\n%25" = "100%250A%0D%0A%2525" := by decide +kernel

/-- No escape has a comma in it. -/
theorem eq_comma_of_mem_annotationChar {c : Char} (h : ',' ∈ annotationChar c) : c = ',' := by
  by_contra hne
  unfold annotationChar at h
  split at h <;> simp at h
  exact hne h.symm

/-- What stands before a comma of an escaped message is the escape of a part of it. -/
theorem exists_of_escapedChars_eq {cs before after : List Char}
    (h : escapedChars cs = before ++ ',' :: after) : ∃ part, before = escapedChars part := by
  induction cs generalizing before with
  | nil => simp [escapedChars] at h
  | cons c cs ih =>
    have hcons : annotationChar c ++ escapedChars cs = before ++ ',' :: after := h
    rcases List.append_eq_append_iff.1 hcons with ⟨rest, hbefore, hrest⟩ | ⟨rest, hchar, hrest⟩
    · obtain ⟨part, rfl⟩ := ih hrest
      exact ⟨c :: part, hbefore⟩
    · cases rest with
      | nil =>
        rw [List.append_nil] at hchar
        exact ⟨[c], by simp [escapedChars, hchar]⟩
      | cons d rest =>
        -- the comma is a character of its own, so nothing stands before it
        obtain ⟨rfl, -⟩ := List.cons.inj hrest
        obtain rfl : c = ',' := eq_comma_of_mem_annotationChar (by simp [hchar])
        have hone : [','] = before ++ ',' :: rest := hchar
        cases before with
        | nil => exact ⟨[], rfl⟩
        | cons d before => simp at hone

/-! ## Markers -/

/-- What stands in an annotation between the path and the message. -/
def marker (line column : Nat) : String :=
  ",line=" ++ toString line ++ ",col=" ++ toString column ++ "::"

theorem annotation_eq (path : String) (f : Finding) :
    annotation path f = "::" ++ f.severity.text ++ " file=" ++
      (path ++ (marker f.place.line f.place.column ++ annotationMessage f.message)) := by
  unfold annotation marker
  simp only [String.append_assoc]

/-- The characters of a marker: two commas, each followed by a letter of its own. -/
theorem toList_marker (line column : Nat) :
    (marker line column).toList =
      ',' :: ("line=".toList ++ Nat.toDigits 10 line ++
        ',' :: ("col=".toList ++ Nat.toDigits 10 column ++ [':', ':'])) := by
  simp [marker, Nat.toList_repr]

/-- A text ends at the first delimiter. -/
theorem append_delimiter_inj {c : Char} {a b s t : List Char} (ha : c ∉ a) (hb : c ∉ b)
    (h : a ++ c :: s = b ++ c :: t) : a = b ∧ s = t := by
  have hsplit : Text.splitFirst c (a ++ c :: s) = some (a, s) := Text.splitFirst_append_cons ha s
  rw [h, Text.splitFirst_append_cons hb] at hsplit
  obtain ⟨hfirst, hrest⟩ := Prod.mk.inj (Option.some.inj hsplit)
  exact ⟨hfirst.symm, hrest.symm⟩

/-- A marker says which line and which column it is for, whatever follows it. -/
theorem marker_append_inj {line line' column column' : Nat} {s t : List Char}
    (h : (marker line column).toList ++ s = (marker line' column').toList ++ t) :
    line = line' ∧ column = column' ∧ s = t := by
  have hdigits (n : Nat) {c : Char} (hc : c.isDigit = false) : c ∉ Nat.toDigits 10 n :=
    (Text.writes_toDigits n).not_mem hc
  have hvalue {n m : Nat} (heq : Nat.toDigits 10 n = Nat.toDigits 10 m) : n = m := by
    have hn := Nat.ofDigitChars_ten_toDigits (n := n)
    rwa [heq, Nat.ofDigitChars_ten_toDigits, eq_comm] at hn
  simp only [toList_marker, List.append_assoc, List.cons_append, List.nil_append, List.cons.injEq,
    List.append_cancel_left_eq, true_and] at h
  obtain ⟨hline, hrest⟩ := append_delimiter_inj (hdigits line rfl) (hdigits line' rfl) h
  rw [List.append_cancel_left_eq] at hrest
  obtain ⟨hcolumn, hrest⟩ := append_delimiter_inj (hdigits column rfl) (hdigits column' rfl) hrest
  exact ⟨hvalue hline, hvalue hcolumn, (List.cons.inj hrest).2⟩

/-- No marker starts inside another one: the second comma of a marker starts no marker. -/
theorem marker_not_inside {line line' column column' : Nat} {a b s t : List Char}
    (ha : a ≠ []) (hb : b ≠ []) (hab : (marker line column).toList = a ++ b) :
    b ++ s ≠ (marker line' column').toList ++ t := by
  intro h
  have hdigits (n : Nat) : ',' ∉ Nat.toDigits 10 n := (Text.writes_toDigits n).not_mem rfl
  obtain ⟨c, a, rfl⟩ := List.exists_cons_of_ne_nil ha
  obtain ⟨d, b, rfl⟩ := List.exists_cons_of_ne_nil hb
  rw [toList_marker] at h
  obtain ⟨rfl, h⟩ := List.cons.inj h
  rw [toList_marker] at hab
  obtain ⟨-, hab⟩ := List.cons.inj hab
  -- the marker has one comma behind its first character, and it is followed by `col`
  have hline : ',' ∉ "line=".toList ++ Nat.toDigits 10 line := by
    simp [hdigits]
  have hcolumn : ',' ∉ "col=".toList ++ Nat.toDigits 10 column ++ [':', ':'] := by
    simp [hdigits]
  obtain ⟨-, -, rfl⟩ := (List.append_cons_inj_of_notMem hline hcolumn).1 hab
  simp at h

/-- A text that starts with a marker and has one behind `a` has the same one there, or `a` starts
with the first. -/
theorem marker_append_eq {line line' column column' : Nat} {a s t : List Char}
    (h : (marker line column).toList ++ s = a ++ ((marker line' column').toList ++ t)) :
    (a = [] ∧ line = line' ∧ column = column' ∧ s = t) ∨
      ∃ r, a = (marker line column).toList ++ r ∧ s = r ++ ((marker line' column').toList ++ t) := by
  by_cases ha : a = []
  · subst ha
    rw [List.nil_append] at h
    exact Or.inl ⟨rfl, marker_append_inj h⟩
  · right
    rcases List.append_eq_append_iff.1 h with hinside | ⟨b, hb, ht⟩
    · exact hinside
    · by_cases hnil : b = []
      · subst hnil
        rw [List.append_nil] at hb
        rw [List.nil_append] at ht
        exact ⟨[], by rw [hb, List.append_nil], by rw [ht, List.nil_append]⟩
      · exact absurd ht.symm (marker_not_inside ha hnil hb)

/-! ## Annotations -/

/-- The path goes on behind `start` like an annotation: with a marker and an escaped message. -/
def GoesOn (start path : String) : Prop :=
  ∃ line column message, path = start ++ (marker line column ++ annotationMessage message)

/-- Two annotations of one severity are equal only if all they say is, or if one of the paths goes
on like the other annotation. -/
theorem eq_or_goesOn {p q m n : String} {line line' column column' : Nat} {rest : List Char}
    (hq : q.toList = p.toList ++ rest)
    (h : (marker line column).toList ++ escapedChars m.toList =
      rest ++ ((marker line' column').toList ++ escapedChars n.toList)) :
    (p = q ∧ line = line' ∧ column = column' ∧ m = n) ∨ GoesOn p q := by
  rcases marker_append_eq h with ⟨rfl, hline, hcolumn, hmessage⟩ | ⟨r, rfl, hmessage⟩
  · left
    rw [List.append_nil] at hq
    rw [← toList_annotationMessage, ← toList_annotationMessage] at hmessage
    exact ⟨(String.toList_inj.1 hq).symm, hline, hcolumn,
      annotationMessage_inj (String.toList_inj.1 hmessage)⟩
  · right
    rw [toList_marker, List.cons_append] at hmessage
    obtain ⟨part, rfl⟩ := exists_of_escapedChars_eq hmessage
    refine ⟨line, column, String.ofList part, ?_⟩
    apply String.toList_inj.1
    simp only [hq, String.toList_append, toList_annotationMessage, String.toList_ofList]

theorem severity_eq_of_annotation_eq {p q : String} {f g : Finding}
    (h : annotation p f = annotation q g) : f.severity = g.severity := by
  rw [annotation_eq, annotation_eq, ← String.toList_inj] at h
  simp only [String.toList_append, List.append_assoc, List.append_cancel_left_eq] at h
  -- the names of the severities differ in their first letter
  cases hf : f.severity <;> cases hg : g.severity
  · rfl
  · simp [hf, hg, Severity.text] at h
  · simp [hf, hg, Severity.text] at h
  · rfl

/-- For findings in the files of given paths, annotations are unambiguous if and only if none of the
paths goes on like an annotation where another one of them ends. -/
theorem annotation_unambiguous_iff (paths : Set String) :
    (∀ p ∈ paths, ∀ q ∈ paths, ∀ f g : Finding, annotation p f = annotation q g →
      p = q ∧ f.severity = g.severity ∧ f.place.line = g.place.line ∧
        f.place.column = g.place.column ∧ f.message = g.message) ↔
    ∀ p ∈ paths, ∀ q ∈ paths, ¬ GoesOn p q := by
  constructor
  · rintro hinj p hp q hq ⟨line, column, message, hgoes⟩
    -- the end of the longer path and its own marker can as well be the end of a message
    let f : Finding := ⟨⟨0, line, column⟩, .error, message ++ marker 1 1, "", []⟩
    let g : Finding := ⟨⟨0, 1, 1⟩, .error, "", "", []⟩
    have hmarker : annotationMessage (marker 1 1) = marker 1 1 := by decide +kernel
    have hempty : annotationMessage "" = "" := rfl
    have heq : annotation p f = annotation q g := by
      simp only [annotation_eq, f, g, hgoes, annotationMessage_append, hmarker, hempty,
        String.append_assoc, String.append_empty]
    have hpq := (hinj p hp q hq f g heq).1
    have hlength := congrArg (fun s => s.toList.length) (hpq.trans hgoes)
    simp [toList_marker] at hlength
  · intro hgoes p hp q hq f g h
    have hseverity := severity_eq_of_annotation_eq h
    rw [annotation_eq, annotation_eq, hseverity, ← String.toList_inj] at h
    simp only [String.toList_append, List.append_cancel_left_eq, toList_annotationMessage] at h
    -- the longer of the two paths starts with the other one
    rcases List.append_eq_append_iff.1 h with ⟨rest, hrest, h⟩ | ⟨rest, hrest, h⟩
    · obtain ⟨hpath, hline, hcolumn, hmessage⟩ :=
        (eq_or_goesOn hrest h).resolve_right (hgoes p hp q hq)
      exact ⟨hpath, hseverity, hline, hcolumn, hmessage⟩
    · obtain ⟨hpath, hline, hcolumn, hmessage⟩ :=
        (eq_or_goesOn hrest h).resolve_right (hgoes q hq p hp)
      exact ⟨hpath.symm, hseverity, hline.symm, hcolumn.symm, hmessage.symm⟩

/-- The end of a path is taken for the start of a message. -/
theorem annotation_ambiguous :
    let f : Finding := ⟨⟨4, 1, 15⟩, .error, "b.php,line=2,col=9::c", "InvalidDirectiveFound", []⟩
    let g : Finding := ⟨⟨4, 2, 9⟩, .error, "c", "InvalidDirectiveFound", []⟩
    annotation "a.php" f = annotation "a.php,line=1,col=15::b.php" g ∧
      "a.php" ≠ "a.php,line=1,col=15::b.php" ∧ f.place.line ≠ g.place.line ∧
      f.place.column ≠ g.place.column ∧ f.message ≠ g.message := by
  decide +kernel

end Vintage.Report
