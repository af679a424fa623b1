import Mathlib.Data.Finset.Card
import Vintage.Proofs.LetterCase
import Vintage.Proofs.RangeSyntax

/-!
# Sets of names after any history

A set of names is made from a text or a list, which replaces what it had, and names are added to it
one by one or many at a time. Whatever the history, the set has the normal forms of the names that
were added since it was last replaced, each once and without the empty one. All that can be asked
of it follows from that.

Results:
* `NameSet.lists_after`: the names in the set after a history.
* `NameSet.normalForm_respelling`: blanks, backslashes and letter case that the normal form is
  without.
* `NameSet.after_exact`: what the set contains, how many names it has, and what does not matter.
-/

namespace Vintage

/-! ## Texts with blanks around them -/

namespace Text

/-- Blanks around a text are trimmed, also where the text is itself blank. -/
theorem trimChars_append {before after : List Char} (hbefore : ∀ c ∈ before, isBlank c = true)
    (hafter : ∀ c ∈ after, isBlank c = true) (cs : List Char) :
    trimChars (before ++ cs ++ after) = trimChars cs := by
  have hreverse : ∀ c ∈ after.reverse, isBlank c = true :=
    fun c hc => hafter c (List.mem_reverse.1 hc)
  rw [trimChars, trimChars, List.append_assoc, List.dropWhile_append_of_pos hbefore,
    List.dropWhile_append]
  split
  · rename_i hblank
    have hnone : after.dropWhile isBlank = [] := by
      rw [← List.append_nil after, List.dropWhile_append_of_pos hafter, List.dropWhile_nil]
    rw [hnone, List.isEmpty_iff.1 hblank]
  · rw [List.reverse_append, List.dropWhile_append_of_pos hreverse]

end Text

namespace NameSet

/-! ## Histories -/

/-- A change of a set of names. -/
inductive Step where
  /-- the names between the commas of a text, in place of those there were -/
  | parse (text : String)
  /-- the given names, in place of those there were -/
  | collect (names : List String)
  /-- one more name -/
  | insert (name : String)
  /-- more names -/
  | extend (names : List String)

namespace Step

/-- The names there were are gone after the step. -/
def replaces : Step → Bool
  | parse _ | collect _ => true
  | insert _ | extend _ => false

/-- The names that come with the step. -/
def names : Step → List String
  | parse text => (text.toList.splitOn ',').map String.ofList
  | insert name => [name]
  | collect names | extend names => names

/-- The set after the step. -/
def apply (set : NameSet) : Step → NameSet
  | parse text => ofText text
  | collect names => ofList names
  | insert name => set.insert name
  | extend names => set.insertAll names

end Step

/-- The set after some steps, the first of them taken with no names. -/
def after (steps : List Step) : NameSet := steps.foldl Step.apply {}

/-- The names added since the last step that replaces: those of each step with no such step behind
it. -/
def added : List Step → List String
  | [] => []
  | step :: later =>
    if later.any Step.replaces then added later else step.names ++ added later

/-- The different normal forms of some names; the empty one does not count. -/
def formsOf (names : List String) : Finset String := (names.map normalForm).toFinset.erase ""

theorem mem_formsOf {names : List String} {form : String} :
    form ∈ formsOf names ↔ form ≠ "" ∧ ∃ name ∈ names, normalForm name = form := by
  rw [formsOf, Finset.mem_erase, List.mem_toFinset, List.mem_map]

theorem formsOf_congr {names others : List String} (h : ∀ name, name ∈ names ↔ name ∈ others) :
    formsOf names = formsOf others := by
  ext form
  simp only [mem_formsOf, h]

/-! ## What a step does -/

/-- The set has the normal forms of the names, each once. -/
structure Lists (set : NameSet) (names : List String) : Prop where
  nodup : set.names.Nodup
  forms : set.names.toFinset = formsOf names

namespace Lists

variable {set other : NameSet} {names others : List String}

theorem mem_iff (h : set.Lists names) {form : String} :
    form ∈ set.names ↔ form ≠ "" ∧ ∃ name ∈ names, normalForm name = form := by
  rw [← List.mem_toFinset, h.forms, mem_formsOf]

theorem empty : Lists {} [] := ⟨List.nodup_nil, rfl⟩

theorem insert (h : set.Lists names) (name : String) :
    (set.insert name).Lists (names ++ [name]) := by
  have hforms (form : String) : form ∈ formsOf (names ++ [name]) ↔
      form ∈ set.names ∨ form ≠ "" ∧ normalForm name = form := by
    rw [mem_formsOf, h.mem_iff, ← and_or_left]
    simp [or_and_right, exists_or]
  simp only [NameSet.insert]
  split
  · -- the form is empty or listed already
    rename_i hknown
    rw [Bool.or_eq_true, String.isEmpty_iff, List.contains_iff_mem] at hknown
    refine ⟨h.nodup, Finset.ext fun form => ?_⟩
    rw [List.mem_toFinset, hforms, iff_self_or]
    rintro ⟨hne, rfl⟩
    exact hknown.resolve_left hne
  · rename_i hnew
    rw [Bool.or_eq_true, String.isEmpty_iff, List.contains_iff_mem, not_or] at hnew
    refine ⟨?_, Finset.ext fun form => ?_⟩
    · rw [← List.concat_eq_append, List.nodup_concat]
      exact ⟨hnew.2, h.nodup⟩
    · rw [List.mem_toFinset, hforms, List.mem_append, List.mem_singleton]
      refine or_congr_right ⟨?_, fun hform => hform.2.symm⟩
      rintro rfl
      exact ⟨hnew.1, rfl⟩

theorem insertAll (h : set.Lists names) (more : List String) :
    (set.insertAll more).Lists (names ++ more) := by
  induction more generalizing set names with
  | nil => rwa [List.append_nil]
  | cons name more ih =>
    rw [NameSet.insertAll, List.foldl_cons, List.append_cons]
    exact ih (h.insert name)

theorem ofList (names : List String) : (ofList names).Lists names := empty.insertAll names

/-- A step adds its names to those that it leaves. -/
theorem apply (h : set.Lists names) (step : Step) :
    (step.apply set).Lists ((if step.replaces then [] else names) ++ step.names) := by
  cases step with
  | parse text =>
    show (ofText text).Lists ((text.toList.splitOn ',').map String.ofList)
    rw [ofText, Text.splitOn_eq_splitOnP]
    exact ofList _
  | collect names => exact ofList names
  | insert name => exact h.insert name
  | extend more => exact h.insertAll more

/-- Steps taken with a set that has some names. -/
theorem foldl (h : set.Lists names) (steps : List Step) :
    (steps.foldl Step.apply set).Lists
      ((if steps.any Step.replaces then [] else names) ++ added steps) := by
  induction steps generalizing set names with
  | nil => simpa [added] using h
  | cons step later ih =>
    have hlater := ih (h.apply step)
    rw [List.foldl_cons, List.any_cons, added]
    -- a later step that replaces leaves nothing of the names so far
    cases hany : later.any Step.replaces <;> simpa [hany] using hlater

/-! ## What can be asked -/

theorem contains_iff (h : set.Lists names) (name : String) :
    set.contains name = true ↔
      normalForm name ≠ "" ∧ ∃ listed ∈ names, normalForm listed = normalForm name := by
  rw [contains, List.contains_iff_mem, h.mem_iff]

theorem size_eq (h : set.Lists names) : set.size = (formsOf names).card := by
  rw [← h.forms, List.toFinset_card_of_nodup h.nodup, size]

theorem perm (h : set.Lists names) (h' : other.Lists others)
    (hforms : formsOf names = formsOf others) : set.names.Perm other.names :=
  List.perm_of_nodup_nodup_toFinset_eq h.nodup h'.nodup (by rw [h.forms, h'.forms, hforms])

end Lists

/-- After any history the set has the names that were added since it was last replaced. -/
theorem lists_after (steps : List Step) : (after steps).Lists (added steps) := by
  simpa [after] using Lists.empty.foldl steps

/-! ## Spellings -/

/-- The name starts with neither a blank nor a backslash, and does not end with a blank. -/
structure Bare (name : String) : Prop where
  start_blank : ∀ c ∈ name.toList.head?, Text.isBlank c = false
  start_backslash : ∀ c ∈ name.toList.head?, c ≠ '\\'
  end_blank : ∀ c ∈ name.toList.getLast?, Text.isBlank c = false

/-- A way to write a name: with blanks around it, with backslashes after the first of these, and
with the letters `A` to `Z` in either case. -/
structure Respelling (name : String) where
  before : List Char
  backslashes : Nat
  letters : String
  after : List Char
  blank_before : ∀ c ∈ before, Text.isBlank c = true
  blank_after : ∀ c ∈ after, Text.isBlank c = true
  same : Text.sameLetters letters name = true

/-- The name as it is written. -/
def Respelling.text {name : String} (r : Respelling name) : String :=
  String.ofList
    (r.before ++ (List.replicate r.backslashes '\\' ++ r.letters.toList) ++ r.after)

theorem Bare.normalForm_eq {name : String} (h : Bare name) (before after : List Char)
    (hbefore : ∀ c ∈ before, Text.isBlank c = true) (hafter : ∀ c ∈ after, Text.isBlank c = true)
    (backslashes : Nat) :
    normalForm (String.ofList
      (before ++ (List.replicate backslashes '\\' ++ name.toList) ++ after)) =
        Text.lowerText name := by
  have htrim : Text.trimChars (List.replicate backslashes '\\' ++ name.toList) =
      List.replicate backslashes '\\' ++ name.toList := by
    have hblank {c : Char} (hc : c ∈ List.replicate backslashes '\\') : Text.isBlank c = false := by
      rw [List.eq_of_mem_replicate hc]
      decide
    refine Text.trimChars_eq_self_of_ends ?_ ?_
    · intro c hc
      rw [List.head?_append, Option.mem_def, Option.or_eq_some_iff] at hc
      rcases hc with hc | ⟨-, hc⟩
      · exact hblank (List.mem_of_head? hc)
      · exact h.start_blank c hc
    · intro c hc
      rw [List.getLast?_append, Option.mem_def, Option.or_eq_some_iff] at hc
      rcases hc with hc | ⟨-, hc⟩
      · exact h.end_blank c hc
      · exact hblank (List.mem_of_getLast? hc)
  rw [normalForm, Text.trim, String.toList_ofList, Text.trimChars_append hbefore hafter, htrim,
    Text.dropBackslashes, String.toList_ofList, Text.dropWhile_backslashes h.start_backslash,
    String.ofList_toList]

/-- However a name is written, its normal form is the same. -/
theorem normalForm_respelling {name : String} (h : Bare name) (r : Respelling name) :
    normalForm r.text = normalForm name := by
  have hletters : Text.lowerChars r.letters.toList = Text.lowerChars name.toList :=
    eq_of_beq r.same
  -- in small letters, the spelling is one of the name as it stands
  have hlower : Text.lower r.text = Text.lower (String.ofList
      (r.before ++ (List.replicate r.backslashes '\\' ++ name.toList) ++ r.after)) := by
    simp only [Respelling.text, Text.lower_ofList, Text.lowerChars, List.map_append] at hletters ⊢
    rw [hletters]
  have hname : normalForm name = Text.lowerText name := by
    simpa using h.normalForm_eq [] [] (by simp) (by simp) 0
  rw [← normalForm_lower, hlower, normalForm_lower, hname]
  exact h.normalForm_eq r.before r.after r.blank_before r.blank_after r.backslashes

/-! ## Sets after any history -/

/-- After any history, a name is in the set if and only if it has a normal form and shares it with a
name added since the set was last replaced; there are as many names as normal forms were added.
In which order, how often and by which steps they were added does not matter, nor how the name
asked for is written. -/
theorem after_exact (steps : List Step) :
    (∀ name, (after steps).contains name = true ↔
      normalForm name ≠ "" ∧ ∃ listed ∈ added steps, normalForm listed = normalForm name) ∧
    (after steps).size = (formsOf (added steps)).card ∧
    (∀ steps', (∀ name, name ∈ added steps' ↔ name ∈ added steps) →
      (after steps').names.Perm (after steps).names ∧
        (after steps').size = (after steps).size ∧
          ∀ name, (after steps').contains name = (after steps).contains name) ∧
    ∀ name, Bare name → ∀ r : Respelling name,
      (after steps).contains r.text = (after steps).contains name := by
  have hsteps := lists_after steps
  refine ⟨hsteps.contains_iff, hsteps.size_eq, ?_, ?_⟩
  · intro steps' hadded
    have hperm := (lists_after steps').perm hsteps (formsOf_congr hadded)
    refine ⟨hperm, hperm.length_eq, fun name => ?_⟩
    rw [contains, contains, hperm.contains_eq]
  · intro name hname r
    rw [contains, normalForm_respelling hname r, contains]

/-- A text with a name twice and an empty piece replaces a name; then names come of which one has no
normal form, one a longer one and one a final sigma. -/
theorem after_exact_replaced :
    let steps : List Step :=
      [.insert "old", .parse "\\Mysql_Query,, MYSQL_QUERY", .extend ["İd", "\\\\"], .insert "ΟΔΟΣ"]
    let steps' : List Step :=
      [.collect ["ΟΔΟΣ", "", "\\\\", " MYSQL_QUERY"], .extend ["\\Mysql_Query", "İd", "ΟΔΟΣ"]]
    let r : Respelling "mysql_query" :=
      { before := ['\t', '\u00a0'], backslashes := 2, letters := "MySQL_query", after := ['\n'],
        blank_before := List.all_eq_true.1 (by decide),
        blank_after := List.all_eq_true.1 (by decide), same := by decide }
    (∀ name, name ∈ added steps' ↔ name ∈ added steps) ∧ Bare "mysql_query" ∧
      r.text = "\t\u00a0\\\\MySQL_query\n" ∧ (after steps).contains r.text = true ∧
      (after steps).contains "old" = false ∧ (after steps').size = 3 := by
  intro steps steps' r
  have hadded : added steps = ["\\Mysql_Query", "", " MYSQL_QUERY", "İd", "\\\\", "ΟΔΟΣ"] := by
    decide +kernel
  have hadded' : added steps' =
      ["ΟΔΟΣ", "", "\\\\", " MYSQL_QUERY", "\\Mysql_Query", "İd", "ΟΔΟΣ"] := by
    decide +kernel
  have hsame : ∀ name, name ∈ added steps' ↔ name ∈ added steps := by
    intro name
    rw [hadded, hadded', ← List.mem_toFinset, ← List.mem_toFinset]
    exact Finset.ext_iff.1 (by decide +kernel) name
  have hbare : Bare "mysql_query" := ⟨by simp [Text.isBlank], by simp, by simp [Text.isBlank]⟩
  obtain ⟨hcontains, hsize, hothers, hspelling⟩ := after_exact steps
  refine ⟨hsame, hbare, by decide +kernel, ?_, ?_, ?_⟩
  · rw [hspelling _ hbare r, hcontains, hadded]
    exact ⟨by decide +kernel, "\\Mysql_Query", by simp, by decide +kernel⟩
  · rw [Bool.eq_false_iff, Ne, hcontains, hadded]
    decide +kernel
  · rw [(hothers steps' hsame).2.1, hsize, hadded]
    decide +kernel

end NameSet

end Vintage
