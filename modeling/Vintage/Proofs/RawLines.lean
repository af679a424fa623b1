import Vintage.Proofs.MessageTexts
import Vintage.Proofs.RuleChoice
import Vintage.Proofs.VersionSyntax
import Vintage.Report.Format

/-!
# Findings on one line

A raw report has a line for each finding. The messages are made of texts of the tables, which have
no line breaks, and of what is quoted from the source, which may have them: the name of a directive
can be a string literal, and its value is quoted with the layout inside. So a finding takes one line
if and only if what it quotes does.

Results:
* `Check.oneLine_of_words`: a finding that shows texts of the tables takes one line.
* `Rule.textsOneLine_of_mem_checks`: no text of the tables has a line break.
* `Check.oneLine_quotingFinding_iff`: a finding that quotes takes one line if the quotation does.
* `Rule.rawLines_iff`: when a raw report has a line for each finding.
* `Rule.rawLine_broken`: a finding on two lines.
-/

namespace Vintage

/-! ## Texts without line breaks -/

namespace Text

/-- The text has no line break in it. -/
def OneLine (s : String) : Prop := '\n' ∉ s.toList

theorem oneLine_of_bytes {s : String} (h : 10 ∉ s.toByteArray.data.toList) : OneLine s := by
  intro hmem
  apply h
  rw [← String.utf8Encode_toList, List.utf8Encode, List.toList_data_toByteArray]
  exact List.mem_flatMap.2 ⟨'\n', hmem, by decide⟩

-- the bytes of a text are computed faster than its characters
instance : DecidablePred OneLine := fun s =>
  if h : 10 ∉ s.toByteArray.data.toList then isTrue (oneLine_of_bytes h)
  else inferInstanceAs (Decidable ('\n' ∉ s.toList))

@[simp] theorem oneLine_append_iff {s t : String} : OneLine (s ++ t) ↔ OneLine s ∧ OneLine t := by
  unfold OneLine
  rw [String.toList_append, List.mem_append, not_or]

theorem oneLine_toString (n : Nat) : OneLine (toString n) := by
  show '\n' ∉ n.repr.toList
  rw [Nat.toList_repr]
  exact (writes_toDigits n).not_mem rfl

theorem oneLine_joinWith {sep : String} {parts : List String} (hsep : OneLine sep)
    (hparts : ∀ part ∈ parts, OneLine part) : OneLine (joinWith sep parts) := by
  fun_induction joinWith sep parts with
  | case1 => decide
  | case2 s => exact hparts s List.mem_cons_self
  | case3 s rest _ ih =>
    obtain ⟨hs, hrest⟩ := List.forall_mem_cons.1 hparts
    simp [hs, hsep, ih hrest]

end Text

open Text (OneLine)

theorem Version.oneLine_text (v : Version) : OneLine v.text := by
  have hnumber (n : UInt16) : OneLine n.toNat.repr := Text.oneLine_toString n.toNat
  have hdot : OneLine "." := by decide
  unfold text
  split <;> simp [hnumber, hdot]

theorem Template.oneLine_fill {template : String} {values : List String}
    (htemplate : OneLine template) (hvalues : ∀ value ∈ values, OneLine value) :
    OneLine (fill template values) := by
  have hfill {cs : List Char} {values : List String} (hcs : '\n' ∉ cs)
      (hvalues : ∀ value ∈ values, OneLine value) : '\n' ∉ fillChars cs values := by
    fun_induction fillChars cs values with
    | case1 rest value values ih =>
      obtain ⟨hvalue, hvalues⟩ := List.forall_mem_cons.1 hvalues
      have hrest : '\n' ∉ rest := fun hmem => hcs (by simp [hmem])
      exact List.not_mem_append hvalue (ih hrest hvalues)
    | case2 rest ih =>
      have hrest : '\n' ∉ rest := fun hmem => hcs (by simp [hmem])
      simpa using ih hrest hvalues
    | case3 values c rest _ _ ih =>
      rw [List.mem_cons, not_or] at hcs ⊢
      exact ⟨hcs.1, ih hcs.2 hvalues⟩
    | case4 => exact hcs
  unfold OneLine fill
  rw [String.toList_ofList]
  exact hfill htemplate hvalues

/-! ## Findings that show texts of the tables -/

namespace Wording

variable {w : Wording} {place : Place} {name display : String} {alternative : Option String}
  {v : Verdict} {d : Finding}

theorem oneLine_introduction? (hsubject : OneLine w.subject) (hdisplay : OneLine display)
    (hoption : ∀ version option, v.conditionalIn = some (version, option) → OneLine option)
    (h : w.introduction? place name display v = some d) : OneLine d.message := by
  unfold introduction? at h
  split at h
  · cases h
    apply Template.oneLine_fill
    · simp only [Text.oneLine_append_iff]
      exact ⟨hsubject, by decide⟩
    · simp [hdisplay, Version.oneLine_text]
  · rename_i version option _ hconditional
    cases h
    apply Template.oneLine_fill
    · simp only [Text.oneLine_append_iff]
      exact ⟨⟨hsubject, by decide⟩, by decide⟩
    · simp [hdisplay, Version.oneLine_text, hoption version option hconditional]
  · cases h

theorem mem_withdrawalParts {part : String × Version × String} (h : part ∈ withdrawalParts v) :
    part.1 = "deprecated since PHP %s" ∨ part.1 = "removed since PHP %s" := by
  unfold withdrawalParts at h
  rcases List.mem_append.1 h with h | h
  · obtain ⟨version, -, rfl⟩ := Option.map_eq_some_iff.1 (Option.mem_toList.1 h)
    exact Or.inl rfl
  · obtain ⟨version, -, rfl⟩ := Option.map_eq_some_iff.1 (Option.mem_toList.1 h)
    exact Or.inr rfl

theorem oneLine_withdrawal? (hsubject : OneLine w.subject) (hdisplay : OneLine display)
    (halternative : ∀ text, alternative = some text → OneLine text)
    (h : w.withdrawal? place name display alternative v = some d) : OneLine d.message := by
  unfold withdrawal? at h
  split at h
  case isFalse => cases h
  case isTrue =>
    cases h
    have hphrases : OneLine (Text.joinWith " and " ((withdrawalParts v).map (·.1))) := by
      apply Text.oneLine_joinWith (by decide)
      intro phrase hphrase
      obtain ⟨part, hpart, rfl⟩ := List.mem_map.1 hphrase
      rcases mem_withdrawalParts hpart with hphrase | hphrase
      · rw [hphrase]
        decide
      · rw [hphrase]
        decide
    have hend : OneLine (if alternative.isSome then "; Use %s instead" else "") := by
      split <;> decide
    apply Template.oneLine_fill
    · simp only [Text.oneLine_append_iff]
      exact ⟨⟨⟨hsubject, by decide⟩, hphrases⟩, hend⟩
    · intro value hvalue
      simp only [List.cons_append, List.mem_cons, List.mem_append, List.mem_map,
        Option.mem_toList] at hvalue
      rcases hvalue with rfl | ⟨part, -, rfl⟩ | hvalue
      · exact hdisplay
      · exact Version.oneLine_text _
      · exact halternative value hvalue

theorem oneLine_of_mem_findings (hsubject : OneLine w.subject) (hdisplay : OneLine display)
    (halternative : ∀ text, alternative = some text → OneLine text)
    (hoption : ∀ version option, v.conditionalIn = some (version, option) → OneLine option)
    (h : d ∈ w.findings place name display alternative v) : OneLine d.message := by
  rcases List.mem_append.1 h with h | h
  · exact oneLine_introduction? hsubject hdisplay hoption (Option.mem_toList.1 h)
  · exact oneLine_withdrawal? hsubject hdisplay halternative (Option.mem_toList.1 h)

end Wording

namespace Check

/-- The texts that the messages of a check are made of have no line breaks. -/
structure TextsOneLine (c : Check) : Prop where
  subject : OneLine c.wording.subject
  features : ∀ f ∈ c.catalogue.features, ∀ text, f.Shows text → OneLine text

/-- A finding that shows texts of the tables takes one line. -/
theorem oneLine_of_words {c : Check} (hc : c.TextsOneLine) {d : Finding} (h : c.Words d) :
    OneLine d.message := by
  obtain ⟨f, hf, range, v, place, name, display, hv, hdisplay, e, he, hmessage⟩ := h
  have htexts := hc.features f hf
  rw [← hmessage]
  apply Wording.oneLine_of_mem_findings hc.subject (htexts display hdisplay) _ _ he
  · intro text halternative
    exact htexts text (.alternative halternative)
  · intro version option hconditional
    exact htexts option (Feature.shows_of_conditionalIn hv hconditional)

/-! ## The tables -/

/-- The messages of a check take one line if the rows of its table have no line breaks. -/
theorem textsOneLine_of_rows {α : Type} {c : Check} (rows : List α) (name : α → String)
    (entries : α → List Feature.Entry)
    (hc : c.catalogue =
      .ofTable (rows.mapM fun row => Feature.ofEntries (name row) (entries row)))
    (hsubject : OneLine c.wording.subject)
    (hrows : ∀ row ∈ rows,
      OneLine (name row) ∧ ∀ e ∈ entries row, ∀ text ∈ e.texts, OneLine text) :
    c.TextsOneLine := by
  refine ⟨hsubject, ?_⟩
  intro f hf text htext
  rw [hc] at hf
  cases htable : rows.mapM fun row => Feature.ofEntries (name row) (entries row) with
  | error e =>
    rw [htable] at hf
    cases hf
  | ok features =>
    have hmem : f ∈ features := by
      rw [htable] at hf
      simpa [Catalogue.ofTable, Catalogue.features, Catalogue.ofFeatures] using hf
    obtain ⟨row, hrow, hok⟩ := Feature.exists_of_mapM htable f hmem
    obtain ⟨hname, hentries⟩ := hrows row hrow
    rcases Feature.mem_of_shows hok htext with rfl | ⟨e, he, hmem⟩
    · exact hname
    · exact hentries e he text hmem

end Check

/-- No text of the tables has a line break. -/
theorem Rule.textsOneLine_of_mem_checks {r : Rule} {c : Check} (h : c ∈ r.checks) :
    c.TextsOneLine := by
  cases r with
  | newFunctions | newConstants | newInterfaces =>
    obtain rfl := List.mem_singleton.1 h
    exact Check.textsOneLine_of_rows _ Feature.Introduction.name Feature.Introduction.entries rfl
      (by decide +kernel) (by decide +kernel)
  | removedFunctions | removedConstants | removedSettings =>
    obtain rfl := List.mem_singleton.1 h
    exact Check.textsOneLine_of_rows _ Feature.Withdrawal.name Feature.Withdrawal.entries rfl
      (by decide +kernel) (by decide +kernel)
  | newTypes =>
    rcases List.mem_cons.1 h with rfl | h
    · exact Check.textsOneLine_of_rows _ Feature.Introduction.name Feature.Introduction.entries rfl
        (by decide +kernel) (by decide +kernel)
    · obtain rfl := List.mem_singleton.1 h
      exact Check.textsOneLine_of_rows _ Feature.Introduction.name Feature.Introduction.entries rfl
        (by decide +kernel) (by decide +kernel)
  | removedExtensions =>
    obtain rfl := List.mem_singleton.1 h
    exact Check.textsOneLine_of_rows Check.extensionRows _ _ rfl
      (by decide +kernel) (by decide +kernel)
  | newKeywords =>
    obtain rfl := List.mem_singleton.1 h
    exact Check.textsOneLine_of_rows Check.keywordRows _ _ rfl
      (by decide +kernel) (by decide +kernel)
  | directives =>
    obtain rfl := List.mem_singleton.1 h
    exact Check.textsOneLine_of_rows _ Prod.fst Prod.snd rfl (by decide +kernel) (by decide +kernel)
  | removedModifiers =>
    obtain rfl := List.mem_singleton.1 h
    -- the one feature of this table is made without rows
    have htable : Check.evalModifier.map (fun f => [f]) =
        ["e"].mapM fun _ => Check.evalModifier := by
      cases Check.evalModifier <;> rfl
    exact Check.textsOneLine_of_rows ["e"] _ _ (congrArg Catalogue.ofTable htable)
      (by decide +kernel) (by decide +kernel)

/-! ## Findings that quote a directive -/

namespace Check

theorem oneLine_directives_name {f : Feature} (h : f ∈ directives.catalogue.features) :
    OneLine f.name := by
  have hc : directives.TextsOneLine :=
    Rule.textsOneLine_of_mem_checks (r := .directives) List.mem_cons_self
  exact hc.features f h f.name .name

theorem oneLine_unknownDirective_iff (l : Listing) (d : Directive) :
    OneLine (unknownDirective l d).message ↔ OneLine d.name := by
  have hnames : OneLine (Text.joinWith ", " (directives.catalogue.features.map Feature.name)) := by
    apply Text.oneLine_joinWith (by decide)
    intro name hname
    obtain ⟨f, hf, rfl⟩ := List.mem_map.1 hname
    exact oneLine_directives_name hf
  have hbefore : OneLine "Declare can only be used with the directives " := by decide +kernel
  have hbetween : OneLine ". Found: " := by decide +kernel
  rw [message_unknownDirective]
  simp [hnames, hbefore, hbetween]

theorem oneLine_invalidValue_iff (l : Listing) (d : Directive) {f : Feature}
    (hf : f ∈ directives.catalogue.features) :
    OneLine (invalidValue l d f).message ↔ OneLine d.value := by
  have hname := oneLine_directives_name hf
  have hbefore : OneLine "The execution directive " := by decide +kernel
  have hbetween : OneLine " does not seem to have a valid value. Please review. Found: " := by
    decide +kernel
  rw [message_invalidValue]
  simp [hname, hbefore, hbetween]

/-- A finding that quotes a part of a directive takes one line if and only if that part does. -/
theorem oneLine_quotingFinding_iff (l : Listing) (d : Directive) :
    (∀ f, quotingFinding? l d = some f → OneLine f.message) ↔
      ∀ text, quotation? d = some text → OneLine text := by
  unfold quotingFinding? quotation?
  cases hfind : directives.catalogue.find? d.name with
  | none => simp [oneLine_unknownDirective_iff]
  | some f =>
    have hmem := Catalogue.mem_features_of_find? hfind
    simp [oneLine_invalidValue_iff l d hmem]

theorem eq_of_quotation? {d : Directive} {text : String} (h : quotation? d = some text) :
    text = d.name ∨ text = d.value := by
  unfold quotation? at h
  split at h
  · exact Or.inl (Option.some.inj h).symm
  · split at h
    · exact Or.inr (Option.some.inj h).symm
    · cases h

/-- The names of the known directives. -/
def directiveNames : List String := ["ticks", "encoding", "strict_types"]

/-- A name that is none of the known ones is quoted. -/
theorem quotation?_of_not_known {d : Directive} (h : Catalogue.keyOf d.name ∉ directiveNames) :
    quotation? d = some d.name := by
  have hlower : ∀ name ∈ directiveNames, Text.lower name ∈ directiveNames := by decide +kernel
  unfold quotation?
  cases hfind : directives.catalogue.find? d.name with
  | none => rfl
  | some f =>
    obtain ⟨features, hrows, hmem, hkey⟩ := Catalogue.exists_of_find? hfind
    obtain ⟨row, hrow, hok⟩ := Feature.exists_of_mapM hrows f hmem
    have hname : f.name = row.1 := Feature.name_of_ofEntries hok
    have hknown : Catalogue.keyOf d.name ∈ directiveNames := by
      rw [← hkey, hname]
      exact hlower row.1 (List.mem_map_of_mem (f := Prod.fst) hrow)
    exact absurd hknown h

end Check

/-! ## Raw reports -/

theorem Report.oneLine_rawLine_iff {path : String} (hpath : OneLine path) (f : Finding) :
    OneLine (rawLine path f) ↔ OneLine f.message := by
  have hcolon : OneLine ":" := by decide
  have hline := Text.oneLine_toString f.place.line
  have hseverity : OneLine f.severity.text := by
    cases f.severity <;> decide
  unfold rawLine
  simp only [Text.oneLine_append_iff, hpath, hcolon, hline, hseverity, true_and]

namespace Rule

/-- The messages of a report take one line each if and only if the rule for directives is not
chosen, or it quotes no part of a directive with a line break in it. -/
theorem oneLine_findAll_iff (l : Listing) (t : Target) (chosen : List String) :
    (∀ f ∈ findAll l t chosen, OneLine f.message) ↔
      (Rule.directives.name ∈ chosen → ∀ d ∈ l.declared, ∀ text,
        Check.quotation? d = some text → OneLine text) := by
  constructor
  · intro h hchosen d hd
    rw [← Check.oneLine_quotingFinding_iff l]
    intro f hf
    exact h f (mem_findAll_iff.2 ⟨.directives, hchosen, mem_findings_of_quotes hd hf⟩)
  · intro h f hf
    obtain ⟨r, hr, hfound⟩ := mem_findAll_iff.1 hf
    rcases words_or_quotes hfound with ⟨c, hc, hwords⟩ | ⟨rfl, d, hd, hquotes⟩
    · exact Check.oneLine_of_words (textsOneLine_of_mem_checks hc) hwords
    · exact (Check.oneLine_quotingFinding_iff l d).2 (h hr d hd) f hquotes

/-- For a path without line breaks, each finding takes one line of a raw report if and only if the
rule for directives is not chosen, or it quotes no part of a directive with a line break in it. -/
theorem rawLines_iff (l : Listing) (t : Target) (chosen : List String) {path : String}
    (hpath : OneLine path) :
    (∀ f ∈ findAll l t chosen, OneLine (Report.rawLine path f)) ↔
      (Rule.directives.name ∈ chosen → ∀ d ∈ l.declared, ∀ text,
        Check.quotation? d = some text → OneLine text) := by
  rw [← oneLine_findAll_iff l t]
  apply forall₂_congr
  intro f _
  exact Report.oneLine_rawLine_iff hpath f

/-- The source has line breaks, but not in what is quoted. -/
theorem rawLines_iff_unknown :
    OneLine "a.php" ∧
      ∀ f ∈ findAll (Listing.ofText "<?php\ndeclare(async\n=\n1);\n") {} (all.map name),
        OneLine (Report.rawLine "a.php" f) := by
  have hpath : OneLine "a.php" := by decide
  refine ⟨hpath, (rawLines_iff _ _ _ hpath).2 ?_⟩
  intro _ d hd text htext
  have hparts : ∀ d ∈ (Listing.ofText "<?php\ndeclare(async\n=\n1);\n").declared,
      OneLine d.name ∧ OneLine d.value := by decide +kernel
  obtain ⟨hname, hvalue⟩ := hparts d hd
  rcases Check.eq_of_quotation? htext with rfl | rfl
  · exact hname
  · exact hvalue

/-- The name of a directive can be a string literal with a line break, and is quoted with it. -/
theorem rawLine_broken :
    ¬ ∀ f ∈ findAll (Listing.ofText "<?php declare('a\nb'=1);\n") {} [Rule.directives.name],
      OneLine (Report.rawLine "a.php" f) := by
  intro h
  have hpath : OneLine "a.php" := by decide
  simp only [Report.oneLine_rawLine_iff hpath, oneLine_findAll_iff] at h
  obtain ⟨d, hd, hname⟩ : ∃ d ∈ (Listing.ofText "<?php declare('a\nb'=1);\n").declared,
      d.name = "'a\nb'" := by decide +kernel
  have hquoted : Check.quotation? d = some d.name := by
    apply Check.quotation?_of_not_known
    rw [hname]
    decide +kernel
  have hline : OneLine d.name := h List.mem_cons_self d hd d.name hquoted
  rw [hname] at hline
  exact absurd hline (by decide +kernel)

end Rule

end Vintage
