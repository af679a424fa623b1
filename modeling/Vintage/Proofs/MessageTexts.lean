import Vintage.Proofs.Chronology
import Vintage.Proofs.TableChecks

/-!
# What messages are made of

A rule words a verdict on a feature of its tables, and shows texts of the feature and numbers of
versions. Only the rule for `declare` statements also shows what is written in the source: the name
of a directive that it does not know, or a value that does not look right.

Results:
* `Feature.mem_of_shows`: the texts of a feature are those of its entries.
* `Check.mem_directiveReport_iff`: what is found at a directive.
* `Rule.words_or_quotes`: a finding shows texts of a feature, or quotes a directive.
-/

namespace Vintage

/-! ## Texts of features -/

namespace Feature

/-- The texts that a message may take from a feature. -/
inductive Shows (f : Feature) : String → Prop where
  | name : Shows f f.name
  | alternative {text : String} (h : f.alternative = some text) : Shows f text
  | description {text : String} (h : f.description = some text) : Shows f text
  | note {key text : String} (h : (key, text) ∈ f.notes) : Shows f text
  | option {version : Version} {text : String} (h : ⟨version, .conditional text⟩ ∈ f.facts) :
    Shows f text

/-- The texts of an entry that get into a feature. -/
def Entry.texts : Entry → List String
  | .fact _ (.conditional option) => [option]
  | .alternative text | .description text | .note _ text => [text]
  | _ => []

/-- A change of a feature adds the texts that it adds to one of the parts. -/
theorem Shows.of_change {f g : Feature} {added : List String} {text : String} (h : g.Shows text)
    (hname : g.name = f.name)
    (halternative : ∀ text, g.alternative = some text → f.alternative = some text ∨ text ∈ added)
    (hdescription : ∀ text, g.description = some text → f.description = some text ∨ text ∈ added)
    (hnotes : ∀ key text, (key, text) ∈ g.notes → (key, text) ∈ f.notes ∨ text ∈ added)
    (hfacts : ∀ version text, ⟨version, .conditional text⟩ ∈ g.facts →
      ⟨version, .conditional text⟩ ∈ f.facts ∨ text ∈ added) :
    f.Shows text ∨ text ∈ added := by
  cases h with
  | name =>
    rw [hname]
    exact Or.inl .name
  | alternative h => exact (halternative text h).imp_left .alternative
  | description h => exact (hdescription text h).imp_left .description
  | note h => exact (hnotes _ text h).imp_left .note
  | option h => exact (hfacts _ text h).imp_left .option

theorem Shows.of_alternative {f : Feature} {new text : String}
    (h : { f with alternative := some new }.Shows text) : f.Shows text ∨ text ∈ [new] := by
  refine h.of_change rfl ?_ (fun _ => Or.inl) (fun _ _ => Or.inl) (fun _ _ => Or.inl)
  intro text htext
  exact Or.inr (List.mem_singleton.2 (Option.some.inj htext).symm)

theorem Shows.of_description {f : Feature} {new text : String}
    (h : { f with description := some new }.Shows text) : f.Shows text ∨ text ∈ [new] := by
  refine h.of_change rfl (fun _ => Or.inl) ?_ (fun _ _ => Or.inl) (fun _ _ => Or.inl)
  intro text htext
  exact Or.inr (List.mem_singleton.2 (Option.some.inj htext).symm)

/-- An entry adds its own texts at most. -/
theorem Draft.shows_add {d : Draft} {e : Entry} {text : String} (h : (d.add e).feature.Shows text) :
    d.feature.Shows text ∨ text ∈ e.texts := by
  cases e with
  | fact version status =>
    unfold Draft.add at h
    simp only at h
    split at h
    · refine h.of_change rfl (fun _ => Or.inl) (fun _ => Or.inl) (fun _ _ => Or.inl) ?_
      intro v text hfact
      rcases List.mem_append.1 hfact with hold | hnew
      · exact Or.inl hold
      · obtain ⟨-, rfl⟩ := Fact.mk.inj (List.mem_singleton.1 hnew)
        exact Or.inr List.mem_cons_self
    · exact Or.inl h
  | alternative new => exact Shows.of_alternative h
  | description new => exact Shows.of_description h
  | note key value =>
    unfold Draft.add Draft.addNote at h
    simp only at h
    split at h
    · exact Shows.of_alternative h
    split at h
    · exact Shows.of_description h
    split at h
    · refine h.of_change rfl (fun _ => Or.inl) (fun _ => Or.inl) ?_ (fun _ _ => Or.inl)
      intro key' text hnote
      rcases List.mem_cons.1 hnote with hnew | hold
      · exact Or.inr (List.mem_singleton.2 (Prod.mk.inj hnew).2)
      · exact Or.inl hold
    · exact Or.inl h
  | noteKeys keys => exact Or.inl h
  | valueCheck check =>
    exact h.of_change rfl (fun _ => Or.inl) (fun _ => Or.inl) (fun _ _ => Or.inl)
      (fun _ _ => Or.inl)

theorem Draft.shows_foldl_add {d : Draft} {entries : List Entry} {text : String}
    (h : (entries.foldl Draft.add d).feature.Shows text) :
    d.feature.Shows text ∨ ∃ e ∈ entries, text ∈ e.texts := by
  induction entries generalizing d with
  | nil => exact Or.inl h
  | cons e entries ih =>
    rcases ih h with hadd | ⟨later, hlater, htext⟩
    · rcases Draft.shows_add hadd with hold | hnew
      · exact Or.inl hold
      · exact Or.inr ⟨e, List.mem_cons_self, hnew⟩
    · exact Or.inr ⟨later, List.mem_cons_of_mem e hlater, htext⟩

/-- A text of a feature is its name or a text of one of its entries. -/
theorem mem_of_shows {name : String} {entries : List Entry} {f : Feature}
    (hf : ofEntries name entries = .ok f) {text : String} (h : f.Shows text) :
    text = name ∨ ∃ e ∈ entries, text ∈ e.texts := by
  obtain ⟨-, -, -, -, rfl⟩ := ofDraft_eq_ok_iff.1 hf
  let d := entries.foldl Draft.add { feature := { name, facts := [] } }
  -- sorting the facts adds none
  have hdraft : d.feature.Shows text ∨ text ∈ [] :=
    h.of_change rfl (fun _ => Or.inl) (fun _ => Or.inl) (fun _ _ => Or.inl)
      (fun _ _ hfact => Or.inl (List.mem_mergeSort.1 hfact))
  rcases Draft.shows_foldl_add (hdraft.resolve_right List.not_mem_nil) with hnew | hentry
  · cases hnew with
    | name => exact Or.inl rfl
    | alternative h | description h => cases h
    | note h | option h => cases h
  · exact Or.inr hentry

/-- The option in a verdict is one of the feature. -/
theorem shows_of_conditionalIn {f : Feature} {range : VersionRange} {v : Verdict}
    (hv : f.verdict? range = some v) {version : Version} {text : String}
    (h : v.conditionalIn = some (version, text)) : f.Shows text := by
  rw [eq_reading_of_verdict? hv, conditionalIn_reading] at h
  split at h
  · cases h
  · obtain ⟨fact, hlast, hcondition⟩ := Option.bind_eq_some_iff.1 h
    obtain rfl := Fact.condition?_eq_some_iff.1 hcondition
    exact .option (Verdict.mem_turns.1 (List.mem_of_getLast? hlast)).1

end Feature

/-! ## Features of a catalogue -/

namespace Catalogue

theorem mem_features_of_find? {c : Catalogue} {name : String} {f : Feature}
    (h : c.find? name = some f) : f ∈ c.features := by
  rw [find?_eq_atKey, atKey_eq_some_iff] at h
  exact List.mem_map_of_mem (f := Prod.snd) h.mem

theorem mem_features_of_findPrefix? {c : Catalogue} {name : String} {f : Feature}
    (h : c.findPrefix? name = some f) : f ∈ c.features := by
  unfold findPrefix? at h
  simp only at h
  split at h
  · cases h
  · rename_i e rest hfilter
    cases h
    have hmem := (foldl_longer_last e rest).mem
    rw [← hfilter] at hmem
    exact List.mem_map_of_mem (List.mem_of_mem_filter hmem)

end Catalogue

/-! ## Findings that show texts of a feature -/

namespace Check

/-- The finding has the message of a verdict on a feature of the check, told with one of the
feature's texts. -/
def Words (c : Check) (d : Finding) : Prop :=
  ∃ f ∈ c.catalogue.features, ∃ range v place name display,
    f.verdict? range = some v ∧ f.Shows display ∧
    ∃ e ∈ c.wording.findings place name display f.alternative v, e.message = d.message

variable {l : Listing} {range : VersionRange} {d : Finding}

theorem words_of_mem_report {c : Check} {i : Nat} {f : Feature} (hf : f ∈ c.catalogue.features)
    (h : d ∈ c.report l i f range) : c.Words d := by
  unfold report at h
  split at h
  · rename_i v hv
    exact ⟨f, hf, range, v, _, _, f.name, hv, .name, d, h, rfl⟩
  · cases h

theorem words_of_mem_run {c : Check} {kinds : List TokenKind} (h : d ∈ c.run l range kinds) :
    c.Words d := by
  obtain ⟨i, t, f, -, -, -, hf, hd⟩ := (c.mem_run_iff l range kinds d).1 h
  exact words_of_mem_report (Catalogue.mem_features_of_find? hf) hd

theorem words_of_mem_extensionFindings {target : Target} (h : d ∈ extensionFindings l target) :
    removedExtensions.Words d := by
  obtain ⟨call, hcall, hd⟩ := List.mem_flatMap.1 h
  obtain ⟨i, -, hi⟩ := List.mem_filterMap.1 (List.mem_of_mem_filter hcall)
  obtain ⟨t, -, hfound⟩ := Option.bind_eq_some_iff.1 hi
  obtain ⟨f, hf, rfl⟩ := Option.map_eq_some_iff.1 hfound
  have hmem := Catalogue.mem_features_of_findPrefix? hf
  unfold extensionReport at hd
  split at hd
  · rename_i v hv
    refine ⟨f, hmem, target.range, v, _, _, (f.note? "extension").getD f.name, hv, ?_, d, hd, rfl⟩
    -- the message names the extension, or the mark if there is no remark
    cases hnote : f.note? "extension" with
    | none => exact .name
    | some text =>
      obtain ⟨before, after, hnotes, -⟩ := List.lookup_eq_some_iff.1 hnote
      have hmem : ("extension", text) ∈ f.notes := by
        rw [hnotes]
        exact List.mem_append_right _ List.mem_cons_self
      exact .note hmem
  · cases hd

theorem words_of_mem_interfaceFindings {target : Target} (h : d ∈ interfaceFindings l target) :
    newInterfaces.Words d := by
  obtain ⟨i, -, hi⟩ := List.mem_flatMap.1 h
  obtain ⟨r, -, hd⟩ := List.mem_flatMap.1 hi
  unfold referenceReport at hd
  split at hd
  · cases hd
  · split at hd
    · rename_i f hf
      exact words_of_mem_report (Catalogue.mem_features_of_find? hf) hd
    · cases hd

theorem words_of_mem_typeReport {c : Check} {inClass : Bool} {type : TypeHint}
    (h : d ∈ typeReport c l range inClass type) : c.Words d := by
  obtain ⟨name, -, hd⟩ := List.mem_flatMap.1 h
  split at hd
  · cases hd
  · split at hd
    · rename_i f hf
      exact words_of_mem_report (Catalogue.mem_features_of_find? hf) hd
    · cases hd

theorem words_of_mem_typeFindings {target : Target} (h : d ∈ typeFindings l target) :
    parameterTypes.Words d ∨ returnTypes.Words d := by
  obtain ⟨i, -, hi⟩ := List.mem_flatMap.1 h
  rcases List.mem_append.1 hi with hparameter | hreturn
  · obtain ⟨type, -, hd⟩ := List.mem_flatMap.1 hparameter
    exact Or.inl (words_of_mem_typeReport hd)
  · obtain ⟨type, -, hd⟩ := List.mem_flatMap.1 hreturn
    exact Or.inr (words_of_mem_typeReport hd)

theorem words_of_mem_keywordFindings {target : Target} (h : d ∈ keywordFindings l target) :
    newKeywords.Words d := by
  obtain ⟨i, -, hd⟩ := List.mem_flatMap.1 h
  unfold keywordReport at hd
  split at hd
  · cases hd
  · rename_i f hf
    obtain ⟨t, -, hf⟩ := Option.bind_eq_some_iff.1 hf
    split at hd
    · rename_i v hv
      refine ⟨f, Catalogue.mem_features_of_find? hf, target.range, v, _, _,
        f.description.getD f.name, hv, ?_, d, hd, rfl⟩
      cases hdescription : f.description with
      | none => exact .name
      | some text => exact .description hdescription
    · cases hd

theorem soften_message (reading : Bool) (f : Finding) : (soften reading f).message = f.message := by
  cases reading <;> rfl

theorem words_of_mem_settingFindings {target : Target} (h : d ∈ settingFindings l target) :
    removedSettings.Words d := by
  obtain ⟨i, -, hd⟩ := List.mem_flatMap.1 h
  unfold settingReport at hd
  split at hd
  · cases hd
  · split at hd
    · rename_i f hf
      obtain ⟨e, he, rfl⟩ := List.mem_map.1 hd
      have hwords := words_of_mem_report (Catalogue.mem_features_of_find? hf) he
      unfold Words at *
      rwa [soften_message]
    · cases hd

theorem words_of_mem_modifierFindings {target : Target} (h : d ∈ modifierFindings l target) :
    removedModifiers.Words d := by
  unfold modifierFindings at h
  split at h
  · cases h
  · rename_i f hf
    obtain ⟨i, -, hd⟩ := List.mem_flatMap.1 h
    unfold modifierReport at hd
    split at hd
    · cases hd
    · split at hd
      · exact words_of_mem_report (Catalogue.mem_features_of_find? hf) hd
      · cases hd

end Check

/-! ## Findings that quote a directive -/

/-- The directives of all `declare` statements. -/
def Listing.declared (l : Listing) : List Directive :=
  (Check.directives.uses l [.kwDeclare]).flatMap fun i => (l.directives? i).getD []

namespace Check

/-- The part of a directive that is quoted in a finding: the name if it is not known, else the value
if it does not look right. -/
def quotation? (d : Directive) : Option String :=
  match directives.catalogue.find? d.name with
  | none => some d.name
  | some f => if hasInvalidValue d f then some d.value else none

/-- The finding that quotes a part of a directive. -/
def quotingFinding? (l : Listing) (d : Directive) : Option Finding :=
  match directives.catalogue.find? d.name with
  | none => some (unknownDirective l d)
  | some f => if hasInvalidValue d f then some (invalidValue l d f) else none

/-- What is found at a directive: that a known one came with a later version, and what is quoted. -/
theorem mem_directiveReport_iff {l : Listing} {range : VersionRange} {d : Directive}
    {finding : Finding} :
    finding ∈ directiveReport l range d ↔
      (∃ f, directives.catalogue.find? d.name = some f ∧
        finding ∈ directives.report l d.position f range) ∨
      quotingFinding? l d = some finding := by
  unfold directiveReport quotingFinding?
  cases directives.catalogue.find? d.name with
  | none => simp [eq_comm]
  | some f =>
    simp only [List.mem_append, Option.some.injEq, exists_eq_left']
    split <;> simp [eq_comm]

theorem mem_directiveFindings_iff {l : Listing} {target : Target} {finding : Finding} :
    finding ∈ directiveFindings l target ↔
      ∃ d ∈ l.declared, finding ∈ directiveReport l target.range d := by
  unfold directiveFindings Listing.declared
  simp only [List.mem_flatMap]
  constructor
  · rintro ⟨i, hi, d, hd, hfinding⟩
    exact ⟨d, ⟨i, hi, hd⟩, hfinding⟩
  · rintro ⟨d, ⟨i, hi, hd⟩, hfinding⟩
    exact ⟨i, hi, d, hd, hfinding⟩

end Check

namespace Rule

/-- The checks of a rule. -/
def checks : Rule → List Check
  | .newFunctions => [Check.newFunctions]
  | .removedFunctions => [Check.removedFunctions]
  | .removedExtensions => [Check.removedExtensions]
  | .newConstants => [Check.newConstants]
  | .removedConstants => [Check.removedConstants]
  | .newInterfaces => [Check.newInterfaces]
  | .newTypes => [Check.parameterTypes, Check.returnTypes]
  | .newKeywords => [Check.newKeywords]
  | .directives => [Check.directives]
  | .removedSettings => [Check.removedSettings]
  | .removedModifiers => [Check.removedModifiers]

/-- A finding shows texts of a feature, or it is one of the rule for directives and quotes a
directive. -/
theorem words_or_quotes {r : Rule} {l : Listing} {target : Target} {f : Finding}
    (h : f ∈ r.findings l target) :
    (∃ c ∈ r.checks, c.Words f) ∨
      r = .directives ∧ ∃ d ∈ l.declared, Check.quotingFinding? l d = some f := by
  have hone {c : Check} (hwords : c.Words f) : ∃ c' ∈ [c], c'.Words f :=
    ⟨c, List.mem_cons_self, hwords⟩
  cases r with
  | newFunctions | removedFunctions | newConstants | removedConstants =>
    exact Or.inl (hone (Check.words_of_mem_run h))
  | removedExtensions => exact Or.inl (hone (Check.words_of_mem_extensionFindings h))
  | newInterfaces => exact Or.inl (hone (Check.words_of_mem_interfaceFindings h))
  | newTypes =>
    left
    rcases Check.words_of_mem_typeFindings h with hwords | hwords
    · exact ⟨_, List.mem_cons_self, hwords⟩
    · exact ⟨_, List.mem_cons_of_mem _ List.mem_cons_self, hwords⟩
  | newKeywords => exact Or.inl (hone (Check.words_of_mem_keywordFindings h))
  | directives =>
    obtain ⟨d, hd, hfinding⟩ := Check.mem_directiveFindings_iff.1 h
    rcases Check.mem_directiveReport_iff.1 hfinding with ⟨feature, hfeature, hreport⟩ | hquotes
    · have hmem := Catalogue.mem_features_of_find? hfeature
      exact Or.inl (hone (Check.words_of_mem_report hmem hreport))
    · exact Or.inr ⟨rfl, d, hd, hquotes⟩
  | removedSettings => exact Or.inl (hone (Check.words_of_mem_settingFindings h))
  | removedModifiers => exact Or.inl (hone (Check.words_of_mem_modifierFindings h))

theorem mem_findings_of_quotes {l : Listing} {target : Target} {d : Directive} {f : Finding}
    (hd : d ∈ l.declared) (hf : Check.quotingFinding? l d = some f) :
    f ∈ Rule.directives.findings l target :=
  Check.mem_directiveFindings_iff.2 ⟨d, hd, Check.mem_directiveReport_iff.2 (Or.inr hf)⟩

end Rule

/-! ## The messages of quoting findings -/

namespace Check

theorem message_unknownDirective (l : Listing) (d : Directive) :
    (unknownDirective l d).message =
      "Declare can only be used with the directives " ++
        Text.joinWith ", " (directives.catalogue.features.map Feature.name) ++ ". Found: " ++
        d.name := by
  have htemplate : "Declare can only be used with the directives %s. Found: %s" =
      "Declare can only be used with the directives " ++ "%s" ++ ". Found: " ++ "%s" := by
    decide +kernel
  unfold unknownDirective Finding.ofTemplate
  rw [htemplate]
  exact ((Template.Fills.between (by simp) (by simp) _).append (.mark d.name)).fill_eq

theorem message_invalidValue (l : Listing) (d : Directive) (f : Feature) :
    (invalidValue l d f).message =
      "The execution directive " ++ f.name ++
        " does not seem to have a valid value. Please review. Found: " ++ d.value := by
  have htemplate :
      "The execution directive %s does not seem to have a valid value. Please review. " ++
          "Found: %s" =
        "The execution directive " ++ "%s" ++
          " does not seem to have a valid value. Please review. Found: " ++ "%s" := by
    decide +kernel
  unfold invalidValue Finding.ofTemplate
  rw [htemplate]
  exact ((Template.Fills.between (by simp) (by simp) f.name).append (.mark d.value)).fill_eq

end Check

end Vintage
