import Vintage.Rule
import Vintage.Proofs.LooseOrder

/-!
# A wider range hides and softens nothing

The verdict on a feature is a fold over its history. Each turn of the history counts or not by
what the range reaches, so a range that reaches further records at least as much; an absence that
takes the place of a condition makes the finding worse, never better.

Results:
* `Verdict.add_eq`: what one fact does to a verdict.
* `Verdict.foldl_add`: the verdict of a whole history, field by field.
* `Feature.verdict?_mono`: a wider range reports at least what a narrower one reports.
* `Rule.findAll_mono`: every finding of a narrower range has one at its place, at least as bad, in
  the wider range.
-/

namespace Vintage

open VersionRange

/-! ## One fact -/

/-- What a verdict can record of a history. -/
inductive Turn where
  | absence
  | condition
  | deprecation
  | removal

namespace Turn

/-- A fact of the status is such a turn. -/
def takes : Turn → Status → Bool
  | .absence, .absent => true
  | .condition, .conditional _ => true
  | .deprecation, .deprecated => true
  | .removal, .removed => true
  | _, _ => false

/-- The range reaches such a turn at the version: down to a version that lacks the feature or has it
in some builds only, and up to one that deprecates or removes it. -/
def isReached (range : VersionRange) (v : Version) : Turn → Bool
  | .absence | .condition => range.reachesDown v
  | .deprecation | .removal => range.reachesUp v

theorem isReached_mono {r s : VersionRange} (h : r.Within s) (hr : r.Valid) {turn : Turn}
    {v : Version} (hv : turn.isReached r v = true) : turn.isReached s v = true := by
  cases turn with
  | absence | condition => exact h.reachesDown hr hv
  | deprecation | removal => exact h.reachesUp hr hv

end Turn

namespace Fact

/-- The fact is such a turn, and the range reaches it. -/
def isTurn (turn : Turn) (range : VersionRange) (f : Fact) : Bool :=
  turn.takes f.status && turn.isReached range f.version

theorem isTurn_iff {turn : Turn} {range : VersionRange} {f : Fact} :
    f.isTurn turn range = true ↔
      turn.takes f.status = true ∧ turn.isReached range f.version = true :=
  Bool.and_eq_true_iff

theorem isTurn_mono {r s : VersionRange} (h : r.Within s) (hr : r.Valid) {turn : Turn} {f : Fact}
    (hf : f.isTurn turn r = true) : f.isTurn turn s = true := by
  rw [isTurn_iff] at hf ⊢
  exact ⟨hf.1, Turn.isReached_mono h hr hf.2⟩

/-- The version and the option of a fact about some builds. -/
def condition? (f : Fact) : Option (Version × String) :=
  match f.status with
  | .conditional option => some (f.version, option)
  | _ => none

theorem condition?_eq_some_iff {f : Fact} {v : Version} {option : String} :
    f.condition? = some (v, option) ↔ f = ⟨v, .conditional option⟩ := by
  obtain ⟨version, status⟩ := f
  cases status <;> simp [condition?]

theorem isSome_condition? {range : VersionRange} {f : Fact}
    (hf : f.isTurn .condition range = true) : f.condition?.isSome = true := by
  obtain ⟨version, status⟩ := f
  cases status <;> first | rfl | cases (isTurn_iff.1 hf).1

end Fact

/-! ## A whole history -/

namespace Verdict

/-- What one fact does to a verdict: the latest absence and condition count, and the first
deprecation and removal. -/
theorem add_eq (range : VersionRange) (v : Verdict) (f : Fact) :
    v.add range f =
      { absentIn := if f.isTurn .absence range then some f.version else v.absentIn
        conditionalIn := if f.isTurn .condition range then f.condition? else v.conditionalIn
        deprecatedIn := v.deprecatedIn.or
          (if f.isTurn .deprecation range then some f.version else none)
        removedIn := v.removedIn.or
          (if f.isTurn .removal range then some f.version else none) } := by
  obtain ⟨version, status⟩ := f
  obtain ⟨absentIn, conditionalIn, deprecatedIn, removedIn⟩ := v
  cases status with
  | absent => by_cases h : range.reachesDown version <;>
      simp [add, Fact.isTurn, Turn.takes, Turn.isReached, h]
  | present => simp [add, Fact.isTurn, Turn.takes]
  | deprecated => by_cases h : range.reachesUp version <;> cases deprecatedIn <;>
      simp [add, Fact.isTurn, Turn.takes, Turn.isReached, h]
  | removed => by_cases h : range.reachesUp version <;> cases removedIn <;>
      simp [add, Fact.isTurn, Turn.takes, Turn.isReached, h]
  | conditional option => by_cases h : range.reachesDown version <;>
      simp [add, Fact.isTurn, Fact.condition?, Turn.takes, Turn.isReached, h]

/-- The facts that are such turns and that the range reaches. -/
def turns (turn : Turn) (range : VersionRange) (facts : List Fact) : List Fact :=
  facts.filter (Fact.isTurn turn range)

theorem mem_turns {turn : Turn} {range : VersionRange} {facts : List Fact} {f : Fact} :
    f ∈ turns turn range facts ↔ f ∈ facts ∧ f.isTurn turn range = true :=
  List.mem_filter

theorem or_eq_left {α : Type} {o o' : Option α} (h : o.isSome = true) : o.or o' = o := by
  cases o with
  | none => cases h
  | some a => rfl

/-- A later turn takes the place of an earlier one. -/
theorem bind_getLast?_turns {α : Type} {g : Fact → Option α} (turn : Turn) (range : VersionRange)
    (hg : ∀ f, f.isTurn turn range = true → (g f).isSome = true) (f : Fact) (facts : List Fact)
    (o : Option α) :
    ((turns turn range facts).getLast?.bind g).or (if f.isTurn turn range then g f else o) =
      ((turns turn range (f :: facts)).getLast?.bind g).or o := by
  by_cases hf : f.isTurn turn range = true
  · rw [if_pos hf, show turns turn range (f :: facts) = f :: turns turn range facts from
      List.filter_cons_of_pos hf, List.getLast?_cons, Option.bind_some]
    cases hlast : (turns turn range facts).getLast? with
    | none => exact (or_eq_left (hg f hf)).symm
    | some last =>
      have hturn := (mem_turns.1 (List.mem_of_getLast? hlast)).2
      rw [Option.bind_some, Option.getD_some, or_eq_left (hg last hturn),
        or_eq_left (hg last hturn)]
  · rw [if_neg hf, turns, turns, List.filter_cons_of_neg hf]

/-- An earlier turn keeps its place. -/
theorem or_head?_turns (turn : Turn) (range : VersionRange) (f : Fact) (facts : List Fact)
    (o : Option Version) :
    (o.or (if f.isTurn turn range then some f.version else none)).or
        ((turns turn range facts).head?.map Fact.version) =
      o.or ((turns turn range (f :: facts)).head?.map Fact.version) := by
  by_cases hf : f.isTurn turn range = true
  · rw [if_pos hf, turns, turns, List.filter_cons_of_pos hf, List.head?_cons, Option.map_some,
      Option.or_assoc, Option.some_or]
  · rw [if_neg hf, Option.or_none, turns, turns, List.filter_cons_of_neg hf]

/-- The verdict of a whole history: of the absences and conditions that the range reaches the last
one, of the deprecations and removals the first one. -/
theorem foldl_add (range : VersionRange) (facts : List Fact) (v : Verdict) :
    facts.foldl (add range) v =
      { absentIn := ((turns .absence range facts).getLast?.map Fact.version).or v.absentIn
        conditionalIn :=
          ((turns .condition range facts).getLast?.bind Fact.condition?).or v.conditionalIn
        deprecatedIn :=
          v.deprecatedIn.or ((turns .deprecation range facts).head?.map Fact.version)
        removedIn := v.removedIn.or ((turns .removal range facts).head?.map Fact.version) } := by
  induction facts generalizing v with
  | nil => simp [turns]
  | cons f facts ih =>
    have habsent := bind_getLast?_turns (g := some ∘ Fact.version) .absence range
      (fun _ _ => rfl) f facts v.absentIn
    have hconditional := bind_getLast?_turns .condition range (fun _ => Fact.isSome_condition?) f
      facts v.conditionalIn
    rw [← Option.map_eq_bind, ← Option.map_eq_bind] at habsent
    rw [List.foldl_cons, ih, add_eq, hconditional, or_head?_turns, or_head?_turns]
    exact congrArg (Verdict.mk · _ _ _) habsent

/-- `w` reports at least what `v` reports; a condition may have given way to an absence. -/
structure ReportedBy (v w : Verdict) : Prop where
  absent : v.absentIn.isSome → w.absentIn.isSome
  conditional : v.conditionalIn.isSome → w.absentIn.isSome ∨ w.conditionalIn.isSome
  deprecated : v.deprecatedIn.isSome → w.deprecatedIn.isSome
  removed : v.removedIn.isSome → w.removedIn.isSome

theorem ReportedBy.settle {v w : Verdict} (h : v.ReportedBy w) : v.settle.ReportedBy w.settle := by
  obtain ⟨ha, hc, hd, hr⟩ := h
  unfold Verdict.settle
  cases hv : v.absentIn with
  | some a =>
    rw [hv] at ha
    have hw := ha rfl
    simp only [Option.isSome_some, if_true, hw]
    exact ⟨fun _ => hw, by simp, hd, hr⟩
  | none =>
    cases hw : w.absentIn with
    | some b => exact ⟨by simp [hv], fun _ => Or.inl (by simp), hd, hr⟩
    | none => exact ⟨by simp [hv], by simpa [hw] using hc, hd, hr⟩

theorem ReportedBy.not_isEmpty {v w : Verdict} (h : v.ReportedBy w) (hv : v.isEmpty = false) :
    w.isEmpty = false := by
  obtain ⟨ha, hc, hd, hr⟩ := h
  unfold isEmpty at hv ⊢
  cases hwa : w.absentIn <;> cases hwc : w.conditionalIn <;> cases hwd : w.deprecatedIn <;>
    cases hwr : w.removedIn <;> simp_all

end Verdict

/-! ## Features -/

namespace Feature

theorem turns_ne_nil_mono {r s : VersionRange} (h : r.Within s) (hr : r.Valid) {turn : Turn}
    {facts : List Fact} (hne : Verdict.turns turn r facts ≠ []) :
    Verdict.turns turn s facts ≠ [] := by
  obtain ⟨f, hf⟩ := List.exists_mem_of_ne_nil _ hne
  obtain ⟨hmem, hturn⟩ := Verdict.mem_turns.1 hf
  exact List.ne_nil_of_mem (Verdict.mem_turns.2 ⟨hmem, Fact.isTurn_mono h hr hturn⟩)

theorem isSome_bind_condition? {range : VersionRange} {facts : List Fact} :
    ((Verdict.turns .condition range facts).getLast?.bind Fact.condition?).isSome = true ↔
      Verdict.turns .condition range facts ≠ [] := by
  rw [← List.getLast?_isSome]
  cases hlast : (Verdict.turns .condition range facts).getLast? with
  | none => rfl
  | some f =>
    have hturn := (Verdict.mem_turns.1 (List.mem_of_getLast? hlast)).2
    rw [Option.bind_some, Fact.isSome_condition? hturn, Option.isSome_some]

/-- A wider range reports at least what a narrower one reports. -/
theorem verdict?_mono {r s : VersionRange} (h : r.Within s) (hr : r.Valid) (f : Feature)
    {v : Verdict} (hv : f.verdict? r = some v) : ∃ w, f.verdict? s = some w ∧ v.ReportedBy w := by
  have hraw : (f.facts.foldl (Verdict.add r) {}).ReportedBy (f.facts.foldl (Verdict.add s) {}) := by
    rw [Verdict.foldl_add, Verdict.foldl_add]
    simp only [Option.or_none, Option.none_or]
    constructor
    · simp only [Option.isSome_map, List.getLast?_isSome]
      exact turns_ne_nil_mono h hr
    · simp only [isSome_bind_condition?]
      exact fun hne => Or.inr (turns_ne_nil_mono h hr hne)
    · simp only [Option.isSome_map, List.isSome_head?]
      exact turns_ne_nil_mono h hr
    · simp only [Option.isSome_map, List.isSome_head?]
      exact turns_ne_nil_mono h hr
  unfold verdict? at hv ⊢
  simp only at hv ⊢
  split at hv
  · cases hv
  · rename_i hne
    cases hv
    rw [if_neg (by simpa using hraw.settle.not_isEmpty (by simpa using hne))]
    exact ⟨_, rfl, hraw.settle⟩

end Feature

/-! ## Findings -/

namespace Finding

/-- Every finding of `fs` has one of `gs` at its place that is at least as bad. -/
def Dominated (fs gs : List Finding) : Prop :=
  ∀ d ∈ fs, ∃ e ∈ gs, e.place = d.place ∧ d.severity.le e.severity = true

theorem le_refl (s : Severity) : s.le s = true := by cases s <;> rfl

theorem le_error (s : Severity) : s.le .error = true := by cases s <;> rfl

theorem Dominated.nil (gs : List Finding) : Dominated [] gs := by
  intro d hd
  cases hd

theorem Dominated.refl (fs : List Finding) : Dominated fs fs :=
  fun d hd => ⟨d, hd, rfl, le_refl _⟩

theorem Dominated.append {fs fs' gs gs' : List Finding} (h : Dominated fs gs)
    (h' : Dominated fs' gs') : Dominated (fs ++ fs') (gs ++ gs') := by
  intro d hd
  rcases List.mem_append.1 hd with hd | hd
  · obtain ⟨e, he, hde⟩ := h d hd
    exact ⟨e, List.mem_append_left _ he, hde⟩
  · obtain ⟨e, he, hde⟩ := h' d hd
    exact ⟨e, List.mem_append_right _ he, hde⟩

theorem Dominated.flatMap {α : Type} {f g : α → List Finding} (as : List α)
    (h : ∀ a, Dominated (f a) (g a)) : Dominated (as.flatMap f) (as.flatMap g) := by
  intro d hd
  obtain ⟨a, ha, hda⟩ := List.mem_flatMap.1 hd
  obtain ⟨e, he, hde⟩ := h a d hda
  exact ⟨e, List.mem_flatMap.2 ⟨a, ha, he⟩, hde⟩

theorem soften_place (reading : Bool) (f : Finding) : (Check.soften reading f).place = f.place := by
  cases reading <;> rfl

/-- Softening both sides keeps the order: it makes either nothing or everything a warning. -/
theorem Dominated.soften {fs gs : List Finding} (h : Dominated fs gs) (reading : Bool) :
    Dominated (fs.map (Check.soften reading)) (gs.map (Check.soften reading)) := by
  intro d' hd'
  obtain ⟨d, hd, rfl⟩ := List.mem_map.1 hd'
  obtain ⟨e, he, hplace, hle⟩ := h d hd
  refine ⟨_, List.mem_map_of_mem he, by rw [soften_place, soften_place, hplace], ?_⟩
  cases reading with
  | false => exact hle
  | true => rfl

end Finding

open Finding (Dominated)

namespace Wording

variable (w : Wording) (place : Place)

theorem introduction?_place {base display : String} {v : Verdict} {d : Finding}
    (h : w.introduction? place base display v = some d) : d.place = place := by
  unfold introduction? at h
  split at h <;> cases h <;> rfl

theorem withdrawal?_place {base display : String} {alternative : Option String} {v : Verdict}
    {d : Finding} (h : w.withdrawal? place base display alternative v = some d) :
    d.place = place := by
  unfold withdrawal? at h
  split at h <;> cases h
  rfl

/-- The severity of the finding for a feature that came late. -/
theorem introduction?_severity (base display : String) (v : Verdict) :
    (w.introduction? place base display v).map Finding.severity = v.introductionSeverity? := by
  unfold introduction? Verdict.introductionSeverity?
  cases v.absentIn with
  | some _ => rfl
  | none => cases v.conditionalIn <;> rfl

/-- The severity of the finding for a feature that went. -/
theorem withdrawal?_severity (base display : String) (alternative : Option String) (v : Verdict) :
    (w.withdrawal? place base display alternative v).map Finding.severity =
      v.withdrawalSeverity? := by
  unfold withdrawal? Verdict.withdrawalSeverity? Verdict.isWithdrawal
  cases v.removedIn <;> cases v.deprecatedIn <;> rfl

end Wording

namespace Verdict

theorem ReportedBy.introductionSeverity? {v w : Verdict} (h : v.ReportedBy w) {s : Severity}
    (hs : v.introductionSeverity? = some s) :
    ∃ t, w.introductionSeverity? = some t ∧ s.le t = true := by
  obtain ⟨ha, hc, -, -⟩ := h
  unfold Verdict.introductionSeverity? at hs ⊢
  cases hwa : w.absentIn with
  | some b => exact ⟨.error, rfl, Finding.le_error s⟩
  | none =>
    rw [hwa] at ha hc
    rw [if_neg (fun hv => Bool.false_ne_true (ha hv))] at hs
    split at hs
    · rename_i hvc
      obtain hw | hw := hc hvc
      · cases hw
      · rw [if_neg (by simp), if_pos hw]
        exact ⟨.warning, rfl, by cases hs; rfl⟩
    · cases hs

theorem ReportedBy.withdrawalSeverity? {v w : Verdict} (h : v.ReportedBy w) {s : Severity}
    (hs : v.withdrawalSeverity? = some s) :
    ∃ t, w.withdrawalSeverity? = some t ∧ s.le t = true := by
  obtain ⟨-, -, hd, hr⟩ := h
  unfold Verdict.withdrawalSeverity? at hs ⊢
  cases hwr : w.removedIn with
  | some b => exact ⟨.error, rfl, Finding.le_error s⟩
  | none =>
    rw [hwr] at hr
    rw [if_neg (fun hv => Bool.false_ne_true (hr hv))] at hs
    split at hs
    · rename_i hvd
      rw [if_neg (by simp), if_pos (hd hvd)]
      exact ⟨.warning, rfl, by cases hs; rfl⟩
    · cases hs

end Verdict

namespace Wording

/-- A verdict that reports more is worded as findings that are at least as bad. -/
theorem findings_mono (w : Wording) (place : Place) (name display : String)
    (alternative : Option String) {u v : Verdict} (h : u.ReportedBy v) :
    Dominated (w.findings place name display alternative u)
      (w.findings place name display alternative v) := by
  unfold findings
  apply Dominated.append
  · intro d hd
    rw [Option.mem_toList] at hd
    have hs : u.introductionSeverity? = some d.severity := by
      rw [← w.introduction?_severity place (codeOf name) display u, hd, Option.map_some]
    obtain ⟨t, ht, hle⟩ := h.introductionSeverity? hs
    rw [← w.introduction?_severity place (codeOf name) display v] at ht
    obtain ⟨e, he, rfl⟩ := Option.map_eq_some_iff.1 ht
    refine ⟨e, Option.mem_toList.2 he, ?_, hle⟩
    rw [w.introduction?_place place he, w.introduction?_place place hd]
  · intro d hd
    rw [Option.mem_toList] at hd
    have hs : u.withdrawalSeverity? = some d.severity := by
      rw [← w.withdrawal?_severity place (codeOf name) display alternative u, hd, Option.map_some]
    obtain ⟨t, ht, hle⟩ := h.withdrawalSeverity? hs
    rw [← w.withdrawal?_severity place (codeOf name) display alternative v] at ht
    obtain ⟨e, he, rfl⟩ := Option.map_eq_some_iff.1 ht
    refine ⟨e, Option.mem_toList.2 he, ?_, hle⟩
    rw [w.withdrawal?_place place he, w.withdrawal?_place place hd]

end Wording

/-! ## Checks and rules -/

section Checks

variable {r s : VersionRange} (h : r.Within s) (hr : r.Valid) (l : Listing)
include h hr

/-- Whatever wording is chosen for a feature, the wider range words it at least as badly. -/
theorem Feature.findings_mono (f : Feature) (w : Wording) (place : Place) (name display : String) :
    Dominated
      (match f.verdict? r with
        | some v => w.findings place name display f.alternative v
        | none => [])
      (match f.verdict? s with
        | some v => w.findings place name display f.alternative v
        | none => []) := by
  cases hv : f.verdict? r with
  | none => exact Dominated.nil _
  | some v =>
    obtain ⟨v', hv', hrep⟩ := f.verdict?_mono h hr hv
    rw [hv']
    exact w.findings_mono place name display f.alternative hrep

namespace Check

theorem report_mono (c : Check) (i : Nat) (f : Feature) :
    Dominated (c.report l i f r) (c.report l i f s) :=
  f.findings_mono h hr c.wording (l.place i) f.name f.name

/-- The feature that is looked up does not depend on the range. -/
theorem reportFound_mono (c : Check) (i : Nat) (found : Option Feature) :
    Dominated
      (match found with
        | some f => c.report l i f r
        | none => [])
      (match found with
        | some f => c.report l i f s
        | none => []) := by
  cases found with
  | none => exact Dominated.nil _
  | some f => exact c.report_mono h hr l i f

theorem run_mono (c : Check) (kinds : List TokenKind) :
    Dominated (c.run l r kinds) (c.run l s kinds) :=
  Dominated.flatMap _ fun i => c.reportFound_mono h hr l i _

theorem extensionReport_mono (call : ExtensionCall) :
    Dominated (extensionReport l r call) (extensionReport l s call) :=
  call.feature.findings_mono h hr _ _ _ _

theorem referenceReport_mono (ref : Reference) :
    Dominated (referenceReport l r ref) (referenceReport l s ref) := by
  unfold referenceReport
  split
  · exact Dominated.nil _
  · exact newInterfaces.reportFound_mono h hr l ref.position _

theorem typeReport_mono (c : Check) (inClass : Bool) (type : TypeHint) :
    Dominated (typeReport c l r inClass type) (typeReport c l s inClass type) := by
  apply Dominated.flatMap
  intro name
  split
  · exact Dominated.nil _
  · exact c.reportFound_mono h hr l type.start _

theorem signatureReport_mono (i : Nat) :
    Dominated (signatureReport l r i) (signatureReport l s i) :=
  (Dominated.flatMap _ fun type => typeReport_mono h hr l parameterTypes _ type).append
    (Dominated.flatMap _ fun type => typeReport_mono h hr l returnTypes _ type)

theorem keywordReport_mono (i : Nat) : Dominated (keywordReport l r i) (keywordReport l s i) := by
  unfold keywordReport
  split
  · exact Dominated.nil _
  · rename_i f _
    exact f.findings_mono h hr _ _ _ _

theorem directiveReport_mono (d : Directive) :
    Dominated (directiveReport l r d) (directiveReport l s d) := by
  unfold directiveReport
  split
  · exact Dominated.refl _
  · rename_i f _
    exact (directives.report_mono h hr l d.position f).append (Dominated.refl _)

theorem settingReport_mono (i : Nat) : Dominated (settingReport l r i) (settingReport l s i) := by
  unfold settingReport
  split
  · exact Dominated.nil _
  · rename_i position name _
    split
    · rename_i f _
      exact (removedSettings.report_mono h hr l position f).soften _
    · exact Dominated.nil _

theorem modifierReport_mono (f : Feature) (i : Nat) :
    Dominated (modifierReport l r f i) (modifierReport l s f i) := by
  unfold modifierReport
  split
  · exact Dominated.nil _
  · rename_i position options _
    split
    · exact removedModifiers.report_mono h hr l position f
    · exact Dominated.nil _

end Check

namespace Rule

open Check

/-- No rule hides or softens a finding when the range gets wider. -/
theorem findings_mono (rule : Rule) (exempt : NameSet) :
    Dominated (rule.findings l ⟨r, exempt⟩) (rule.findings l ⟨s, exempt⟩) := by
  cases rule with
  | newFunctions => exact Check.newFunctions.run_mono h hr l _
  | removedFunctions => exact Check.removedFunctions.run_mono h hr l _
  | removedExtensions => exact Dominated.flatMap _ (extensionReport_mono h hr l)
  | newConstants => exact Check.newConstants.run_mono h hr l _
  | removedConstants => exact Check.removedConstants.run_mono h hr l _
  | newInterfaces =>
    exact Dominated.flatMap _ fun i => Dominated.flatMap _ (referenceReport_mono h hr l)
  | newTypes => exact Dominated.flatMap _ (signatureReport_mono h hr l)
  | newKeywords => exact Dominated.flatMap _ (keywordReport_mono h hr l)
  | directives =>
    exact Dominated.flatMap _ fun i => Dominated.flatMap _ (directiveReport_mono h hr l)
  | removedSettings => exact Dominated.flatMap _ (settingReport_mono h hr l)
  | removedModifiers =>
    simp only [Rule.findings, modifierFindings]
    split
    · exact Dominated.nil _
    · exact Dominated.flatMap _ (modifierReport_mono h hr l _)

end Rule

end Checks

/-- Widening the range never hides or softens a finding: whatever a listing is checked for, each
finding of the narrower range has one at the same place, at least as bad, in the wider range. -/
theorem Rule.findAll_mono {r s : VersionRange} (hr : r.Valid) (h : r.Within s) (l : Listing)
    (exempt : NameSet) (chosen : List String) :
    ∀ d ∈ Rule.findAll l ⟨r, exempt⟩ chosen, ∃ e ∈ Rule.findAll l ⟨s, exempt⟩ chosen,
      e.place = d.place ∧ d.severity.le e.severity = true := by
  intro d hd
  rw [Rule.findAll, List.mem_mergeSort] at hd
  obtain ⟨e, he, hde⟩ :=
    Dominated.flatMap (Rule.ofNames chosen) (fun rule => rule.findings_mono h hr l exempt) d hd
  exact ⟨e, List.mem_mergeSort.2 he, hde⟩

/-- From `5.3.2` up to `5.3` a deprecated setting is worth a warning; from `5.3` up to `5.4.1`,
where it is removed, it is an error. -/
theorem Rule.findAll_mono_patched :
    let r : VersionRange := ⟨some ⟨5, 3, some 2⟩, some ⟨5, 3, none⟩⟩
    let s : VersionRange := ⟨some ⟨5, 3, none⟩, some ⟨5, 4, some 1⟩⟩
    let l := Listing.ofText "<?php ini_set('safe_mode', '1');"
    r.Valid ∧ r.Within s ∧
      ∀ d ∈ Rule.findAll l ⟨r, {}⟩ Rule.names, ∃ e ∈ Rule.findAll l ⟨s, {}⟩ Rule.names,
        e.place = d.place ∧ d.severity.le e.severity = true := by
  intro r s l
  have hr : r.Valid := rfl
  have h : r.Within s := by
    intro w _ hc
    rw [contains_iff, reachesDown_iff_low, reachesUp_iff_high] at hc ⊢
    have hlow := (Version.atMost_iff _ w).1 (hc.1 _ rfl)
    have hhigh := (Version.atMost_iff w _).1 (hc.2 _ rfl)
    constructor
    · rintro _ ⟨⟩
      rw [Version.atMost_iff]
      simp at hlow hhigh ⊢
      omega
    · rintro _ ⟨⟩
      rw [Version.atMost_iff]
      simp at hlow hhigh ⊢
      omega
  exact ⟨hr, h, findAll_mono hr h l {} Rule.names⟩

end Vintage
