import Vintage.Proofs.Reach
import Vintage.Proofs.TableChecks
import Vintage.Proofs.Templates

/-!
# How a verdict is worded

A verdict is worded as at most two findings, and the worst of them is as bad as the verdict.

Results:
* `Wording.severity?_eq_some_iff`: the severity of a verdict is the worst of its findings.
* `Wording.findings_said`: all that a verdict is worded as.
-/

namespace Vintage

/-! ## How bad the findings are -/

theorem Severity.le_antisymm {s t : Severity} (hst : s.le t = true) (hts : t.le s = true) :
    s = t := by
  cases s with
  | error => exact (eq_of_beq hst).symm
  | warning =>
    cases t with
    | warning => rfl
    | error => cases hts

namespace Wording

variable (w : Wording) (place : Place) (name display : String) (alternative : Option String)
  (v : Verdict)

/-- The severity of a verdict is the worst severity of its findings. -/
theorem severity?_eq_some_iff (s : Severity) :
    v.severity? = some s ↔
      (∃ d ∈ w.findings place name display alternative v, d.severity = s) ∧
        ∀ d ∈ w.findings place name display alternative v, d.severity.le s = true := by
  have hiff := w.exists_findings_iff place name display alternative v
  have hle : ∀ d ∈ w.findings place name display alternative v,
      ∃ t, v.severity? = some t ∧ d.severity.le t = true := by
    intro d hd
    rcases (hiff d.severity).1 ⟨d, hd, rfl⟩ with hlate | hgone
    · exact Verdict.introduction_le_severity? hlate
    · exact Verdict.withdrawal_le_severity? hgone
  constructor
  · intro hs
    refine ⟨(hiff s).2 (Verdict.severity?_cases hs), fun d hd => ?_⟩
    obtain ⟨t, ht, hdt⟩ := hle d hd
    obtain rfl : s = t := Option.some.inj (hs.symm.trans ht)
    exact hdt
  · rintro ⟨⟨d, hd, rfl⟩, hworst⟩
    obtain ⟨t, ht, hdt⟩ := hle d hd
    obtain ⟨d', hd', rfl⟩ := (hiff t).2 (Verdict.severity?_cases ht)
    rw [ht, Severity.le_antisymm hdt (hworst d' hd')]

theorem findings_eq_nil_iff :
    w.findings place name display alternative v = [] ↔ v.isEmpty = true := by
  have hlate : w.introduction? place (codeOf name) display v = none ↔
      v.absentIn = none ∧ v.conditionalIn = none := by
    rw [← Verdict.introductionSeverity?_eq_none_iff,
      ← w.introduction?_severity place (codeOf name) display v, Option.map_eq_none_iff]
  have hgone : w.withdrawal? place (codeOf name) display alternative v = none ↔
      v.deprecatedIn = none ∧ v.removedIn = none := by
    rw [← Verdict.withdrawalSeverity?_eq_none_iff,
      ← w.withdrawal?_severity place (codeOf name) display alternative v, Option.map_eq_none_iff]
  simp only [findings, List.append_eq_nil_iff, Option.toList_eq_nil_iff, hlate, hgone,
    Verdict.isEmpty, Bool.and_eq_true, Option.isNone_iff_eq_none, and_assoc]

variable {w} {before after : String}

/-- Whatever fills the one mark of a wording, a verdict is worded as the finding for a feature that
came late, then the finding for a feature that went. There is no finding just for the empty verdict,
and the worst finding is as bad as the verdict. -/
theorem findings_said (hw : w.Marked before after) :
    let findings := w.findings place name display alternative v
    findings = (v.late? place (codeOf name) (before ++ display ++ after) display).toList ++
        (v.gone? place (codeOf name) (before ++ display ++ after) display alternative).toList ∧
      (findings = [] ↔ v.isEmpty = true) ∧
      ∀ s, v.severity? = some s ↔
        (∃ d ∈ findings, d.severity = s) ∧ ∀ d ∈ findings, d.severity.le s = true := by
  refine ⟨?_, w.findings_eq_nil_iff place name display alternative v,
    w.severity?_eq_some_iff place name display alternative v⟩
  rw [findings, introduction?_eq_late? hw, withdrawal?_eq_gone? hw]

/-- Marks in the name of the feature, in the option and in the alternative are not filled. -/
theorem findings_said_marks :
    let w : Wording := ⟨"All %ss"⟩
    let v : Verdict :=
      { conditionalIn := some (⟨5, 3, none⟩, "--with-%s"), deprecatedIn := some ⟨5, 4, some 2⟩
        removedIn := some ⟨7, 0, none⟩ }
    let findings := w.findings ⟨4, 1, 9⟩ "A%s" "%s%s" (some "%s") v
    w.Marked "All " "s" ∧ v.severity? = some .error ∧
      findings =
        [{ place := ⟨4, 1, 9⟩, severity := .warning
           message := "All %s%ss is present in PHP version 5.3 but will be disregarded " ++
             "unless PHP is compiled with --with-%s"
           code := "a_sConditionalFound", data := ["%s%s", "5.3", "--with-%s"] },
         { place := ⟨4, 1, 9⟩, severity := .error
           message := "All %s%ss is deprecated since PHP 5.4.2 and removed since PHP 7.0; " ++
             "Use %s instead"
           code := "a_sDeprecatedRemoved", data := ["%s%s", "5.4.2", "7.0", "%s"] }] ∧
      ∀ d ∈ findings, d.severity.le .error = true := by
  intro w v findings
  have hw : w.Marked "All " "s" :=
    ⟨by decide, Template.plain_of_not_mem (by simp), Template.plain_of_not_mem (by simp)⟩
  obtain ⟨hfindings, -, hseverity⟩ :=
    findings_said ⟨4, 1, 9⟩ "A%s" "%s%s" (some "%s") v hw
  have hsevere : v.severity? = some .error := by decide
  exact ⟨hw, hsevere, hfindings.trans (by decide +kernel), ((hseverity .error).1 hsevere).2⟩

end Wording

end Vintage
