import Vintage.Command.Run

/-!
# The numbers of a report

A report is made file by file and keeps count as it goes. Its numbers are those of the files that it
holds, so the exit code of a run, which is read off the numbers alone, says what the files hold.

Results:
* `Tally.Counts.add`: one more file is counted right.
* `Report.counts_ofFiles`: the numbers of a report are those of its files.
* `Tally.Counts.exitCode_iff`: what the exit code says.
* `Command.reportFile_counts`: both, for files reported one after the other in any format.
-/

namespace Vintage

namespace FileReport

/-- The file could not be read. -/
def isFailure : FileReport → Bool
  | scanned _ _ => false
  | failed _ _ => true

/-- Something was found in the file. -/
def hasFindings (file : FileReport) : Bool := !file.findings.isEmpty

/-- The file could not be read, or an error was found in it. -/
def IsBad (file : FileReport) : Prop :=
  file.isFailure = true ∨ ∃ f ∈ file.findings, f.severity = .error

end FileReport

/-! ## Counting -/

namespace Finding

theorem isError_iff {f : Finding} : f.isError = true ↔ f.severity = .error := beq_iff_eq

theorem countP_isError (findings : List Finding) :
    findings.countP isError = findings.countP fun f => f.severity = .error := by
  apply List.countP_congr
  intro f _
  rw [isError_iff, decide_eq_true_eq]

/-- What is not an error is a warning. -/
theorem length_sub_countP_isError (findings : List Finding) :
    findings.length - findings.countP isError = findings.countP fun f => f.severity = .warning := by
  have hsplit := List.length_eq_countP_add_countP isError (l := findings)
  have hrest : findings.countP (fun f => decide ¬ f.isError = true) =
      findings.countP fun f => f.severity = .warning := by
    apply List.countP_congr
    intro f _
    rw [decide_eq_true_eq, isError_iff, decide_eq_true_eq]
    cases f.severity <;> decide
  omega

end Finding

namespace Tally

/-- The tally has the numbers of the reported files. -/
structure Counts (t : Tally) (reported : List FileReport) : Prop where
  files : t.files = reported.length
  failures : t.failures = reported.countP FileReport.isFailure
  withFindings : t.withFindings = reported.countP FileReport.hasFindings
  errors : t.errors = (reported.flatMap FileReport.findings).countP fun f => f.severity = .error
  warnings :
    t.warnings = (reported.flatMap FileReport.findings).countP fun f => f.severity = .warning

namespace Counts

variable {t : Tally} {files : List FileReport}

theorem empty : Counts {} [] := ⟨rfl, rfl, rfl, rfl, rfl⟩

/-- A file that could not be read counts as a file and a failure, and a scanned one by what was
found in it. -/
theorem add (h : t.Counts files) (file : FileReport) : (t.add file).Counts (files ++ [file]) := by
  obtain ⟨hfiles, hfailures, hwith, herrors, hwarnings⟩ := h
  cases file with
  | failed path reason =>
    constructor <;> simp [Tally.add, FileReport.isFailure, FileReport.hasFindings,
      FileReport.findings, *]
  | scanned path findings =>
    have hone := Finding.countP_isError findings
    have hrest := Finding.length_sub_countP_isError findings
    constructor
    · simp [Tally.add, hfiles]
    · simp [Tally.add, FileReport.isFailure, hfailures]
    · cases findings <;>
        simp [Tally.add, FileReport.hasFindings, FileReport.findings, hwith]
    · simp only [Tally.add, List.flatMap_append, List.flatMap_singleton, List.countP_append,
        FileReport.findings, herrors, hone]
    · simp only [Tally.add, List.flatMap_append, List.flatMap_singleton, List.countP_append,
        FileReport.findings, hwarnings, hrest]

/-! ## The exit code -/

theorem errors_or_failures_iff (h : t.Counts files) :
    0 < t.errors ∨ 0 < t.failures ↔ ∃ file ∈ files, file.IsBad := by
  rw [h.errors, h.failures, List.countP_pos_iff, List.countP_pos_iff]
  simp only [FileReport.IsBad, List.mem_flatMap, decide_eq_true_eq]
  constructor
  · rintro (⟨f, ⟨file, hfile, hf⟩, herror⟩ | ⟨file, hfile, hfailure⟩)
    · exact ⟨file, hfile, Or.inr ⟨f, hf, herror⟩⟩
    · exact ⟨file, hfile, Or.inl hfailure⟩
  · rintro ⟨file, hfile, hfailure | ⟨f, hf, herror⟩⟩
    · exact Or.inr ⟨file, hfile, hfailure⟩
    · exact Or.inl ⟨f, ⟨file, hfile, hf⟩, herror⟩

/-- Without errors, whatever was found is a warning. -/
theorem warnings_iff (h : t.Counts files) (hgood : ¬ ∃ file ∈ files, file.IsBad) :
    0 < t.warnings ↔ ∃ file ∈ files, ∃ f, f ∈ file.findings := by
  rw [h.warnings, List.countP_pos_iff]
  simp only [List.mem_flatMap, decide_eq_true_eq]
  constructor
  · rintro ⟨f, ⟨file, hfile, hf⟩, -⟩
    exact ⟨file, hfile, f, hf⟩
  · rintro ⟨file, hfile, f, hf⟩
    refine ⟨f, ⟨file, hfile, hf⟩, ?_⟩
    cases hseverity : f.severity with
    | warning => rfl
    | error => exact absurd ⟨file, hfile, Or.inr ⟨f, hf, hseverity⟩⟩ hgood

theorem exitCode_of_bad (h : t.Counts files) (hbad : ∃ file ∈ files, file.IsBad) :
    t.exitCode = 1 := by
  have hpos := h.errors_or_failures_iff.2 hbad
  simp [exitCode, hpos]

theorem exitCode_of_found (h : t.Counts files) (hgood : ¬ ∃ file ∈ files, file.IsBad)
    (hfound : ∃ file ∈ files, ∃ f, f ∈ file.findings) : t.exitCode = 2 := by
  have hnone := mt h.errors_or_failures_iff.1 hgood
  have hpos := (h.warnings_iff hgood).2 hfound
  simp [exitCode, hnone, hpos]

theorem exitCode_of_nothing (h : t.Counts files) (hgood : ¬ ∃ file ∈ files, file.IsBad)
    (hnothing : ¬ ∃ file ∈ files, ∃ f, f ∈ file.findings) : t.exitCode = 0 := by
  have hnone := mt h.errors_or_failures_iff.1 hgood
  have hzero := mt (h.warnings_iff hgood).1 hnothing
  simp [exitCode, hnone, hzero]

/-- The exit code says what the files hold. -/
theorem exitCode_iff (h : t.Counts files) :
    (t.exitCode = 1 ↔ ∃ file ∈ files, file.IsBad) ∧
    (t.exitCode = 2 ↔
      (¬ ∃ file ∈ files, file.IsBad) ∧ ∃ file ∈ files, ∃ f, f ∈ file.findings) ∧
    (t.exitCode = 0 ↔
      (¬ ∃ file ∈ files, file.IsBad) ∧ ¬ ∃ file ∈ files, ∃ f, f ∈ file.findings) := by
  by_cases hbad : ∃ file ∈ files, file.IsBad
  · have hcode := h.exitCode_of_bad hbad
    simp [hcode, hbad]
  by_cases hfound : ∃ file ∈ files, ∃ f, f ∈ file.findings
  · have hcode := h.exitCode_of_found hbad hfound
    simp only [hcode, hbad, hfound]
    decide
  · have hcode := h.exitCode_of_nothing hbad hfound
    simp only [hcode, hbad, hfound]
    decide

end Counts

end Tally

/-! ## Reports -/

namespace Report

/-- A report of some files goes on with further ones. -/
theorem files_foldl_add (r : Report) (files : List FileReport) :
    (files.foldl add r).files = r.files ++ files := by
  induction files generalizing r with
  | nil => exact (List.append_nil _).symm
  | cons file files ih =>
    rw [List.foldl_cons, ih]
    simp [add]

theorem counts_foldl_add {r : Report} (h : r.tally.Counts r.files) (files : List FileReport) :
    (files.foldl add r).tally.Counts (files.foldl add r).files := by
  induction files generalizing r with
  | nil => exact h
  | cons file files ih => exact ih (h.add file)

theorem files_ofFiles (files : List FileReport) : (ofFiles files).files = files :=
  files_foldl_add {} files

/-- The numbers of a report are those of its files. -/
theorem counts_ofFiles (files : List FileReport) : (ofFiles files).tally.Counts files := by
  have h := counts_foldl_add (r := {}) Tally.Counts.empty files
  rwa [show (files.foldl add {}).files = files from files_ofFiles files] at h

end Report

namespace Command

/-- Whatever is written, a file that is reported is added to the report. -/
theorem run_reportFile (s : Surroundings) (manner : Report.Manner) (report : Report)
    (file : FileReport) (session : Session) :
    ∃ after, (reportFile s manner report file).run.run session = (.ok (report.add file), after) := by
  cases file <;> exact ⟨_, rfl⟩

theorem run_reportFiles (s : Surroundings) (manner : Report.Manner) (report : Report)
    (files : List FileReport) (session : Session) :
    ∃ after, (files.foldlM (reportFile s manner) report).run.run session =
      (.ok (files.foldl Report.add report), after) := by
  induction files generalizing report session with
  | nil => exact ⟨session, rfl⟩
  | cons file files ih =>
    obtain ⟨between, hfile⟩ := run_reportFile s manner report file session
    obtain ⟨after, hfiles⟩ := ih (report.add file) between
    refine ⟨after, ?_⟩
    rw [List.foldlM_cons, ExceptT.run_bind, StateT.run_bind, hfile]
    exact hfiles

/-- Files that are reported one after the other, in any format, give a report that holds them in
this order. Its numbers are those of the files: how many there are, how many could not be read, in
how many something was found, and how many errors and warnings were found in all. The exit code is 1
if a file could not be read or has an error, 2 if there are none of these but something was found,
and 0 if nothing was. -/
theorem reportFile_counts (s : Surroundings) (manner : Report.Manner) (session : Session)
    (files : List FileReport) :
    ∃ report after,
      (files.foldlM (reportFile s manner) {}).run.run session = (.ok report, after) ∧
      report.files = files ∧
      report.tally.files = files.length ∧
      report.tally.failures = files.countP FileReport.isFailure ∧
      report.tally.withFindings = files.countP FileReport.hasFindings ∧
      report.tally.errors =
        (report.files.flatMap FileReport.findings).countP (fun f => f.severity = .error) ∧
      report.tally.warnings =
        (report.files.flatMap FileReport.findings).countP (fun f => f.severity = .warning) ∧
      (report.tally.exitCode = 1 ↔ ∃ file ∈ report.files, file.IsBad) ∧
      (report.tally.exitCode = 2 ↔
        (¬ ∃ file ∈ report.files, file.IsBad) ∧ ∃ file ∈ report.files, ∃ f, f ∈ file.findings) ∧
      (report.tally.exitCode = 0 ↔
        (¬ ∃ file ∈ report.files, file.IsBad) ∧
          ¬ ∃ file ∈ report.files, ∃ f, f ∈ file.findings) := by
  obtain ⟨after, hrun⟩ := run_reportFiles s manner {} files session
  have hcounts := Report.counts_ofFiles files
  refine ⟨Report.ofFiles files, after, hrun, Report.files_ofFiles files, ?_⟩
  rw [Report.files_ofFiles]
  exact ⟨hcounts.files, hcounts.failures, hcounts.withFindings, hcounts.errors, hcounts.warnings,
    hcounts.exitCode_iff⟩

end Command

end Vintage
