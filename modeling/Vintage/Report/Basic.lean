import Vintage.Finding

/-!
# Reports

A report collects what has been found, file by file, and keeps count.

* `FileReport` — what there is to say about one file.
* `Tally` — the numbers of files, errors and warnings.
* `Report.add` — one more file.
* `Tally.exitCode` — the code that a run ends with.
-/

namespace Vintage

/-- What there is to say about one file. -/
inductive FileReport where
  /-- the file has been looked at -/
  | scanned (path : String) (findings : List Finding)
  /-- the file could not be read -/
  | failed (path reason : String)
deriving DecidableEq, Repr

namespace FileReport

/-- The file. -/
def path : FileReport → String
  | scanned path _ => path
  | failed path _ => path

/-- What has been found in the file. -/
def findings : FileReport → List Finding
  | scanned _ findings => findings
  | failed _ _ => []

end FileReport

/-- The numbers of a report. -/
structure Tally where
  files : Nat := 0
  withFindings : Nat := 0
  errors : Nat := 0
  warnings : Nat := 0
  failures : Nat := 0
deriving DecidableEq, Repr

namespace Tally

/-- Counts one more file. -/
def add (t : Tally) : FileReport → Tally
  | .failed _ _ => { t with files := t.files + 1, failures := t.failures + 1 }
  | .scanned _ findings =>
    let errors := findings.countP Finding.isError
    { t with
      files := t.files + 1
      withFindings := if findings.isEmpty then t.withFindings else t.withFindings + 1
      errors := t.errors + errors
      warnings := t.warnings + (findings.length - errors) }

/-- The code that a run ends with: 1 after errors or failures, 2 after warnings alone. -/
def exitCode (t : Tally) : Nat :=
  if t.errors > 0 || t.failures > 0 then 1
  else if t.warnings > 0 then 2
  else 0

end Tally

/-- The files reported so far, and their numbers. -/
structure Report where
  files : List FileReport := []
  tally : Tally := {}
deriving DecidableEq, Repr

namespace Report

/-- The report with one more file. -/
def add (r : Report) (file : FileReport) : Report where
  files := r.files ++ [file]
  tally := r.tally.add file

/-- The report of files in the order given. -/
def ofFiles (files : List FileReport) : Report := files.foldl add {}

end Report

end Vintage
