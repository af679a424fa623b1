import Vintage.Report.Basic
import Vintage.Report.Json
import Vintage.Report.Style
import Vintage.Text.Case

/-!
# Formats of a report

* `Format.text` — for people, with a summary at the end.
* `Format.raw` — a line for each finding.
* `Format.github` — an annotation for each finding.
* `Format.json` — one document at the end.

A report is written piece by piece: `Manner.filePart` for each file, `Manner.lastPart` at the end.
-/

namespace Vintage.Report

/-- How a report is written. -/
inductive Format where
  | text
  | json
  | raw
  | github
deriving DecidableEq, Repr

/-- The format with the given name; the case of letters does not matter. -/
def Format.ofName? (name : String) : Option Format :=
  match Text.lowerText name with
  | "text" => some .text
  | "json" => some .json
  | "raw" => some .raw
  | "github" => some .github
  | _ => none

/-! ## Text -/

/-- The name of a severity in capital letters. -/
def severityLabel (colours : Bool) : Severity → String
  | .error => Style.paint colours [.bold, .red] "ERROR"
  | .warning => Style.paint colours [.bold, .yellow] "WARNING"

/-- The line for a finding. -/
def findingLine (colours : Bool) (f : Finding) : String :=
  "  " ++ padLeft 4 (toString f.place.line) ++ ":" ++ padRight 3 (toString f.place.column) ++ " "
    ++ severityLabel colours f.severity ++ " " ++ f.message ++ " "
    ++ Style.paint colours [.dimmed] ("(" ++ f.code ++ ")") ++ "\n"

/-- The path of a file, a line for each finding in it, and an empty line. -/
def textBlock (colours : Bool) (path : String) (findings : List Finding) : String :=
  Style.paint colours [.bold] path ++ "\n"
    ++ String.join (findings.map (findingLine colours)) ++ "\n"

/-- The numbers at the end of a report. -/
def summaryText (colours : Bool) (versions : String) (t : Tally) : String :=
  "\n" ++ Style.paint colours [.bold, .underlined] "Summary" ++ "\n"
    ++ "  Test version: " ++ versions ++ "\n"
    ++ "  Files processed: " ++ toString t.files ++ "\n"
    ++ "  Files with issues: " ++ toString t.withFindings ++ "\n"
    ++ "  Errors: " ++ toString t.errors ++ "\n"
    ++ "  Warnings: " ++ toString t.warnings ++ "\n"
    ++ (if t.failures > 0 then "  Unreadable files: " ++ toString t.failures ++ "\n" else "")

/-! ## Lines for machines -/

/-- A finding on a line: path, line number, severity and message between colons. -/
def rawLine (path : String) (f : Finding) : String :=
  path ++ ":" ++ toString f.place.line ++ ":" ++ f.severity.text ++ ":" ++ f.message

/-- Characters that the message of an annotation cannot have, and what is written for them. The
percent sign comes first, since all of them are written with it. -/
def annotationEscapes : List (Char × String) := [('%', "%25"), ('\r', "%0D"), ('\n', "%0A")]

/-- The text with a character replaced wherever it stands. -/
def replaceChar (s : String) (c : Char) (t : String) : String :=
  String.ofList (s.toList.flatMap fun d => if d = c then t.toList else [d])

/-- The message of an annotation, which stands on one line. -/
def annotationMessage (message : String) : String :=
  annotationEscapes.foldl (fun s escape => replaceChar s escape.1 escape.2) message

/-- A finding as an annotation. -/
def annotation (path : String) (f : Finding) : String :=
  "::" ++ f.severity.text ++ " file=" ++ path ++ ",line=" ++ toString f.place.line
    ++ ",col=" ++ toString f.place.column ++ "::" ++ annotationMessage f.message

/-! ## JSON -/

/-- A finding as an object. -/
def findingObject (f : Finding) : Json.Layout :=
  Json.object
    [("position", Json.object
        [("token", Json.number f.place.token), ("line", Json.number f.place.line),
          ("column", Json.number f.place.column)]),
      ("severity", Json.text f.severity.text),
      ("message", Json.text f.message),
      ("code", Json.text f.code),
      ("data", Json.list (f.data.map Json.text))]

/-- A file as an object; without findings they are left out. -/
def fileObject : FileReport → Json.Layout
  | .scanned path [] => Json.object [("path", Json.text path)]
  | .scanned path findings =>
    Json.object [("path", Json.text path), ("diagnostics", Json.list (findings.map findingObject))]
  | .failed path reason => Json.object [("path", Json.text path), ("error", Json.text reason)]

/-- The numbers as an object. -/
def tallyObject (t : Tally) : Json.Layout :=
  Json.object
    [("files_processed", Json.number t.files),
      ("files_with_issues", Json.number t.withFindings),
      ("errors", Json.number t.errors),
      ("warnings", Json.number t.warnings),
      ("failures", Json.number t.failures)]

/-- The report as an object. -/
def reportObject (release versions : String) (r : Report) : Json.Layout :=
  Json.object
    [("version", Json.text release),
      ("test_version", Json.text versions),
      ("summary", tallyObject r.tally),
      ("files", Json.list (r.files.map fileObject))]

/-! ## Writing a report -/

/-- How to write a report. -/
structure Manner where
  format : Format
  verbose : Bool
  colours : Bool
deriving DecidableEq, Repr

/-- What is written about a file as soon as it is reported. -/
def Manner.filePart (m : Manner) : FileReport → String
  | .failed _ _ => ""
  | .scanned path [] => if m.verbose && m.format == .text then path ++ ": No issues\n" else ""
  | .scanned path findings =>
    match m.format with
    | .text => textBlock m.colours path findings
    | .raw => String.join (findings.map fun f => rawLine path f ++ "\n")
    | .github => String.join (findings.map fun f => annotation path f ++ "\n")
    | .json => ""

/-- What people are warned of as soon as a file is reported. -/
def Manner.fileWarning (m : Manner) : FileReport → String
  | .failed path reason =>
    if m.format == .text then
      Style.paint m.colours [.yellow] "Warning" ++ ": " ++ path ++ " - " ++ reason ++ "\n"
    else ""
  | .scanned _ _ => ""

/-- What is written at the end. -/
def Manner.lastPart (m : Manner) (release versions : String) (r : Report) : String :=
  match m.format with
  | .text => summaryText m.colours versions r.tally
  | .json => reportObject release versions r 0 ++ "\n"
  | .raw => ""
  | .github => ""

end Vintage.Report
