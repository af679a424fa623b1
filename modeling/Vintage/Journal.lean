import Vintage.Text.Split
import Vintage.VersionRange

/-!
# Journals

A journal keeps what happens in a run, message by message.

* `Event` — what can happen.
* `Event.messages` — the messages about an event.
* `Journal.line` — a message as it is written, with the time before it.
-/

namespace Vintage

/-- What can happen in a run. -/
inductive Event where
  | message (text : String)
  | heading (title : String)
  | settingsLoad (path : String)
  | rangeChosen (range : VersionRange) (source : String)
  | rulesChosen (names : List String)
  | namesGiven (option : String) (count : Nat)
  | exempted (name option : String)
  | scanStart (files : Nat)
  | fileScanned (path : String) (tokens findings : Nat)
  | fileFailed (path reason : String)
  | scanComplete (files errors warnings : Nat)
deriving DecidableEq, Repr

namespace Event

/-- The line above and below a heading. -/
def rule : String := String.ofList (List.replicate 60 '=')

/-- A heading between two lines. -/
def headed (title : String) : List String := [rule, title, rule]

/-- The messages about an event. -/
def messages : Event → List String
  | message text => [text]
  | heading title => headed title
  | settingsLoad path => headed "CONFIGURATION LOADING" ++ ["Loading config from: " ++ path]
  | rangeChosen range source =>
    let said := if range.isAll then "not set, checking all versions" else range.text
    ["[" ++ source ++ "] testVersion: " ++ said]
  | rulesChosen names =>
    ["Enabled sniffs (" ++ toString names.length ++ "): " ++ Text.joinWith ", " names]
  | namesGiven option count => ["[options] " ++ option ++ ": " ++ toString count ++ " names"]
  | exempted name option => ["SUPPRESSED: " ++ name ++ " (listed in " ++ option ++ ")"]
  | scanStart files => headed "SCAN START" ++ ["Scanning " ++ toString files ++ " files"]
  | fileScanned path tokens findings =>
    [path ++ ": " ++ toString tokens ++ " tokens, " ++ toString findings ++ " diagnostics"]
  | fileFailed path reason => ["FAILED to read: " ++ path ++ " (" ++ reason ++ ")"]
  | scanComplete files errors warnings =>
    headed "SCAN COMPLETE" ++
      ["Files scanned: " ++ toString files, "Errors: " ++ toString errors,
        "Warnings: " ++ toString warnings]

end Event

namespace Journal

/-- A message as it is written, with the time before it. -/
def line (time message : String) : String := "[" ++ time ++ "] " ++ message ++ "\n"

/-- What is written about an event. -/
def entry (time : String) (event : Event) : String :=
  String.join (event.messages.map (line time))

end Journal

end Vintage
