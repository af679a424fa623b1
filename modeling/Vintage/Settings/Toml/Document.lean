import Vintage.Settings.Toml.Literal
import Vintage.Settings.Value

/-!
# TOML documents

A document is a list of statements, one a line: a header, which says which table the next lines
are about, or an entry, which sets a key. Nothing can be set twice.

* `addEntry`, `addHeader`, `addTable` — what a statement does to the tables.
* `value?` — the value of an entry.
* `document?` — the tables of a document.
-/

namespace Vintage.Settings.Toml

/-- The entries of a table. -/
abbrev Entries := List (String × Value)

/-! ## Tables -/

/-- Sets the value of a key that is there. -/
def replace (key : String) (v : Value) (entries : Entries) : Entries :=
  entries.map fun entry => if entry.1 = key then (key, v) else entry

/-- Changes the table that is reached through the given keys. Tables that are missing on the way
are made; of tables that share a header the last one is meant. What is no table, or a table in
braces, cannot be entered, and dotted keys do not enter a table that has a header. -/
def descend (dotted : Bool) (change : Origin → Entries → Option Entries) :
    List String → Origin → Entries → Option Entries
  | [], origin, entries => change origin entries
  | key :: keys, _, entries =>
    match entries.lookup key with
    | none =>
      let origin := if dotted then .dotted else .implied
      (descend dotted change keys origin []).map fun sub => entries ++ [(key, .table origin sub)]
    | some (.table origin sub) =>
      if origin = .inline || (dotted && origin = .header) then none
      else
        (descend dotted change keys origin sub).map fun sub =>
          replace key (.table origin sub) entries
    | some (.tables items) =>
      match items.getLast? with
      | some (.table origin sub) =>
        (descend dotted change keys origin sub).map fun sub =>
          replace key (.tables (items.dropLast ++ [.table origin sub])) entries
      | _ => none
    | some _ => none

/-- Sets a key of a table. -/
def addEntry (keys : List String) (v : Value) (origin : Origin) (entries : Entries) :
    Option Entries :=
  match keys.getLast? with
  | none => none
  | some key =>
    let path := keys.dropLast
    let change (o : Origin) (es : Entries) : Option Entries :=
      if (o == .dotted) == path.isEmpty || (es.lookup key).isSome then none
      else some (es ++ [(key, v)])
    descend true change path origin entries

/-- Makes a table with a header, or gives a table that has been implied its header. -/
def addHeader (keys : List String) (entries : Entries) : Option Entries :=
  match keys.getLast? with
  | none => none
  | some key =>
    let change (_ : Origin) (es : Entries) : Option Entries :=
      match es.lookup key with
      | none => some (es ++ [(key, .table .header [])])
      | some (.table .implied sub) => some (replace key (.table .header sub) es)
      | some _ => none
    descend false change keys.dropLast .header entries

/-- Makes one more of the tables that share a header. -/
def addTable (keys : List String) (entries : Entries) : Option Entries :=
  match keys.getLast? with
  | none => none
  | some key =>
    let change (_ : Origin) (es : Entries) : Option Entries :=
      match es.lookup key with
      | none => some (es ++ [(key, .tables [.table .header []])])
      | some (.tables items) => some (replace key (.tables (items ++ [.table .header []])) es)
      | some _ => none
    descend false change keys.dropLast .header entries

/-! ## Values -/

/-- Characters of numbers, dates, times and truth values. -/
def isWord (c : Char) : Bool := isBare c || c == '+' || c == '.' || c == ':'

/-- A value that is a single word; a date may have a time behind a space. -/
def word? (cs : List Char) : Read Value :=
  let word := cs.takeWhile isWord
  let rest := cs.dropWhile isWord
  let text := String.ofList word
  if text = "true" then some (.flag true, rest)
  else if text = "false" then some (.flag false, rest)
  else if isDate word then
    match rest with
    | ' ' :: more =>
      let clock := more.takeWhile isWord
      if isClock clock then
        some (.moment (text ++ " " ++ String.ofList clock), more.dropWhile isWord)
      else some (.moment text, rest)
    | _ => some (.moment text, rest)
  else if isMoment word then some (.moment text, rest)
  else if isNumber word then some (.number text, rest)
  else none

mutual

/-- A value. Lists and tables in braces nest at most `depth` deep. Every step takes a character or
opens a list, so twice the length is enough fuel. -/
def value? (depth : Nat) : Nat → List Char → Read Value
  | 0, _ => none
  | fuel + 1, cs =>
    match cs with
    | '[' :: rest =>
      match depth with
      | 0 => none
      | depth + 1 => items? depth fuel [] rest
    | '\x7b' :: rest =>
      match depth with
      | 0 => none
      | depth + 1 =>
        match skipSpace rest with
        | '\x7d' :: after => some (.table .inline [], after)
        | rest => fields? depth fuel [] rest
    | '"' :: _ => (quoted? cs).map fun (s, rest) => (.text s, rest)
    | '\x27' :: _ => (quoted? cs).map fun (s, rest) => (.text s, rest)
    | _ => word? cs

/-- The items of a list behind those that have been read, which are kept in reverse. -/
def items? (depth : Nat) : Nat → List Value → List Char → Read Value
  | 0, _, _ => none
  | fuel + 1, read, cs =>
    match skipLayout? cs with
    | none => none
    | some (']' :: rest) => some (.list read.reverse, rest)
    | some cs =>
      match value? depth fuel cs with
      | none => none
      | some (v, rest) =>
        match skipLayout? rest with
        | some (',' :: rest) => items? depth fuel (v :: read) rest
        | some (']' :: rest) => some (.list (v :: read).reverse, rest)
        | _ => none

/-- The entries of a table in braces behind those that have been read. -/
def fields? (depth : Nat) : Nat → Entries → List Char → Read Value
  | 0, _, _ => none
  | fuel + 1, read, cs =>
    match key? cs with
    | some (keys, '=' :: rest) =>
      match value? depth fuel (skipSpace rest) with
      | none => none
      | some (v, rest) =>
        match addEntry keys v .inline read with
        | none => none
        | some entries =>
          match skipSpace rest with
          | ',' :: rest => fields? depth fuel entries rest
          | '\x7d' :: rest => some (.table .inline entries, rest)
          | _ => none
    | _ => none

end

/-! ## Documents -/

/-- How deep lists and tables in braces may nest. -/
def depthLimit : Nat := 79

/-- The statements read: the tables, and which of them the next entries belong to. -/
structure Document where
  entries : Entries := []
  current : List String := []

namespace Document

/-- Reads a header. -/
def header? (doc : Document) : List Char → Read Document
  | '[' :: rest =>
    match key? rest with
    | some (keys, ']' :: ']' :: rest) =>
      (addTable keys doc.entries).map fun entries => (⟨entries, keys⟩, rest)
    | _ => none
  | rest =>
    match key? rest with
    | some (keys, ']' :: rest) =>
      (addHeader keys doc.entries).map fun entries => (⟨entries, keys⟩, rest)
    | _ => none

/-- Reads an entry. -/
def entry? (doc : Document) (cs : List Char) : Read Document :=
  match key? cs with
  | some (keys, '=' :: rest) =>
    match value? depthLimit (2 * rest.length + 2) (skipSpace rest) with
    | some (v, rest) =>
      (descend false (addEntry keys v) doc.current .header doc.entries).map fun entries =>
        ({ doc with entries := entries }, rest)
    | none => none
  | _ => none

/-- Reads a statement, if there is one in the line. -/
def statement? (doc : Document) (cs : List Char) : Read Document :=
  match skipSpace cs with
  | '[' :: rest => doc.header? rest
  | '#' :: rest => some (doc, '#' :: rest)
  | '\n' :: rest => some (doc, '\n' :: rest)
  | '\r' :: rest => some (doc, '\r' :: rest)
  | [] => some (doc, [])
  | rest => doc.entry? rest

/-- Reads statements to the end. Each line takes a character, so the length is enough fuel. -/
def readFrom : Nat → Document → List Char → Option Document
  | _, doc, [] => some doc
  | 0, _, _ => none
  | fuel + 1, doc, cs =>
    match doc.statement? cs with
    | none => none
    | some (doc, rest) =>
      match lineEnd? rest with
      | some rest => readFrom fuel doc rest
      | none => none

end Document

/-- The tables of a document; a mark of the byte order at the start does not count. -/
def document? (text : String) : Option Value :=
  let cs :=
    match text.toList with
    | '\ufeff' :: rest => rest
    | cs => cs
  (Document.readFrom cs.length {} cs).map fun doc => .table .header doc.entries

end Vintage.Settings.Toml
