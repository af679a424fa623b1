/-!
# Values of a settings document

* `Value` — what a key can be set to.
* `Value.record?` — the fields of a record, by name or by position.
* `Value.text?`, `Value.flag?`, `Value.texts?`, `Value.optional?` — reading a value of one shape.
-/

namespace Vintage.Settings

/-- How a table came to be, which says what may be added to it later. -/
inductive Origin where
  /-- written between braces: nothing -/
  | inline
  /-- above a table with a header: a header of its own -/
  | implied
  /-- in the key of an entry: further such keys -/
  | dotted
  /-- by a header: tables below it -/
  | header
deriving DecidableEq, Repr

/-- What a key can be set to. -/
inductive Value where
  | null
  | flag (b : Bool)
  | number (text : String)
  | moment (text : String)
  | text (s : String)
  | list (items : List Value)
  | table (origin : Origin) (entries : List (String × Value))
  /-- tables that share a header -/
  | tables (items : List Value)
deriving Inhabited

namespace Value

/-- The items of a list. -/
def items? : Value → Option (List Value)
  | list items => some items
  | tables items => some items
  | _ => none

/-- A text. -/
def text? : Value → Option String
  | text s => some s
  | _ => none

/-- A truth value. -/
def flag? : Value → Option Bool
  | flag b => some b
  | _ => none

/-- A list of texts. -/
def texts? (v : Value) : Option (List String) :=
  match v.items? with
  | some items => items.mapM text?
  | none => none

/-- A value that may be left out or be null. -/
def optional? {α : Type} (read : Value → Option α) : Option Value → Option (Option α)
  | none => some none
  | some null => some none
  | some v => (read v).map some

/-- A value that may be left out, and then is `default`. -/
def withDefault? {α : Type} (default : α) (read : Value → Option α) : Option Value → Option α
  | none => some default
  | some v => read v

/-- The fields of a record: the entries with their names, or the items of a list in their order.
Other entries are ignored, and so are further items unless the list has to be `exact`. -/
def record? (exact : Bool) (names : List String) (v : Value) : Option (List (Option Value)) :=
  match v with
  | table _ entries => some (names.map fun name => entries.lookup name)
  | _ =>
    match v.items? with
    | some items =>
      if exact && names.length < items.length then none
      else some ((List.range names.length).map fun i => items[i]?)
    | none => none

end Value

end Vintage.Settings
