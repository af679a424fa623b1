import Vintage.Path
import Vintage.Text.Utf8

/-!
# Trees of files

A tree of files is a value: what there is at which place. A place is the list of names that leads
to it from the root. Everything that others are below is a directory, and everything has a proper
name.

* `FileTree.insert`, `FileTree.ofEntries` — putting things at places.
* `FileTree.node?` — what is at a place.
* `FileTree.resolve` — the place that a path leads to.
* `FileTree.find`, `FileTree.read`, `FileTree.readText` — asking by path.
* `FileTree.filesBelow` — the files below a place.
* `FileTree.clear`, `FileTree.append` — writing files.
-/

namespace Vintage

/-- What can be at a place. -/
inductive Node where
  | file (bytes : ByteArray)
  | directory

/-- Why a file cannot be used. -/
inductive FileError where
  | missing
  | notDirectory
  | isDirectory
  | notText
deriving DecidableEq, Repr

/-- The wording of a file error. -/
def FileError.message : FileError → String
  | missing => "No such file or directory (os error 2)"
  | notDirectory => "Not a directory (os error 20)"
  | isDirectory => "Is a directory (os error 21)"
  | notText => "stream did not contain valid UTF-8"

/-- The node is a file. -/
def Node.isFile : Node → Bool
  | .file _ => true
  | .directory => false

/-- A name that a file or directory can have. -/
def IsFileName (name : String) : Prop :=
  name ≠ "" ∧ name ≠ "." ∧ name ≠ ".." ∧ '/' ∉ name.toList

instance : DecidablePred IsFileName := fun name =>
  inferInstanceAs (Decidable (name ≠ "" ∧ name ≠ "." ∧ name ≠ ".." ∧ '/' ∉ name.toList))

/-- The names that lead to something from the root. -/
abbrev FilePlace := List String

/-- The first place is above the second. -/
def FilePlace.above (a b : FilePlace) : Bool := a.length < b.length && a.isPrefixOf b

/-- A tree of files. An entry before another one for the same place hides it. -/
structure FileTree where
  entries : List (FilePlace × Node) := []
  /-- files and directories have proper names -/
  names : ∀ e ∈ entries, ∀ name ∈ e.1, IsFileName name := by decide
  /-- what is a file is no directory, and has nothing below -/
  files : ∀ e ∈ entries, e.2.isFile = true → ∀ f ∈ entries,
    e.1.above f.1 = false ∧ (f.1 = e.1 → f.2.isFile = true) := by decide

namespace FileTree

/-! ## Putting things at places -/

/-- The node can be at the place: the names are proper, nothing above is a file, and a file has
nothing below. -/
structure Admits (tree : FileTree) (place : FilePlace) (node : Node) : Prop where
  names : ∀ name ∈ place, IsFileName name
  files_above : ∀ e ∈ tree.entries, e.2.isFile = true → e.1.above place = false
  nothing_below : node.isFile = true → ∀ e ∈ tree.entries, place.above e.1 = false

instance (tree : FileTree) (place : FilePlace) (node : Node) : Decidable (tree.Admits place node) :=
  decidable_of_iff
    ((∀ name ∈ place, IsFileName name) ∧
      (∀ e ∈ tree.entries, e.2.isFile = true → e.1.above place = false) ∧
      (node.isFile = true → ∀ e ∈ tree.entries, place.above e.1 = false))
    ⟨fun h => ⟨h.1, h.2.1, h.2.2⟩, fun h => ⟨h.names, h.files_above, h.nothing_below⟩⟩

/-- Puts a node at a place, if it can be there. -/
def insert (tree : FileTree) (place : FilePlace) (node : Node) : FileTree :=
  if h : tree.Admits place node then
    { entries := (place, node) :: tree.entries.filter fun entry => entry.1 != place
      names := by
        intro e he
        rcases List.mem_cons.1 he with rfl | he
        · exact h.names
        · exact tree.names e (List.mem_filter.1 he).1
      files := by
        intro e he hfile f hf
        rcases List.mem_cons.1 he with rfl | he <;> rcases List.mem_cons.1 hf with rfl | hf
        · exact ⟨by simp [FilePlace.above], fun _ => hfile⟩
        · obtain ⟨hf, hne⟩ := List.mem_filter.1 hf
          exact ⟨h.nothing_below hfile f hf, fun heq => absurd heq (by simpa using hne)⟩
        · obtain ⟨he, hne⟩ := List.mem_filter.1 he
          exact ⟨h.files_above e he hfile, fun heq => absurd heq.symm (by simpa using hne)⟩
        · exact tree.files e (List.mem_filter.1 he).1 hfile f (List.mem_filter.1 hf).1 }
  else tree

/-- The tree of the given entries, as far as they go together. -/
def ofEntries (entries : List (FilePlace × Node)) : FileTree :=
  entries.foldr (fun entry tree => tree.insert entry.1 entry.2) {}

/-! ## Asking -/

/-- What is at a place. The root is a directory, and so is what has something below it. -/
def node? (tree : FileTree) (place : FilePlace) : Option Node :=
  match tree.entries.find? fun entry => entry.1 == place with
  | some entry => some entry.2
  | none =>
    if place.isEmpty || tree.entries.any fun entry => place.above entry.1 then some .directory
    else none

/-- Takes one step from a place, which has to be a directory. -/
def step (tree : FileTree) (place : FilePlace) (piece : String) : Except FileError FilePlace :=
  match tree.node? place with
  | none => .error .missing
  | some (.file _) => .error .notDirectory
  | some .directory =>
    match Path.Component.ofPiece? piece with
    | some .parent => .ok place.dropLast
    | some (.normal name) => .ok (place ++ [name])
    | _ => .ok place

/-- The place that a path leads to from a directory. Nothing needs to be there, but everything on
the way has to be a directory. The empty path leads nowhere. -/
def resolve (tree : FileTree) (origin : FilePlace) (path : Path) : Except FileError FilePlace :=
  if !path.absolute && path.pieces == [""] then .error .missing
  else path.pieces.foldlM tree.step (if path.absolute then [] else origin)

/-- What a path leads to. -/
def find (tree : FileTree) (origin : FilePlace) (path : Path) : Except FileError Node :=
  match tree.resolve origin path with
  | .error e => .error e
  | .ok place =>
    match tree.node? place with
    | some node => .ok node
    | none => .error .missing

/-- The path leads to something. -/
def leadsSomewhere (tree : FileTree) (origin : FilePlace) (path : Path) : Bool :=
  match tree.find origin path with
  | .ok _ => true
  | .error _ => false

/-- The bytes of the file that a path leads to. -/
def read (tree : FileTree) (origin : FilePlace) (path : Path) : Except FileError (List UInt8) :=
  match tree.find origin path with
  | .ok (.file bytes) => .ok bytes.toList
  | .ok .directory => .error .isDirectory
  | .error e => .error e

/-- The text of the file that a path leads to. -/
def readText (tree : FileTree) (origin : FilePlace) (path : Path) : Except FileError String :=
  match tree.read origin path with
  | .error e => .error e
  | .ok bytes =>
    match Text.Utf8.decode? bytes with
    | some text => .ok text
    | none => .error .notText

/-- The places of the files below a place, seen from it. -/
def filesBelow (tree : FileTree) (place : FilePlace) : List FilePlace :=
  tree.entries.filterMap fun (p, node) =>
    match node with
    | .file _ => if place.above p then some (p.drop place.length) else none
    | .directory => none

/-! ## Writing -/

/-- The tree with an empty file where the path leads, and its place. -/
def clear (tree : FileTree) (origin : FilePlace) (path : Path) :
    Except FileError (FileTree × FilePlace) :=
  match tree.resolve origin path with
  | .error e => .error e
  | .ok place =>
    match tree.node? place with
    | some .directory => .error .isDirectory
    | _ => .ok (tree.insert place (.file .empty), place)

/-- The tree with text added to the file at a place. -/
def append (tree : FileTree) (place : FilePlace) (text : String) : FileTree :=
  match tree.node? place with
  | some (.file bytes) => tree.insert place (.file (bytes ++ text.toUTF8))
  | _ => tree

end FileTree

end Vintage
