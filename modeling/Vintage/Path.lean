import Vintage.Text.Split

/-!
# Paths

A path is a text whose pieces stand between slashes. Two paths name the same thing if they have the
same components: empty pieces and pieces `.` do not count, a leading `.` excepted.

* `Path.ofText`, `Path.text` — reading and writing; the text is kept as it was given.
* `Path.components` — what a path is compared by.
* `Path.join`, `Path.parent?`, `Path.fileName?`, `Path.ancestors` — moving along paths.
-/

namespace Vintage

/-- A path, cut at its slashes. -/
structure Path where
  /-- the path starts with a slash, which is not among the pieces -/
  absolute : Bool
  /-- what stands between the slashes, empty pieces included -/
  pieces : List String
deriving DecidableEq, Repr

namespace Path

/-- The path with the given text. -/
def ofText (text : String) : Path :=
  match text.toList with
  | '/' :: rest => ⟨true, (Text.splitOn (· == '/') rest).map String.ofList⟩
  | cs => ⟨false, (Text.splitOn (· == '/') cs).map String.ofList⟩

/-- The text of a path. -/
def text (p : Path) : String :=
  (if p.absolute then "/" else "") ++ Text.joinWith "/" p.pieces

/-! ## Components -/

/-- A step that a path takes. -/
inductive Component where
  /-- to the root of all files -/
  | root
  /-- nowhere -/
  | current
  /-- to the directory above -/
  | parent
  /-- to something of the given name -/
  | normal (name : String)
deriving DecidableEq, Repr

namespace Component

/-- The written form of a component. -/
def text : Component → String
  | root => "/"
  | current => "."
  | parent => ".."
  | normal name => name

/-- The place of each kind of component in the order. -/
def rank : Component → Nat
  | root => 0
  | current => 1
  | parent => 2
  | normal _ => 3

/-- Components are ordered by kind, names by their characters. -/
def compare (a b : Component) : Ordering :=
  (Ord.compare a.rank b.rank).then (Ord.compare a.text b.text)

/-- The component that a piece stands for, if it counts. -/
def ofPiece? (piece : String) : Option Component :=
  if piece = "" || piece = "." then none
  else if piece = ".." then some parent
  else some (normal piece)

end Component

/-- The components of a path. -/
def components (p : Path) : List Component :=
  match p.absolute, p.pieces with
  | true, pieces => .root :: pieces.filterMap Component.ofPiece?
  | false, "." :: pieces => .current :: pieces.filterMap Component.ofPiece?
  | false, pieces => pieces.filterMap Component.ofPiece?

/-- Lists of components are ordered from the left; a path comes before those that go on from it. -/
def compareComponents : List Component → List Component → Ordering
  | [], [] => .eq
  | [], _ :: _ => .lt
  | _ :: _, [] => .gt
  | a :: as, b :: bs => (a.compare b).then (compareComponents as bs)

/-- Paths are ordered by their components. -/
def compare (p q : Path) : Ordering := compareComponents p.components q.components

/-! ## Moving along paths -/

/-- The second path seen from the first: an absolute path stays, any other is put behind. -/
def join (p q : Path) : Path :=
  if q.absolute then q
  else
    match p.pieces.getLast? with
    | some "" => ⟨p.absolute, p.pieces.dropLast ++ q.pieces⟩
    | _ => ⟨p.absolute, p.pieces ++ q.pieces⟩

/-- The pieces without those at the end that do not count. -/
def trimmed (pieces : List String) : List String :=
  (pieces.reverse.dropWhile fun piece => piece == "" || piece == ".").reverse

/-- The pieces of a path without those at the end that do not count. -/
def body (p : Path) : List String :=
  match p.absolute, p.pieces with
  | false, "." :: pieces => "." :: trimmed pieces
  | _, pieces => trimmed pieces

/-- The path without its last component; the root and the empty path have none. -/
def parent? (p : Path) : Option Path :=
  match p.body with
  | [] => none
  | pieces =>
    match (Path.mk p.absolute pieces.dropLast).body with
    | [] => some ⟨p.absolute, [""]⟩
    | rest => some ⟨p.absolute, rest⟩

/-- The last component, if it is a name. -/
def fileName? (p : Path) : Option String :=
  match p.components.getLast? with
  | some (.normal name) => some name
  | _ => none

/-- The components before the last one; there are none above the root. -/
def directories (p : Path) : List Component :=
  match p.components.getLast? with
  | some .root => []
  | _ => p.components.dropLast

/-- At most `fuel` paths above a path, the nearest first. -/
def ancestorsFrom : Nat → Path → List Path
  | 0, _ => []
  | fuel + 1, p =>
    match p.parent? with
    | some q => q :: ancestorsFrom fuel q
    | none => []

/-- The path and the paths above it, the nearest first. A step up drops a piece, so there are no
more of them than pieces. -/
def ancestors (p : Path) : List Path := p :: ancestorsFrom (p.pieces.length + 1) p

/-- The part of a file name behind its last dot; a dot at the start is a part of the name. -/
def extension? (fileName : String) : Option String :=
  let back := fileName.toList.reverse
  match back.dropWhile (· != '.') with
  | [] => none
  | ['.'] => none
  | _ => if fileName = ".." then none else some (String.ofList (back.takeWhile (· != '.')).reverse)

end Path

end Vintage
