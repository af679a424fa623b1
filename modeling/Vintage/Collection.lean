import Vintage.Settings
import Vintage.Text.Ascii

/-!
# Collecting files

* `Collection.ofPaths` — the files that paths stand for, and the paths that lead nowhere.

A path to a file stands for that file, a path to a directory for the PHP files below it that the
settings do not exclude. The files are in the order of their paths, each once.
-/

namespace Vintage

/-- The files to look at, and the paths that lead nowhere. -/
structure Collection where
  files : List Path
  missing : List Path
deriving DecidableEq, Repr

namespace Collection

/-- Extensions of PHP files. -/
def extensions : List String := ["php", "inc", "phtml"]

/-- The name is that of a PHP file; the case of letters does not matter. -/
def isPhpName (name : String) : Bool :=
  (Path.extension? name).any fun ext => extensions.any (Text.sameLetters ext)

/-- The files below a directory, as paths behind the path of the directory. -/
def filesIn (tree : FileTree) (excluded : Path → Bool) (path : Path) (place : FilePlace) :
    List Path :=
  (tree.filesBelow place).filterMap fun names =>
    let relative : Path := ⟨false, names⟩
    if names.getLast?.any isPhpName && !excluded relative then some (path.join relative) else none

/-- The files that a path stands for; nothing if it leads nowhere. -/
def filesOf? (tree : FileTree) (origin : FilePlace) (excluded : Path → Bool) (path : Path) :
    Option (List Path) :=
  match tree.resolve origin path with
  | .error _ => none
  | .ok place =>
    match tree.node? place with
    | some (.file _) => some [path]
    | some .directory => some (filesIn tree excluded path place)
    | none => none

/-- The paths without those that have the components of the one before them. -/
def dropRepeatsAfter (last : Path) : List Path → List Path
  | [] => []
  | p :: ps =>
    if p.components = last.components then dropRepeatsAfter last ps
    else p :: dropRepeatsAfter p ps

/-- The paths of which no two in a row have the same components. -/
def dropRepeats : List Path → List Path
  | [] => []
  | p :: ps => p :: dropRepeatsAfter p ps

/-- The paths in ascending order, each once. Of paths with the same components the first stays. -/
def sorted (paths : List Path) : List Path :=
  dropRepeats (paths.mergeSort fun p q => p.compare q != .gt)

/-- The files that paths stand for, and the paths that lead nowhere. -/
def ofPaths (tree : FileTree) (origin : FilePlace) (excluded : Path → Bool) (paths : List Path) :
    Collection where
  files := sorted (paths.flatMap fun p => (filesOf? tree origin excluded p).getD [])
  missing := paths.filter fun p => (filesOf? tree origin excluded p).isNone

end Collection

end Vintage
