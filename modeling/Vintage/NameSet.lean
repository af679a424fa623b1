import Vintage.Text.Ascii
import Vintage.Text.Blank
import Vintage.Text.Case
import Vintage.Text.Split

/-!
# Sets of names

Names are kept in a normal form: trimmed, without leading backslashes, in lower case. A name
whose normal form is empty is no name.

* `NameSet.normalForm` — the normal form of a name.
* `NameSet.insert`, `NameSet.ofList`, `NameSet.ofText` — building a set.
* `NameSet.contains`, `NameSet.size` — asking it.
-/

namespace Vintage

/-- A set of names in normal form, without repetition. -/
structure NameSet where
  names : List String := []
deriving DecidableEq, Repr

namespace NameSet

/-- The form under which names are kept and compared. -/
def normalForm (name : String) : String :=
  Text.lowerText (Text.dropBackslashes (Text.trim name))

/-- Adds a name; one without a normal form is ignored. -/
def insert (set : NameSet) (name : String) : NameSet :=
  let form := normalForm name
  if form.isEmpty || set.names.contains form then set else { names := set.names ++ [form] }

/-- Adds names one after the other. -/
def insertAll (set : NameSet) (names : List String) : NameSet := names.foldl insert set

/-- The set of the given names. -/
def ofList (names : List String) : NameSet := insertAll {} names

/-- The set of the names between the commas of a text. -/
def ofText (text : String) : NameSet :=
  ofList ((Text.splitOn (· == ',') text.toList).map String.ofList)

/-- The name is in the set, whatever its spelling. -/
def contains (set : NameSet) (name : String) : Bool := set.names.contains (normalForm name)

/-- The number of names. -/
def size (set : NameSet) : Nat := set.names.length

/-- There are no names. -/
def isEmpty (set : NameSet) : Bool := set.names.isEmpty

end NameSet

end Vintage
