import Vintage.Feature

/-!
# Catalogues of features

Features are looked up by name, leading backslashes and the case of ASCII letters ignored.

* `Catalogue.find?` — the last feature of a name.
* `Catalogue.findPrefix?` — the feature with the longest name that a text starts with.
-/

namespace Vintage

/-- Features with the keys under which they are found. -/
structure Catalogue where
  entries : List (String × Feature)

namespace Catalogue

/-- The catalogue of the given features. -/
def ofFeatures (features : List Feature) : Catalogue where
  entries := features.map fun f => (Text.lower f.name, f)

/-- The features, in the order given. -/
def features (c : Catalogue) : List Feature := c.entries.map (·.2)

/-- The number of features. -/
def size (c : Catalogue) : Nat := c.entries.length

/-- The key of a name. -/
def keyOf (name : String) : String := Text.lower (Text.dropBackslashes name)

/-- The last feature whose name has the key of `name`. -/
def find? (c : Catalogue) (name : String) : Option Feature :=
  c.entries.reverse.lookup (keyOf name)

/-- The longer of two entries; of two that are equally long, the second. -/
def longer (a b : String × Feature) : String × Feature :=
  if b.1.length < a.1.length then a else b

/-- The last feature among those with the longest name that `name` starts with. -/
def findPrefix? (c : Catalogue) (name : String) : Option Feature :=
  let key := (keyOf name).toList
  match c.entries.filter fun e => e.1.toList.isPrefixOf key with
  | [] => none
  | e :: rest => some (rest.foldl longer e).2

end Catalogue

end Vintage
