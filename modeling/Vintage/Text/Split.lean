/-!
# Cutting texts at separators

* `splitOn` — the pieces between separator characters; there is always one more piece than
  separators.
* `splitFirst` — the two sides of the first separator.
* `joinWith` — texts joined with a separator between them.
-/

namespace Vintage.Text

/-- The pieces between the characters that `sep` accepts, empty ones included. -/
def splitOn (sep : Char → Bool) : List Char → List (List Char)
  | [] => [[]]
  | c :: cs =>
    if sep c then [] :: splitOn sep cs
    else
      match splitOn sep cs with
      | [] => [[c]]
      | piece :: pieces => (c :: piece) :: pieces

/-- What stands before and after the first `sep`; nothing if there is none. -/
def splitFirst (sep : Char) : List Char → Option (List Char × List Char)
  | [] => none
  | c :: cs =>
    if c = sep then some ([], cs)
    else (splitFirst sep cs).map fun (before, after) => (c :: before, after)

/-- The texts one after the other with `sep` between them. -/
def joinWith (sep : String) : List String → String
  | [] => ""
  | [s] => s
  | s :: rest => s ++ sep ++ joinWith sep rest

end Vintage.Text
