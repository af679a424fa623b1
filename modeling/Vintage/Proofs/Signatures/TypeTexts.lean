import Vintage.Proofs.LetterCase
import Vintage.Proofs.RangeSyntax

/-!
# Names in the text of a type

A type is written with names, `?`, `|`, `&` and parentheses. Its names are read by cutting the text
at all these characters, without regard to what they mean. Between two of them that stand side by
side there is an empty piece, and empty pieces are dropped; so the names of the type are left, each
one once and in its place.

Results:
* `TypeHint.namesIn_append_cons`: the two sides of a connective are read on their own.
* `TypeName.namesIn_text`: a name is read as one piece, in lower case and without its backslashes.
* `TypeExpr.names_text`: the names that are read from the text of a type.
-/

namespace Vintage

/-! ## Types -/

/-- A name in a type, perhaps qualified, perhaps behind backslashes. -/
structure TypeName where
  /-- the number of backslashes before the name -/
  backslashes : Nat
  /-- the name without these, which may have further ones between its pieces -/
  body : String
  plain : ∀ c ∈ body.toList, Text.isBlank c = false ∧ TypeHint.isConnective c = false
  named : ∃ c ∈ body.toList.head?, c ≠ '\\'

/-- A type. -/
inductive TypeExpr where
  | name (n : TypeName)
  | nullable (t : TypeExpr)
  | union (t u : TypeExpr)
  | intersection (t u : TypeExpr)
  | parens (t : TypeExpr)

/-- The name as it is written. -/
def TypeName.text (n : TypeName) : String :=
  String.ofList (List.replicate n.backslashes '\\') ++ n.body

namespace TypeExpr

/-- The type as it is written. -/
def text : TypeExpr → String
  | name n => n.text
  | nullable t => "?" ++ t.text
  | union t u => t.text ++ "|" ++ u.text
  | intersection t u => t.text ++ "&" ++ u.text
  | parens t => "(" ++ t.text ++ ")"

/-- The names in a type, from left to right. -/
def leaves : TypeExpr → List TypeName
  | name n => [n]
  | nullable t => t.leaves
  | union t u => t.leaves ++ u.leaves
  | intersection t u => t.leaves ++ u.leaves
  | parens t => t.leaves

end TypeExpr

/-! ## Cutting at connectives -/

namespace TypeHint

/-- The names that are read from characters. -/
def namesIn (cs : List Char) : List String :=
  ((Text.splitOn isConnective cs).map fun piece =>
    Text.lower (Text.dropBackslashes (Text.trim (String.ofList piece)))).filter (!·.isEmpty)

theorem names_eq (h : TypeHint) : h.names = namesIn h.text.toList := rfl

theorem namesIn_nil : namesIn [] = [] := by decide +kernel

theorem namesIn_append_cons {c : Char} (hc : isConnective c = true) (cs ds : List Char) :
    namesIn (cs ++ c :: ds) = namesIn cs ++ namesIn ds := by
  simp only [namesIn, Text.splitOn_eq_splitOnP]
  rw [List.splitOnP_append_cons cs ds hc, List.map_append, List.filter_append]

theorem namesIn_cons {c : Char} (hc : isConnective c = true) (cs : List Char) :
    namesIn (c :: cs) = namesIn cs := by
  have h := namesIn_append_cons hc [] cs
  rwa [namesIn_nil, List.nil_append, List.nil_append] at h

theorem namesIn_concat {c : Char} (hc : isConnective c = true) (cs : List Char) :
    namesIn (cs ++ [c]) = namesIn cs := by
  rw [namesIn_append_cons hc, namesIn_nil, List.append_nil]

/-- Characters with no blank and no connective among them are read as one piece. -/
theorem namesIn_of_plain {cs : List Char}
    (h : ∀ c ∈ cs, Text.isBlank c = false ∧ isConnective c = false) :
    namesIn cs =
      [Text.lower (Text.dropBackslashes (String.ofList cs))].filter (!·.isEmpty) := by
  have htrim : Text.trim (String.ofList cs) = String.ofList cs := by
    rw [Text.trim, String.toList_ofList, Text.trimChars_eq_self fun c hc => (h c hc).1]
  rw [namesIn, Text.splitOn_eq_splitOnP, List.splitOnP_eq_singleton fun c hc => (h c hc).2,
    List.map_singleton, htrim]

end TypeHint

/-! ## Names -/

namespace TypeName

variable (n : TypeName)

theorem toList_text : n.text.toList = List.replicate n.backslashes '\\' ++ n.body.toList := by
  rw [text, String.toList_append, String.toList_ofList]

theorem plain_text :
    ∀ c ∈ n.text.toList, Text.isBlank c = false ∧ TypeHint.isConnective c = false := by
  rw [toList_text, List.forall_mem_append]
  refine ⟨?_, n.plain⟩
  intro c hc
  rw [List.eq_of_mem_replicate hc]
  decide

theorem dropBackslashes_text : Text.dropBackslashes n.text = n.body := by
  obtain ⟨c, hhead, hc⟩ := n.named
  have hstart : ∀ d ∈ n.body.toList.head?, d ≠ '\\' := by
    intro d hd
    rwa [← Option.mem_unique hhead hd]
  rw [Text.dropBackslashes, toList_text, Text.dropWhile_backslashes hstart, String.ofList_toList]

theorem lower_body_ne_empty : Text.lower n.body ≠ "" := by
  obtain ⟨c, hhead, -⟩ := n.named
  rw [Ne, Text.lower_eq_empty_iff]
  intro hempty
  rw [hempty] at hhead
  cases hhead

theorem namesIn_text : TypeHint.namesIn n.text.toList = [Text.lower n.body] := by
  rw [TypeHint.namesIn_of_plain n.plain_text, String.ofList_toList, dropBackslashes_text,
    List.filter_eq_self]
  intro name hname
  rw [List.mem_singleton.1 hname]
  simpa using n.lower_body_ne_empty

end TypeName

/-! ## Types -/

/-- The names that are read from the text of a type are those it has, from left to right, each
without the backslashes before it and in lower case. None of them is empty. -/
theorem TypeExpr.names_text (t : TypeExpr) (start stop : Nat) :
    let hint : TypeHint := { start, stop, text := t.text }
    hint.names = t.leaves.map (fun n => Text.lower n.body) ∧ "" ∉ hint.names := by
  have hnames : TypeHint.namesIn t.text.toList = t.leaves.map fun n => Text.lower n.body := by
    -- every connective of a text ends a name, so the cases differ only in where it stands
    induction t with
    | name n => exact n.namesIn_text
    | nullable t ih =>
      rw [text, String.toList_append, leaves, ← ih]
      exact TypeHint.namesIn_cons rfl _
    | union t u iht ihu | intersection t u iht ihu =>
      rw [text, String.append_assoc, String.toList_append, String.toList_append, leaves,
        List.map_append, ← iht, ← ihu]
      exact TypeHint.namesIn_append_cons rfl _ _
    | parens t ih =>
      rw [text, String.toList_append, String.toList_append, leaves, ← ih,
        ← TypeHint.namesIn_cons (c := '(') rfl]
      exact TypeHint.namesIn_concat rfl _
  refine ⟨hnames, ?_⟩
  rw [TypeHint.names_eq, hnames]
  intro hmem
  obtain ⟨n, -, hn⟩ := List.mem_map.1 hmem
  exact n.lower_body_ne_empty hn

example :
    ({ start := 0, stop := 9, text := "(A&\\B\\C)|?(\\\\Null)" } : TypeHint).names =
      ["a", "b\\c", "null"] := by
  decide +kernel

end Vintage
