import Mathlib.Data.List.DropRight
import Vintage.Proofs.NestedBrackets

/-!
# Syntax of signatures

What a signature looks like, said without reading it. Positions stand for the tokens of a listing,
and layout is left out.

* `NameSyntax`, `TypeSyntax` — names and types, by the kinds of their tokens.
* `Declaration`, `Declaration.WellFormed` — a declared parameter and its parts.
* `Listing.DeclaresAll` — a list of parameters with its commas.
* `Listing.Introduces` — a function up to its parameters.
* `Listing.written`, `Listing.read` — the parameter that a declaration stands for, and the one that
  is read from it.
-/

namespace Vintage

/-! ## Types -/

/-- A piece of a qualified name. -/
def TokenKind.isNameWord : TokenKind → Bool
  | .name | .kwNamespace => true
  | _ => false

/-- Pieces of a name with a backslash between any two. -/
inductive PathSyntax : List TokenKind → Prop
  | word {k : TokenKind} (hk : k.isNameWord = true) : PathSyntax [k]
  | cons {k : TokenKind} {ks : List TokenKind} (hk : k.isNameWord = true) (h : PathSyntax ks) :
      PathSyntax (k :: .nsSeparator :: ks)

/-- A name, qualified or not. The word `namespace` is no name by itself. -/
inductive NameSyntax : List TokenKind → Prop
  | path {ks : List TokenKind} (h : PathSyntax ks) (hks : ks ≠ [.kwNamespace]) : NameSyntax ks
  | global {ks : List TokenKind} (h : PathSyntax ks) : NameSyntax (.nsSeparator :: ks)

/-- Keywords that are types. -/
def TokenKind.isTypeWord : TokenKind → Bool
  | .kwArray | .kwCallable | .kwStatic => true
  | _ => false

/-- A type. -/
inductive TypeSyntax : List TokenKind → Prop
  | name {ks : List TokenKind} (h : NameSyntax ks) : TypeSyntax ks
  | word {k : TokenKind} (hk : k.isTypeWord = true) : TypeSyntax [k]
  | nullable {ks : List TokenKind} (h : TypeSyntax ks) : TypeSyntax (.questionMark :: ks)
  | union {ks js : List TokenKind} (h : TypeSyntax ks) (h' : TypeSyntax js) :
      TypeSyntax (ks ++ .bitwiseOr :: js)
  | intersection {ks js : List TokenKind} (h : TypeSyntax ks) (h' : TypeSyntax js) :
      TypeSyntax (ks ++ .ampersand :: js)
  | parens {ks : List TokenKind} (h : TypeSyntax ks) :
      TypeSyntax (.openParen :: (ks ++ [.closeParen]))

/-- The kinds that types are written with. -/
def TokenKind.isOfType (k : TokenKind) : Bool :=
  k.isTypePiece || k == .ampersand || k == .kwNamespace

theorem PathSyntax.isNamePiece {ks : List TokenKind} (h : PathSyntax ks) :
    ∀ k ∈ ks, k = .nsSeparator ∨ k.isNameWord = true := by
  induction h with
  | word hk => exact fun k hmem => Or.inr (List.mem_singleton.1 hmem ▸ hk)
  | cons hk _ ih =>
    refine List.forall_mem_cons.2 ⟨Or.inr hk, List.forall_mem_cons.2 ⟨Or.inl rfl, ih⟩⟩

theorem NameSyntax.isNamePiece {ks : List TokenKind} (h : NameSyntax ks) :
    ∀ k ∈ ks, k = .nsSeparator ∨ k.isNameWord = true := by
  cases h with
  | path h => exact h.isNamePiece
  | global h => exact List.forall_mem_cons.2 ⟨Or.inl rfl, h.isNamePiece⟩

/-- A name has a piece that types are made of. -/
theorem NameSyntax.exists_typePiece {ks : List TokenKind} (h : NameSyntax ks) :
    ∃ k ∈ ks, k.isTypePiece = true := by
  cases h with
  | global h => exact ⟨_, List.mem_cons_self, rfl⟩
  | path h hks =>
    cases h with
    | @word k hk =>
      refine ⟨k, List.mem_cons_self, ?_⟩
      cases k <;> first | rfl | exact absurd rfl hks | cases hk
    | cons hk h => exact ⟨.nsSeparator, List.mem_cons_of_mem _ List.mem_cons_self, rfl⟩

theorem isOfType_of_namePiece {k : TokenKind} (h : k = .nsSeparator ∨ k.isNameWord = true) :
    k.isOfType = true := by
  rcases h with rfl | h
  · rfl
  · cases k <;> first | rfl | cases h

namespace TypeSyntax

variable {ks : List TokenKind}

theorem isOfType (h : TypeSyntax ks) : ∀ k ∈ ks, k.isOfType = true := by
  induction h with
  | name h => exact fun k hk => isOfType_of_namePiece (h.isNamePiece k hk)
  | @word k hk =>
    intro j hj
    obtain rfl := List.mem_singleton.1 hj
    cases j <;> first | rfl | cases hk
  | nullable _ ih => exact List.forall_mem_cons.2 ⟨rfl, ih⟩
  | union _ _ ih ih' =>
    exact List.forall_mem_append.2 ⟨ih, List.forall_mem_cons.2 ⟨rfl, ih'⟩⟩
  | intersection _ _ ih ih' =>
    exact List.forall_mem_append.2 ⟨ih, List.forall_mem_cons.2 ⟨rfl, ih'⟩⟩
  | parens _ ih =>
    refine List.forall_mem_cons.2 ⟨rfl, List.forall_mem_append.2 ⟨ih, ?_⟩⟩
    exact List.forall_mem_singleton.2 rfl

theorem exists_typePiece (h : TypeSyntax ks) : ∃ k ∈ ks, k.isTypePiece = true := by
  induction h with
  | name h => exact h.exists_typePiece
  | @word k hk =>
    refine ⟨k, List.mem_cons_self, ?_⟩
    cases k <;> first | rfl | cases hk
  | nullable => exact ⟨_, List.mem_cons_self, rfl⟩
  | union _ _ ih =>
    obtain ⟨k, hmem, hk⟩ := ih
    exact ⟨k, List.mem_append_left _ hmem, hk⟩
  | intersection _ _ ih =>
    obtain ⟨k, hmem, hk⟩ := ih
    exact ⟨k, List.mem_append_left _ hmem, hk⟩
  | parens => exact ⟨_, List.mem_cons_self, rfl⟩

theorem ne_nil (h : TypeSyntax ks) : ks ≠ [] := by
  rintro rfl
  obtain ⟨k, hk, -⟩ := h.exists_typePiece
  cases hk

/-- No type ends with `&`. -/
theorem getLast?_ne_ampersand (h : TypeSyntax ks) : ks.getLast? ≠ some .ampersand := by
  have hend (ks : List TokenKind) {js : List TokenKind} {k : TokenKind} (hjs : TypeSyntax js)
      (h : js.getLast? ≠ some .ampersand) : (ks ++ k :: js).getLast? ≠ some .ampersand := by
    obtain ⟨j, hj⟩ := Option.ne_none_iff_exists'.1 (mt List.getLast?_eq_none_iff.1 hjs.ne_nil)
    rwa [List.getLast?_append, List.getLast?_cons, hj, Option.getD_some, Option.some_or, ← hj]
  induction h with
  | name h =>
    intro hlast
    have := h.isNamePiece _ (List.mem_of_getLast? hlast)
    rcases this with hk | hk <;> cases hk
  | word hk =>
    intro hlast
    cases hlast
    cases hk
  | nullable h ih => exact hend [] h ih
  | union _ h' _ ih' => exact hend _ h' ih'
  | intersection _ h' _ ih' => exact hend _ h' ih'
  | parens =>
    rw [← List.cons_append, List.getLast?_concat]
    exact nofun

/-- The parentheses of a type are its only brackets, and it has no comma. -/
theorem nested (h : TypeSyntax ks) : Nested (· ≠ .comma) ks := by
  have hplain {k : TokenKind} (hk : k = .nsSeparator ∨ k.isNameWord = true) :
      k.isBracket = false ∧ k ≠ .comma := by
    rcases hk with rfl | hk
    · exact ⟨rfl, (by decide)⟩
    · cases k <;> first | exact ⟨rfl, (by decide)⟩ | cases hk
  induction h with
  | name h => exact .of_forall fun k hk => hplain (h.isNamePiece k hk)
  | @word k hk => cases k <;> first | exact .plain rfl (by decide) .nil | cases hk
  | nullable _ ih => exact .plain rfl (by decide) ih
  | union _ _ ih ih' => exact ih.append (.plain rfl (by decide) ih')
  | intersection _ _ ih ih' => exact ih.append (.plain rfl (by decide) ih')
  | parens _ ih => exact .group .round (ih.mono fun _ _ => trivial) .nil

end TypeSyntax

/-! ## Parameters -/

/-- Keywords before a parameter that is a property too. -/
def TokenKind.isModifier : TokenKind → Bool
  | .kwPublic | .kwProtected | .kwPrivate | .kwReadonly => true
  | _ => false

/-- A declared parameter, by the positions of its tokens without layout. -/
structure Declaration where
  modifiers : List Nat
  type : List Nat
  /-- the `&` before the variable -/
  reference : Option Nat
  ellipsis : Option Nat
  /-- the variable -/
  position : Nat
  /-- the `=` and the default -/
  value : List Nat

namespace Declaration

/-- What stands before the variable. -/
def head (d : Declaration) : List Nat :=
  d.modifiers ++ (d.type ++ (d.reference.toList ++ d.ellipsis.toList))

/-- All positions. -/
def positions (d : Declaration) : List Nat := d.head ++ d.position :: d.value

end Declaration

namespace Listing

/-- The kinds of the tokens at the positions. -/
def kindsAt (l : Listing) (ps : List Nat) : List TokenKind := ps.filterMap l.kind?

/-- The text of the tokens at the positions. -/
def textAt (l : Listing) (ps : List Nat) : String :=
  String.join (ps.filterMap fun i => (l.get? i).map Token.text)

/-- The positions of the significant tokens between two positions. -/
def significantBetween (l : Listing) (a b : Nat) : List Nat :=
  (List.range' (a + 1) (b - (a + 1))).filter fun i => (l.get? i).any Token.isSignificant

end Listing

/-- The parts of the declaration are what they should be. The default is well nested; it has no
commas outside of its brackets, and no attributes. -/
structure Declaration.WellFormed (l : Listing) (d : Declaration) : Prop where
  modifiers : ∀ k ∈ l.kindsAt d.modifiers, k.isModifier = true
  type : d.type = [] ∨ TypeSyntax (l.kindsAt d.type)
  reference : ∀ i ∈ d.reference, l.kind? i = some .ampersand
  ellipsis : ∀ i ∈ d.ellipsis, l.kind? i = some .ellipsis
  position : l.kind? d.position = some .variableName
  value : d.value = [] ∨ ∃ ks, l.kindsAt d.value = .equal :: ks ∧ Nested (· ≠ .comma) ks ∧
    .attributeStart ∉ ks

namespace Listing

/-- The positions hold a list of parameters, with a comma between any two and perhaps one after the
last. -/
inductive DeclaresAll (l : Listing) : List Nat → List Declaration → Prop
  | nil : DeclaresAll l [] []
  | last {d : Declaration} (hd : d.WellFormed l) : DeclaresAll l d.positions [d]
  | cons {d : Declaration} {c : Nat} {ps : List Nat} {ds : List Declaration} (hd : d.WellFormed l)
      (hc : l.kind? c = some .comma) (h : DeclaresAll l ps ds) :
      DeclaresAll l (d.positions ++ c :: ps) (d :: ds)

/-- A function stands at the first position, perhaps with an `&` and a name, and its parameters open
at the second. -/
structure Introduces (l : Listing) (f opener : Nat) : Prop where
  keyword : l.kind? f = some .kwFunction ∨ l.kind? f = some .kwFn
  lt : f < opener
  between : l.kindsAt (l.significantBetween f opener) ∈
    [[], [.ampersand], [.name], [.ampersand, .name]]
  paren : l.kind? opener = some .openParen

/-! ## What is read from a declaration -/

/-- The first and the last of the positions. -/
def endsOf? (ps : List Nat) : Option (Nat × Nat) :=
  ps.head?.bind fun first => ps.getLast?.map fun last => (first, last)

/-- The type whose tokens stand at the positions. -/
def hintOf? (l : Listing) (ps : List Nat) : Option TypeHint :=
  (endsOf? ps).map fun ends => { start := ends.1, stop := ends.2 + 1, text := l.textAt ps }

/-- The word `namespace` stands at the position. -/
def isNamespaceWord (l : Listing) (i : Nat) : Bool := l.kind? i == some .kwNamespace

/-- The positions without the word `namespace` at the ends. -/
def withoutOuterNamespace (l : Listing) (ps : List Nat) : List Nat :=
  (ps.dropWhile l.isNamespaceWord).rdropWhile l.isNamespaceWord

/-- The declared parameter with the type that is given. -/
def parameterWith (l : Listing) (d : Declaration) (type : List Nat) : Parameter where
  name := ((l.get? d.position).map Token.text).getD ""
  position := d.position
  type := l.hintOf? type
  byReference := d.reference.isSome

/-- The parameter that a declaration stands for. -/
def written (l : Listing) (d : Declaration) : Parameter := l.parameterWith d d.type

/-- The parameter that is read from a declaration. -/
def read (l : Listing) (d : Declaration) : Parameter :=
  l.parameterWith d (l.withoutOuterNamespace d.type)

end Listing

end Vintage
