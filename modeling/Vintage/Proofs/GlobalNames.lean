import Vintage.Listing.Occurrence
import Vintage.Proofs.SettledKinds
import Vintage.Proofs.TokenPlaces

/-!
# Names with a leading backslash

A name such as `\range` is one lexeme but two tokens, and whether its backslash is a leading one is
guessed again from the token before it: after a name, or after `namespace`, the backslash is taken
for one between two pieces of a name. So the guess is wrong exactly after a word that is read as a
name, be it an identifier such as the `from` of `yield from`, `namespace`, `enum`, or a keyword that
serves as the name of a member, a function or a constant.

Results:
* `Source.tokensFrom_append`: lexemes that leave nothing open can be turned into tokens apart.
* `Source.lexemeTokens_global`: the two tokens of a name with a leading backslash.
* `settledAt_separator`: the words that are read as names before a backslash.
* `Listing.occurrence?_global`: what is made of a name with a leading backslash.
-/

namespace Vintage

open Text.Utf8

/-! ## Lexemes apart -/

namespace Lexeme

/-- The lexeme that closes what the lexemes leave open: a string, a shell command or a here
document. -/
def awaited : (closing : Option LexemeKind) → List Lexeme → Option LexemeKind
  | closing, [] => closing
  | some closing, x :: rest => awaited (if x.kind = closing then none else some closing) rest
  | none, x :: rest => awaited ((Source.opening? x.kind).map Prod.snd) rest

/-- The lexeme is a backslash and a word without further backslashes. -/
structure IsGlobal (cs : List Char) (x : Lexeme) (word : List Char) : Prop where
  kind : x.kind = .globalName
  text : ∃ before after, cs = before ++ '\\' :: word ++ after ∧ x.start = size before ∧
    x.stop = size (before ++ '\\' :: word)
  ne_nil : word ≠ []
  plain : '\\' ∉ word

end Lexeme

namespace Source

open Lexeme (awaited)

/-- Lexemes that leave nothing open do not matter to the tokens of the lexemes after them. -/
theorem tokensFrom_append (s : Source) {before : List Lexeme} {pending : Option Pending}
    (h : awaited (pending.map Pending.closing) before = none) (rest : List Lexeme) :
    s.tokensFrom pending (before ++ rest) =
      s.tokensFrom pending before ++ s.tokensFrom none rest := by
  -- what is pending may be open at first; the hypothesis says that it is closed at the end
  induction before generalizing pending with
  | nil =>
    obtain rfl : pending = none := Option.map_eq_none_iff.1 h
    rfl
  | cons x before ih =>
    cases pending with
    | none =>
      rw [Option.map_none, awaited] at h
      rw [List.cons_append, tokensFrom, tokensFrom]
      cases hopening : opening? x.kind with
      | none =>
        rw [hopening] at h
        rw [List.append_assoc]
        exact congrArg _ (@ih none h)
      | some opened =>
        rw [hopening] at h
        exact ih h
    | some p =>
      rw [Option.map_some, awaited] at h
      rw [List.cons_append, tokensFrom, tokensFrom]
      split
      · rename_i hclosing
        rw [if_pos hclosing] at h
        exact congrArg _ (@ih none h)
      · rename_i hclosing
        rw [if_neg hclosing] at h
        exact ih h

/-- Bytes without backslashes are one piece. -/
theorem nameTokens_plain (s : Source) {start offset : Nat} {bytes : List UInt8}
    (h : '\\'.toUInt8 ∉ bytes) :
    s.nameTokens start offset bytes = s.pieceToken start (offset + bytes.length) := by
  induction bytes generalizing offset with
  | nil => rfl
  | cons byte bytes ih =>
    rw [List.mem_cons, not_or] at h
    rw [nameTokens, if_neg (by simpa using Ne.symm h.1), ih h.2, List.length_cons]
    congr 1
    omega

section Global

variable {cs : List Char} {x : Lexeme} {word : List Char} (hx : x.IsGlobal cs word)
include hx

/-- The text of a word after its leading backslash. -/
theorem slice_global : (ofChars cs).slice (x.start + 1) (x.start + 1 + size word) =
    String.ofList word := by
  obtain ⟨before, after, rfl, hstart, -⟩ := hx.text
  have hsize : size (before ++ ['\\']) = x.start + 1 := by
    rw [size_append, hstart]
    rfl
  have hslice := slice_eq (before ++ ['\\']) word after
  rwa [size_append _ word, hsize, ← List.append_cons] at hslice

/-- A name with a leading backslash is two tokens. -/
theorem lexemeTokens_global :
    (ofChars cs).lexemeTokens x =
      [(ofChars cs).token .nsSeparator x.start (x.start + 1),
        (ofChars cs).token (pieceKind (String.ofList word)) (x.start + 1)
          (x.start + 1 + size word)] := by
  have hpos : 0 < size word :=
    Nat.lt_of_lt_of_le (List.length_pos_of_ne_nil hx.ne_nil) (length_le_size word)
  have hbytes : ((ofChars cs).bytes.extract x.start x.stop).toList =
      '\\'.toUInt8 :: encode word := by
    obtain ⟨before, after, rfl, hstart, hstop⟩ := hx.text
    rw [hstart, hstop, toList_extract_bytes]
    rfl
  have hplain : '\\'.toUInt8 ∉ encode word :=
    fun hmem => hx.plain (mem_of_toUInt8_mem_encode (by decide) hmem)
  rw [lexemeTokens, hx.kind]
  simp only [hbytes]
  rw [nameTokens, if_pos (beq_self_eq_true _), nameTokens_plain _ hplain, length_encode, pieceToken,
    if_neg (Nat.lt_irrefl _), pieceToken, if_pos (by omega), slice_global hx]
  rfl

end Global

/-- The tokens around a name with a leading backslash that stands in no string. -/
theorem tokens_global {cs : List Char} {before : List Lexeme} {x : Lexeme} {word : List Char}
    (hx : x.IsGlobal cs word) (hopen : awaited none before = none) (after : List Lexeme) :
    (ofChars cs).tokens (before ++ x :: after) =
      (ofChars cs).tokens before ++
        (ofChars cs).token .nsSeparator x.start (x.start + 1) ::
        (ofChars cs).token (pieceKind (String.ofList word)) (x.start + 1)
          (x.start + 1 + size word) :: (ofChars cs).tokens after := by
  have hopening : opening? x.kind = none := by
    rw [hx.kind]
    rfl
  have hbefore := @tokensFrom_append (ofChars cs) before none hopen (x :: after)
  rw [tokens, hbefore, tokensFrom, hopening]
  simp only [lexemeTokens_global hx]
  rfl

end Source

/-! ## Words before a backslash -/

/-- Before a backslash, a token of the given kind is read as a name, or as `namespace`. -/
def Before.makesName (b : Before) (kind : TokenKind) : Bool :=
  kind == .name || kind == .kwNamespace || kind == .kwEnum
    || kind == .magicConstant && b.selectsMember
    || kind.isReserved && (b.selectsMember || b.declares)

/-- The words that are names, or `namespace`, once names are settled and a backslash follows. -/
theorem settledAt_separator (b : Before) (t : Token) {ts : List Token}
    (hnext : (ts.find? Token.isSignificant).map Token.kind = some .nsSeparator) :
    (settledAt b t ts = .name ∨ settledAt b t ts = .kwNamespace) ↔
      b.makesName t.kind = true := by
  rw [settledAt, hnext, settledKind, Before.makesName]
  generalize t.kind = kind
  -- `enum` and the magic constants have rules of their own, all other keywords have one in common
  by_cases henum : kind = .kwEnum
  · subst henum
    have hreserved : TokenKind.kwEnum.isReserved = true := rfl
    simp [hreserved]
  · by_cases hmagic : kind = .magicConstant
    · subst hmagic
      have hreserved : TokenKind.magicConstant.isReserved = false := rfl
      cases b.selectsMember <;> simp [hreserved]
    · cases hreserved : kind.isReserved <;> cases b.selectsMember <;> cases b.declares <;>
        simp [henum, hmagic]

namespace Listing

/-- The significant token before a position is read as a name, or as `namespace`, if a backslash
follows; `ts` are the tokens of the listing as they were before names were settled. -/
def followsName (l : Listing) (ts : List Token) (i : Nat) : Bool :=
  (l.previous? i).any fun p => ts[p]?.any fun t => (l.before p).makesName t.kind

/-! ## The guess -/

/-- After a backslash a name counts as qualified with a namespace if a name, or `namespace`, stands
before the backslash, and as a global one if not. -/
theorem qualifier_of_separator {l : Listing} {i p : Nat} (hp : l.previous? i = some p)
    (hkind : l.kind? p = some .nsSeparator) {named : Bool}
    (hnamed : (l.kindAt? (l.previous? p) = some .name ∨
      l.kindAt? (l.previous? p) = some .kwNamespace) ↔ named = true) :
    (l.qualifier i).namespaced = named ∧ (l.qualifier i).fullyQualified = !named := by
  rw [qualifier, hp]
  simp only [hkind, beq_self_eq_true, if_true]
  cases hq : l.previous? p with
  | none =>
    obtain rfl : named = false := by
      rw [hq] at hnamed
      simpa [kindAt?] using hnamed
    exact ⟨rfl, rfl⟩
  | some q =>
    rw [hq, kindAt?, Option.bind_some] at hnamed
    have htest : (l.kind? q == some .name || l.kind? q == some .kwNamespace) = named := by
      rw [Bool.eq_iff_iff, ← hnamed, Bool.or_eq_true, beq_iff_eq, beq_iff_eq]
    simp only [htest]
    cases named <;> exact ⟨rfl, rfl⟩

section Separator

variable {front rest : List Token} {separator : Token}
  (hts : ∀ t ∈ front ++ separator :: rest, t.scope = none)
  (hseparator : separator.kind = .nsSeparator)
include hts hseparator

/-- All that is between the last significant token and the backslash is layout. -/
theorem find?_before_separator {p : Nat}
    (hp : (ofTokens (front ++ separator :: rest)).previous? front.length = some p) :
    (((front ++ separator :: rest).drop (p + 1)).find? Token.isSignificant).map Token.kind =
      some .nsSeparator := by
  obtain ⟨hlt, -, hafter⟩ := previous?_eq_some_iff.1 hp
  have hlayout : (front.drop (p + 1)).find? Token.isSignificant = none := by
    rw [List.find?_eq_none]
    intro t ht
    obtain ⟨j, hj⟩ := List.mem_iff_getElem?.1 ht
    rw [List.getElem?_drop] at hj
    have hjlt : p + 1 + j < front.length := (List.getElem?_eq_some_iff.1 hj).1
    have hsig := hafter (p + 1 + j) (by omega) hjlt
    rw [any_isSignificant_ofTokens hts, List.getElem?_append_left hjlt, hj, Option.any_some] at hsig
    simp [hsig]
  rw [List.drop_append_of_le_length (by omega), List.find?_append, hlayout, Option.none_or,
    List.find?_cons_of_pos (by rw [Token.isSignificant, hseparator]; rfl), Option.map_some,
    hseparator]

theorem previous?_after_separator :
    (ofTokens (front ++ separator :: rest)).kind? front.length = some .nsSeparator ∧
      (ofTokens (front ++ separator :: rest)).previous? (front.length + 1) =
        some front.length := by
  have hkind : (ofTokens (front ++ separator :: rest)).kind? front.length =
      some .nsSeparator := by
    rw [kind?_ofTokens hts, List.getElem?_append_right (Nat.le_refl _), Nat.sub_self,
      List.getElem?_cons_zero, Option.map_some, settledAt, hseparator]
    rfl
  exact ⟨hkind, previous?_succ hkind⟩

/-- The token before the backslash is a name or `namespace` in the listing if and only if it is read
as one. -/
theorem kindAt?_before_separator :
    let l := ofTokens (front ++ separator :: rest)
    (l.kindAt? (l.previous? front.length) = some .name ∨
        l.kindAt? (l.previous? front.length) = some .kwNamespace) ↔
      l.followsName front front.length = true := by
  intro l
  rw [followsName]
  cases hp : l.previous? front.length with
  | none => simp [kindAt?]
  | some p =>
    have hlt : p < front.length := (previous?_eq_some_iff.1 hp).1
    have hnext := find?_before_separator hts hseparator hp
    rw [Option.any_some, kindAt?, Option.bind_some, kind?_ofTokens hts,
      List.getElem?_append_left hlt, List.getElem?_eq_getElem hlt, Option.map_some, Option.any_some,
      Option.some.injEq, Option.some.injEq]
    exact settledAt_separator _ _ hnext

end Separator

/-- The name of an occurrence and its qualification are those of its token. -/
theorem occurrence?_eq_some {l : Listing} {i : Nat} {o : Occurrence}
    (h : l.occurrence? i = some o) :
    (∃ t, l.get? i = some t ∧ o.name = t.text) ∧
      o.context.namespaced = (l.qualifier i).namespaced ∧
      o.context.fullyQualified = (l.qualifier i).fullyQualified := by
  rw [occurrence?] at h
  split at h
  · cases h
  · rename_i t ht
    split at h
    · obtain ⟨call, -, rfl⟩ := Option.map_eq_some_iff.1 h
      exact ⟨⟨t, ht, rfl⟩, rfl, rfl⟩
    · cases h

/-- What is made of a name with a leading backslash, whatever stands around it. If it is outside of
strings and its second token is an occurrence at all, then one of the word after the backslash: as a
global name if the token before the backslash is not read as a name, and as a name in a namespace
otherwise. -/
theorem occurrence?_global {cs : List Char} {before after : List Lexeme} {x : Lexeme}
    {word : List Char} (hx : x.IsGlobal cs word) (hopen : Lexeme.awaited none before = none) :
    let ts := (Source.ofChars cs).tokens before
    let l := ofLexemes cs (before ++ x :: after)
    ∀ o, l.occurrence? (ts.length + 1) = some o → o.name = String.ofList word ∧
      o.context.fullyQualified = !l.followsName ts ts.length ∧
      o.context.namespaced = l.followsName ts ts.length := by
  intro ts l o ho
  obtain ⟨⟨t, ht, hname⟩, hnamespaced, hqualified⟩ := occurrence?_eq_some ho
  have htokens := Source.tokens_global hx hopen after
  constructor
  · obtain ⟨u, hu, hwritten⟩ := written_of_get? ht
    rw [htokens, List.getElem?_append_right (Nat.le_succ _), Nat.succ_sub (Nat.le_refl _),
      Nat.sub_self, List.getElem?_cons_succ, List.getElem?_cons_zero, Option.some.injEq] at hu
    calc o.name
      _ = t.text := hname
      _ = u.text := congrArg Prod.fst hwritten.symm
      _ = String.ofList word := by
        rw [← hu]
        exact Source.slice_global hx
  · have hbare := Source.tokens_bare (Source.ofChars cs) (before ++ x :: after)
    rw [htokens] at hbare
    have hl : l = ofTokens (ts ++ _ :: _ :: (Source.ofChars cs).tokens after) :=
      congrArg ofTokens htokens
    have hscope := fun t ht => (hbare t ht).scope
    rw [hnamespaced, hqualified, hl]
    obtain ⟨hkind, hprevious⟩ := previous?_after_separator hscope rfl
    exact (qualifier_of_separator hprevious hkind (kindAt?_before_separator hscope rfl)).symm

/-- A generator that yields a call of `\range`, with a word or none after `yield`. -/
def yieldedRange (word : String) : List Char := ("<?php yield " ++ word ++ "\\range(1);").toList

/-- After `yield` the call is one of the global function. -/
theorem occurrence?_global_yield :
    let cs := yieldedRange ""
    let before : List Lexeme := [⟨.openTag, 0, 5⟩, ⟨.whitespace, 5, 1⟩, ⟨.kwYield, 6, 5⟩,
      ⟨.whitespace, 11, 1⟩]
    let x : Lexeme := ⟨.globalName, 12, 6⟩
    let after : List Lexeme := [⟨.openParen, 18, 1⟩, ⟨.integer, 19, 1⟩, ⟨.closeParen, 20, 1⟩,
      ⟨.semicolon, 21, 1⟩]
    Lexeme.ofChars cs = before ++ x :: after ∧ x.IsGlobal cs "range".toList ∧
      Lexeme.awaited none before = none ∧
      ∃ o, (ofLexemes cs (before ++ x :: after)).occurrence?
          (((Source.ofChars cs).tokens before).length + 1) = some o ∧
        o.name = "range" ∧ o.context.fullyQualified = true ∧ o.context.namespaced = false := by
  intro cs before x after
  have hx : x.IsGlobal cs "range".toList :=
    ⟨rfl, ⟨"<?php yield ".toList, "(1);".toList, by decide +kernel⟩, by decide +kernel,
      by decide +kernel⟩
  have hopen : Lexeme.awaited none before = none := by decide +kernel
  have hsome : ((ofLexemes cs (before ++ x :: after)).occurrence?
      (((Source.ofChars cs).tokens before).length + 1)).isSome := by decide +kernel
  obtain ⟨o, ho⟩ := Option.isSome_iff_exists.1 hsome
  have hfollows : (ofLexemes cs (before ++ x :: after)).followsName
      ((Source.ofChars cs).tokens before) ((Source.ofChars cs).tokens before).length = false := by
    decide +kernel
  have hglobal := occurrence?_global hx hopen o ho
  rw [hfollows] at hglobal
  exact ⟨by decide +kernel, hx, hopen, o, ho, hglobal.1.trans (by decide +kernel), hglobal.2⟩

/-- The `from` of `yield from` is an identifier, so the global function after it is taken for one in
a namespace and the call for no call of a global function. -/
theorem global_taken_for_namespaced :
    let cs := yieldedRange "from "
    let before : List Lexeme := [⟨.openTag, 0, 5⟩, ⟨.whitespace, 5, 1⟩, ⟨.kwYield, 6, 5⟩,
      ⟨.whitespace, 11, 1⟩, ⟨.kwFrom, 12, 4⟩, ⟨.whitespace, 16, 1⟩]
    let x : Lexeme := ⟨.globalName, 17, 6⟩
    let after : List Lexeme := [⟨.openParen, 23, 1⟩, ⟨.integer, 24, 1⟩, ⟨.closeParen, 25, 1⟩,
      ⟨.semicolon, 26, 1⟩]
    let i := ((Source.ofChars cs).tokens before).length + 1
    let l := ofLexemes cs (before ++ x :: after)
    Lexeme.ofChars cs = before ++ x :: after ∧ x.IsGlobal cs "range".toList ∧
      Lexeme.awaited none before = none ∧
      l.occurrence? i = some ⟨i, "range", { namespaced := true, call := true }⟩ ∧
      l.isGlobalCall i = false := by
  intro cs before x after i l
  have hx : x.IsGlobal cs "range".toList :=
    ⟨rfl, ⟨"<?php yield from ".toList, "(1);".toList, by decide +kernel⟩, by decide +kernel,
      by decide +kernel⟩
  exact ⟨by decide +kernel, hx, by decide +kernel, by decide +kernel, by decide +kernel⟩

end Listing

end Vintage
