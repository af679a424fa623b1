import Mathlib.Data.List.Infix
import Vintage.Listing
import Vintage.Proofs.LexemeTexts

/-!
# Tokens and the text they come from

Lexemes are put together into tokens (a string with its interpolations) and taken apart (a
qualified name). Whatever the mixture, the tokens go through the text as the lexemes do, and each
knows the line and the column of its first character.

Results:
* `Source.cuts_tokens`: the tokens go through the text as the lexemes do.
* `Listing.ofLexemes_covers`: lexemes without gaps give tokens that lose nothing of the text, each
  at the line and the column of what stands before it.
-/

namespace Vintage

open Text.Utf8

/-! ## Going through a text -/

/-- The relation leads forwards from offset to offset. Equality does, for pieces without gaps, and
so does the order of the offsets, for pieces with gaps. -/
structure Onward (R : Nat → Nat → Prop) : Prop where
  refl : ∀ a, R a a
  trans : ∀ {a b c}, R a b → R b c → R a c
  le : ∀ {a b}, R a b → a ≤ b

theorem onward_eq : Onward (· = ·) := ⟨fun _ => rfl, Eq.trans, Nat.le_of_eq⟩

theorem onward_le : Onward (· ≤ ·) := ⟨Nat.le_refl, Nat.le_trans, id⟩

namespace Lexeme

/-- The lexemes lead from offset `a` to offset `b` of the text. Each starts between two characters;
if it goes on after the end of the text, then only so far as `R` leads. -/
inductive Run (R : Nat → Nat → Prop) (cs : List Char) : Nat → List Lexeme → Nat → Prop
  | nil {a b : Nat} : R a b → Run R cs a [] b
  | cons {a b : Nat} {x : Lexeme} {lexemes : List Lexeme} : R a x.start → IsBoundary cs x.start →
      R (min x.stop (size cs)) x.stop → Run R cs x.stop lexemes b → Run R cs a (x :: lexemes) b

theorem start_le_stop (x : Lexeme) : x.start ≤ x.stop := Nat.le_add_right x.start x.length

/-- The lexemes tile the text from `start` up to `stop`: each starts where the one before it stops,
and between two characters. -/
def Tiles (cs : List Char) (start : Nat) : List Lexeme → (stop : Nat) → Prop
  | [], stop => start = stop
  | x :: lexemes, stop => x.start = start ∧ IsBoundary cs x.start ∧ Tiles cs x.stop lexemes stop

instance decidableTiles (cs : List Char) : (start : Nat) → (lexemes : List Lexeme) →
    (stop : Nat) → Decidable (Tiles cs start lexemes stop)
  | start, [], stop => inferInstanceAs (Decidable (start = stop))
  | start, x :: lexemes, stop =>
    have := decidableTiles cs x.stop lexemes stop
    inferInstanceAs
      (Decidable (x.start = start ∧ IsBoundary cs x.start ∧ Tiles cs x.stop lexemes stop))

variable {cs : List Char} {start stop : Nat} {lexemes : List Lexeme}

theorem Tiles.le (h : Tiles cs start lexemes stop) : start ≤ stop := by
  induction lexemes generalizing start with
  | nil => exact Nat.le_of_eq h
  | cons x lexemes ih =>
    obtain ⟨rfl, -, hrest⟩ := h
    exact Nat.le_trans x.start_le_stop (ih hrest)

theorem Tiles.run (h : Tiles cs start lexemes stop) (hstop : stop ≤ size cs) :
    Run (· = ·) cs start lexemes stop := by
  induction lexemes generalizing start with
  | nil => exact .nil h
  | cons x lexemes ih =>
    obtain ⟨rfl, hx, hrest⟩ := h
    exact .cons rfl hx (Nat.min_eq_left (Nat.le_trans hrest.le hstop)) (ih hrest)

end Lexeme

namespace Source

/-- The tokens are cut from the text and lead from offset `a` to offset `b`. Each starts between two
characters. -/
inductive Cuts (R : Nat → Nat → Prop) (cs : List Char) : Nat → List Token → Nat → Prop
  | nil {a b : Nat} : R a b → Cuts R cs a [] b
  | cons {a b start stop : Nat} {kind : TokenKind} {ts : List Token} : R a start →
      IsBoundary cs start → start ≤ stop → Cuts R cs stop ts b →
      Cuts R cs a ((ofChars cs).token kind start stop :: ts) b

variable {R : Nat → Nat → Prop} {cs : List Char} {a b c start stop : Nat} {ts us : List Token}

theorem Cuts.of_reaches (hR : Onward R) (hab : R a b) (h : Cuts R cs b ts c) :
    Cuts R cs a ts c := by
  cases h with
  | nil hbc => exact .nil (hR.trans hab hbc)
  | cons hb hstart hle hrest => exact .cons (hR.trans hab hb) hstart hle hrest

theorem Cuts.append (hR : Onward R) (h : Cuts R cs a ts b) (h' : Cuts R cs b us c) :
    Cuts R cs a (ts ++ us) c := by
  induction h with
  | nil hab => exact h'.of_reaches hR hab
  | cons ha hstart hle _ ih => exact .cons ha hstart hle (ih h')

theorem Cuts.of_append (hR : Onward R) (h : Cuts R cs a (ts ++ us) c) :
    ∃ m, Cuts R cs a ts m ∧ Cuts R cs m us c := by
  induction ts generalizing a with
  | nil => exact ⟨a, .nil (hR.refl a), h⟩
  | cons t ts ih =>
    cases h with
    | cons ha hstart hle hrest =>
      obtain ⟨m, hts, hus⟩ := ih hrest
      exact ⟨m, .cons ha hstart hle hts, hus⟩

theorem cuts_token (hR : Onward R) (kind : TokenKind) (hstart : IsBoundary cs start)
    (hle : start ≤ stop) : Cuts R cs start [(ofChars cs).token kind start stop] stop :=
  .cons (hR.refl start) hstart hle (.nil (hR.refl stop))

/-! ## Tokens of lexemes -/

theorem cuts_pieceToken (hR : Onward R) (hstart : IsBoundary cs start) (hle : start ≤ stop) :
    Cuts R cs start ((ofChars cs).pieceToken start stop) stop := by
  unfold pieceToken
  split
  · exact cuts_token hR _ hstart hle
  · obtain rfl : start = stop := by omega
    exact .nil (hR.refl start)

/-- A qualified name falls apart without loss. It does so at backslashes, which are single bytes, so
its pieces start between two characters. -/
theorem cuts_nameTokens (hR : Onward R) {offset : Nat} {bytes rest : List UInt8}
    (hbytes : (encode cs).drop offset = bytes ++ rest) (hstart : IsBoundary cs start)
    (hle : start ≤ offset) :
    Cuts R cs start ((ofChars cs).nameTokens start offset bytes) (offset + bytes.length) := by
  induction bytes generalizing start offset with
  | nil => exact cuts_pieceToken hR hstart hle
  | cons byte bytes ih =>
    obtain ⟨hbyte, hbytes'⟩ := drop_succ_of_drop hbytes
    rw [List.length_cons, nameTokens, Nat.add_comm bytes.length, ← Nat.add_assoc]
    split
    · rename_i hslash
      obtain rfl := eq_of_beq hslash
      obtain ⟨hbefore, hafter⟩ := isBoundary_of_ascii hbyte (by decide)
      have hpiece := cuts_pieceToken hR hstart hle
      refine hpiece.append hR (.cons (hR.refl offset) hbefore (Nat.le_succ offset) ?_)
      exact ih hbytes' hafter (Nat.le_refl _)
    · exact ih hbytes' hstart (Nat.le_succ_of_le hle)

theorem cuts_lexemeTokens (hR : Onward R) {x : Lexeme} (hx : IsBoundary cs x.start)
    (hreaches : R (min x.stop (size cs)) x.stop) :
    Cuts R cs x.start ((ofChars cs).lexemeTokens x) x.stop := by
  have hname : Cuts R cs x.start ((ofChars cs).nameTokens x.start x.start
      ((ofChars cs).bytes.extract x.start x.stop).toList) x.stop := by
    have hlist : ((ofChars cs).bytes.extract x.start x.stop).toList =
        ((encode cs).drop x.start).take (x.stop - x.start) := by
      rw [ofChars, Array.toList_extract, List.extract_eq_take_drop]
    have hlength : x.start + ((ofChars cs).bytes.extract x.start x.stop).toList.length =
        min x.stop (size cs) := by
      have := x.start_le_stop
      have := hx.le_size
      rw [Array.length_toList, Array.size_extract, size_bytes]
      omega
    have hcuts := cuts_nameTokens hR (hlist ▸ (List.take_append_drop _ _).symm) hx (Nat.le_refl _)
    rw [hlength] at hcuts
    simpa using hcuts.append hR (.nil hreaches)
  unfold lexemeTokens
  split
  · exact hname
  · exact hname
  · exact cuts_token hR _ hx x.start_le_stop

/-- With a token that is being put together, the tokens lead on from its start. -/
theorem cuts_tokensFrom (hR : Onward R) {lexemes : List Lexeme} :
    (∀ {a}, Lexeme.Run R cs a lexemes b → Cuts R cs a ((ofChars cs).tokensFrom none lexemes) b) ∧
    ∀ p : Pending, p.start ≤ p.stop → IsBoundary cs p.start → Lexeme.Run R cs p.stop lexemes b →
      Cuts R cs p.start ((ofChars cs).tokensFrom (some p) lexemes) b := by
  induction lexemes with
  | nil =>
    constructor
    · rintro a ⟨hab⟩
      exact .nil hab
    · rintro p hle hstart ⟨hab⟩
      exact .cons (hR.refl p.start) hstart hle (.nil hab)
  | cons x lexemes ih =>
    constructor
    · intro a h
      cases h with
      | cons ha hx hreaches hrest =>
        rw [tokensFrom]
        refine Cuts.of_reaches hR ha ?_
        split
        · rename_i kind closing _
          exact ih.2 ⟨kind, x.start, x.stop, closing⟩ x.start_le_stop hx hrest
        · exact (cuts_lexemeTokens hR hx hreaches).append hR (ih.1 hrest)
    · intro p hle hstart h
      cases h with
      | cons hp hx hreaches hrest =>
        have hstop : p.start ≤ x.stop := by
          have := hR.le hp
          have := x.start_le_stop
          omega
        rw [tokensFrom]
        split
        · exact .cons (hR.refl p.start) hstart hstop (ih.1 hrest)
        · exact ih.2 { p with stop := x.stop } hstop hstart hrest

/-- The tokens go through the text as the lexemes do. -/
theorem cuts_tokens (hR : Onward R) {lexemes : List Lexeme} (h : Lexeme.Run R cs a lexemes b) :
    Cuts R cs a ((ofChars cs).tokens lexemes) b :=
  (cuts_tokensFrom hR).1 h

/-! ## Tokens without gaps -/

theorem Cuts.isBoundary (h : Cuts (· = ·) cs a ts b) (hb : IsBoundary cs b) : IsBoundary cs a := by
  cases h with
  | nil hab => rwa [hab]
  | cons ha hstart _ _ => rwa [ha]

/-- Without gaps, the texts of the tokens are the text that they lead through. -/
theorem Cuts.text_eq (h : Cuts (· = ·) cs a ts b) (hb : IsBoundary cs b) {before : List Char}
    (hbefore : before <+: cs) (ha : a = size before) :
    ∃ more, before ++ more <+: cs ∧ b = size (before ++ more) ∧
      ts.flatMap (fun t => t.text.toList) = more := by
  induction h generalizing before with
  | nil hab =>
    subst hab
    exact ⟨[], by rwa [List.append_nil], by rwa [List.append_nil], rfl⟩
  | cons hstart _ hle hrest ih =>
    subst hstart
    -- what the token stops at is where the next one starts, which is between two characters
    obtain ⟨piece, hpiece, hstop⟩ := (hrest.isBoundary hb).exists_append hbefore (ha ▸ hle)
    obtain ⟨more, hmore, hsize, htext⟩ := ih hb hpiece hstop
    refine ⟨piece ++ more, by rwa [← List.append_assoc], by rwa [← List.append_assoc], ?_⟩
    obtain ⟨after, hafter⟩ := hpiece
    rw [List.flatMap_cons, htext, token, ha, hstop, ← hafter, slice_eq, String.toList_ofList]

/-- Without gaps, a token has the line and the column after the texts of the tokens before it. -/
theorem Cuts.place_eq (h : Cuts (· = ·) cs 0 ts b) (hb : IsBoundary cs b) {k : Nat} {t : Token}
    (ht : ts[k]? = some t) :
    let before := (ts.take k).flatMap fun t => t.text.toList
    t.line = Text.lineAfter before ∧ t.column = Text.columnAfter before := by
  intro before
  obtain ⟨hk, rfl⟩ := List.getElem?_eq_some_iff.1 ht
  rw [← List.take_append_drop k ts, List.drop_eq_getElem_cons hk] at h
  obtain ⟨m, hbefore, hrest⟩ := h.of_append onward_eq
  obtain ⟨more, ⟨after, hmore⟩, hm, htext⟩ :=
    hbefore.text_eq (hrest.isBoundary hb) List.nil_prefix rfl
  generalize ts[k] = t at hrest ⊢
  cases hrest with
  | cons hstart _ _ _ =>
    subst hstart
    rw [List.nil_append] at hmore hm
    have hplace := Source.place_eq more after
    rw [hmore, ← hm] at hplace
    rw [show before = more from htext, token, hplace]
    exact ⟨rfl, rfl⟩

end Source

/-! ## Tokens with their structure -/

/-- What a token keeps when its structure is filled in. -/
def Token.written (t : Token) : String × Nat × Nat := (t.text, t.line, t.column)

theorem map_written_settleFrom (b : Before) (ts : List Token) :
    (settleFrom b ts).map Token.written = ts.map Token.written := by
  induction ts generalizing b with
  | nil => rfl
  | cons t ts ih =>
    rw [settleFrom_cons, List.map_cons, List.map_cons, ih]
    rfl

/-- The passes over the tokens keep texts, lines and columns. -/
theorem map_written_withStructure {ts : List Token} (hts : ∀ t ∈ ts, t.Bare) :
    (withStructure ts).toList.map Token.written = ts.map Token.written := by
  rw [← map_written_settleFrom {} ts]
  refine List.ext_getElem? fun k => ?_
  rw [List.getElem?_map, List.getElem?_map, Array.getElem?_toList,
    withStructure_getElem? fun t ht => (hts t ht).scope, linked, ownParens_getElem?,
    linkBrackets_getElem?, List.getElem?_toArray, Option.map_map, Option.map_map, Option.map_map]
  rfl

namespace Listing

theorem map_written_ofLexemes (cs : List Char) (lexemes : List Lexeme) :
    (ofLexemes cs lexemes).tokens.toList.map Token.written =
      ((Source.ofChars cs).tokens lexemes).map Token.written :=
  map_written_withStructure (Source.tokens_bare _ _)

theorem size_ofLexemes (cs : List Char) (lexemes : List Lexeme) :
    (ofLexemes cs lexemes).size = ((Source.ofChars cs).tokens lexemes).length := by
  have hlength := congrArg List.length (map_written_ofLexemes cs lexemes)
  rwa [List.length_map, List.length_map, Array.length_toList] at hlength

/-- A token of a listing has its text, its line and its column from the source. -/
theorem written_of_get? {cs : List Char} {lexemes : List Lexeme} {k : Nat} {t : Token}
    (ht : (ofLexemes cs lexemes).get? k = some t) :
    ∃ u, ((Source.ofChars cs).tokens lexemes)[k]? = some u ∧ u.written = t.written := by
  have hget : ((ofLexemes cs lexemes).tokens.toList.map Token.written)[k]? = some t.written := by
    rw [List.getElem?_map, Array.getElem?_toList]
    exact congrArg _ ht
  rw [map_written_ofLexemes, List.getElem?_map, Option.map_eq_some_iff] at hget
  exact hget

theorem get?_ofLexemes {cs : List Char} {lexemes : List Lexeme} {k : Nat} {t : Token}
    (ht : (ofLexemes cs lexemes).get? k = some t) :
    ∃ u, ((Source.ofChars cs).tokens lexemes)[k]? = some u ∧
      t.line = u.line ∧ t.column = u.column := by
  obtain ⟨u, hu, hwritten⟩ := written_of_get? ht
  have hplace : (t.line, t.column) = (u.line, u.column) := congrArg Prod.snd hwritten.symm
  exact ⟨u, hu, congrArg Prod.fst hplace, congrArg Prod.snd hplace⟩

theorem toList_textOf_zero (l : Listing) (k : Nat) :
    (l.textOf 0 k).toList = ((l.tokens.toList.map Token.written).take k).flatMap
      fun w => w.1.toList := by
  rw [textOf, stretch, String.toList_join, Array.toList_extract, List.extract_eq_take_drop,
    ← List.map_take, List.flatMap_map, List.flatMap_map]
  rfl

/-- Nothing of a text is lost and every token is where it says. If the lexemes tile the text, then
the texts of the tokens one after the other are the text, and the line and the column of a token are
those after the texts of the tokens before it. -/
theorem ofLexemes_covers {cs : List Char} {lexemes : List Lexeme}
    (h : Lexeme.Tiles cs 0 lexemes (Text.Utf8.size cs)) :
    let l := ofLexemes cs lexemes
    l.textOf 0 l.size = String.ofList cs ∧
      ∀ k t, l.get? k = some t →
        t.line = Text.lineAfter (l.textOf 0 k).toList ∧
          t.column = Text.columnAfter (l.textOf 0 k).toList := by
  intro l
  have hend := isBoundary_size cs
  have hcuts : Source.Cuts (· = ·) cs 0 ((Source.ofChars cs).tokens lexemes) (Text.Utf8.size cs) :=
    Source.cuts_tokens onward_eq (h.run (Nat.le_refl _))
  have htext (k : Nat) : (l.textOf 0 k).toList =
      (((Source.ofChars cs).tokens lexemes).take k).flatMap fun t => t.text.toList := by
    rw [toList_textOf_zero, map_written_ofLexemes, ← List.map_take, List.flatMap_map]
    rfl
  constructor
  · obtain ⟨more, hmore, hsize, hall⟩ := hcuts.text_eq hend List.nil_prefix rfl
    rw [List.nil_append] at hmore hsize
    have heq := hmore.eq_of_length_le
      (prefix_of_size_le List.prefix_rfl hmore (Nat.le_of_eq hsize)).length_le
    rw [← String.toList_inj, htext, size_ofLexemes, List.take_length, hall, heq,
      String.toList_ofList]
  · intro k t ht
    obtain ⟨u, hu, hline, hcolumn⟩ := get?_ofLexemes ht
    rw [htext, hline, hcolumn]
    exact hcuts.place_eq hend hu

/-- A qualified name, a letter of two bytes, and a string that is never closed. -/
def unclosedString : List Char :=
  ['<', '?', 'p', 'h', 'p', '\n', 'A', '\\', 'é', ' ', '"', 'b', '\n', '$', 'x']

theorem ofLexemes_covers_unclosedString :
    Lexeme.Tiles unclosedString 0 (Lexeme.ofChars unclosedString) (Text.Utf8.size unclosedString) ∧
      let l := ofLexemes unclosedString (Lexeme.ofChars unclosedString)
      l.textOf 0 l.size = String.ofList unclosedString ∧
        ∀ k t, l.get? k = some t →
          t.line = Text.lineAfter (l.textOf 0 k).toList ∧
            t.column = Text.columnAfter (l.textOf 0 k).toList :=
  have htiles : Lexeme.Tiles unclosedString 0 (Lexeme.ofChars unclosedString)
      (Text.Utf8.size unclosedString) := by
    decide +kernel
  ⟨htiles, ofLexemes_covers htiles⟩

end Listing

end Vintage
