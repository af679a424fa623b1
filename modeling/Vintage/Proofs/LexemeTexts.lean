import Vintage.Listing
import Vintage.Proofs.Layout.Passes
import Vintage.Proofs.BlankItems
import Vintage.Proofs.ReaderRuns
import Vintage.Proofs.SourceLookup

/-!
# Texts of lexemes

A variable is cut off only where the text goes on with `$`, whatever the text is and however deep
the interpolations are that it stands in. In the same way an equal sign, a comment and white space
are known by their text. So the name of a variable and a comment are never blank, and white space
always is.

Results:
* `TokenKind.fits`: what the text of a token of a kind looks like.
* `Lexeme.Reader.forall_readAll`: what holds of every cut holds of every lexeme of a text.
* `Lexeme.fits_slice`: the lexemes of a text fit their kinds.
* `Source.tokens_bare`, `Source.tokens_fit`: the tokens of a text have no structure yet, and they
  fit their kinds.
-/

namespace Vintage

/-! ## Kinds -/

namespace TokenKind

/-- A token of the kind may have the text. -/
def fits : TokenKind → List Char → Bool
  | .variableName, cs => cs.head? == some '$'
  | .equal, cs => cs.head? == some '='
  | .comment, cs | .docComment, cs => cs.head? == some '/' || cs.head? == some '#'
  | .whitespace, cs => cs.all Text.isBlank
  | _, _ => true

/-- A token of the kind may have any text. -/
def isPlain : TokenKind → Bool
  | .variableName | .equal | .comment | .docComment | .whitespace => false
  | _ => true

theorem fits_of_isPlain {kind : TokenKind} (h : kind.isPlain = true) (cs : List Char) :
    kind.fits cs = true := by
  cases kind <;> first | rfl | cases h

end TokenKind

namespace Lexeme

/-! ## Cuts -/

/-- The cut is not a token of a kind that is known by its text. -/
def Cut.isPlain : Cut → Bool
  | .lexeme kind _ _ => kind.tokenKind.isPlain
  | _ => true

/-- What is cut off from the text fits its kind. -/
def Cut.Fits (cs : List Char) (cut : Cut) : Prop :=
  ∀ kind n next, cut = .lexeme kind n next → kind.tokenKind.fits (cs.take n) = true

theorem Cut.Fits.of_isPlain {cut : Cut} (h : cut.isPlain = true) (cs : List Char) :
    cut.Fits cs := by
  rintro kind n next rfl
  exact TokenKind.fits_of_isPlain h _

theorem Cut.Fits.lexeme {cs : List Char} (kind : LexemeKind) {n : Nat}
    (h : kind.tokenKind.fits (cs.take n) = true) (next : Mode) :
    (Cut.lexeme kind n next).Fits cs := by
  intro _ _ _ heq
  obtain ⟨rfl, rfl, -⟩ := Cut.lexeme.inj heq
  exact h

theorem Cut.Fits.code {kind : LexemeKind} (h : kind.tokenKind.isPlain = true) (n : Nat)
    (cs : List Char) : (Cut.code kind n).Fits cs := by
  have hcut : (Cut.code kind n).isPlain = true := h
  exact .of_isPlain hcut cs

theorem signKind?_isPlain {signs : List (String × LexemeKind)}
    (hsigns : ∀ sign ∈ signs, sign.2.tokenKind.isPlain = true) {cs : List Char} {kind : LexemeKind}
    (h : signKind? signs cs = some kind) : kind.tokenKind.isPlain = true := by
  obtain ⟨sign, hsign, rfl⟩ := Option.map_eq_some_iff.1 h
  exact hsigns sign (List.mem_of_find?_eq_some hsign)

theorem lookup_isPlain {rows : List (String × LexemeKind)}
    (hrows : ∀ row ∈ rows, row.2.tokenKind.isPlain = true) {key : String} {kind : LexemeKind}
    (h : rows.lookup key = some kind) : kind.tokenKind.isPlain = true := by
  obtain ⟨before, after, rfl, -⟩ := List.lookup_eq_some_iff.1 h
  exact hrows (key, kind) (List.mem_append_right _ List.mem_cons_self)

theorem wordKind_isPlain (word : String) : (wordKind word).tokenKind.isPlain = true := by
  unfold wordKind
  cases h : keywords.lookup (Text.lower word) with
  | none => rfl
  | some kind => exact lookup_isPlain (by decide) h

theorem isPlain_nameCut (place : Surroundings) (cs : List Char) :
    (nameCut place cs).isPlain = true := by
  unfold nameCut
  simp only
  split
  · split <;> rfl
  · split
    · rename_i kind h
      unfold setterKind? at h
      split at h
      · exact lookup_isPlain (by decide) h
      · cases h
    · split
      · rfl
      · exact wordKind_isPlain _

theorem isPlain_documentCut? {mark : Nat} {cs : List Char} {cut : Cut}
    (h : documentCut? mark cs = some cut) : cut.isPlain = true := by
  obtain ⟨opening, -, rfl⟩ := Option.map_eq_some_iff.1 h
  rfl

theorem isPlain_literalCut (mark : Nat) (quote : Char) (cs : List Char) :
    (literalCut mark quote cs).isPlain = true := by
  unfold literalCut
  split <;> rfl

theorem isPlain_doubleQuoteCut (mark : Nat) (cs : List Char) :
    (doubleQuoteCut mark cs).isPlain = true := by
  unfold doubleQuoteCut
  split
  · exact isPlain_literalCut mark '"' cs
  · rfl

theorem isPlain_binaryCut (cs : List Char) : (binaryCut cs).isPlain = true := by
  unfold binaryCut
  split
  · exact isPlain_literalCut 1 '\'' cs
  · exact isPlain_doubleQuoteCut 1 cs
  · cases h : documentCut? 1 cs with
    | none => rfl
    | some cut => exact isPlain_documentCut? h

theorem isPlain_numberCut (place : Surroundings) (cs : List Char) :
    (numberCut place cs).isPlain = true := by
  unfold numberCut
  split
  · rfl
  · split <;> rfl

/-! ## Cuts that are known by their text -/

section Known

variable {cs : List Char}

/-- A text that is longer than nothing starts with the same character as a longer one. -/
theorem head?_take_of_pos {n : Nat} (hn : 0 < n) : (cs.take n).head? = cs.head? := by
  rw [List.head?_take, if_neg (by omega)]

theorem fits_comment {kind : TokenKind} (hkind : kind = .comment ∨ kind = .docComment)
    (hcs : cs.head? = some '/' ∨ cs.head? = some '#') {n : Nat} (hn : 0 < n) :
    kind.fits (cs.take n) = true := by
  rcases hkind with rfl | rfl <;> rcases hcs with hcs | hcs <;>
    rw [TokenKind.fits, head?_take_of_pos hn, hcs] <;> rfl

theorem fits_lineCommentCut {kind : LexemeKind} (hkind : kind.tokenKind = .comment)
    (hcs : cs.head? = some '/' ∨ cs.head? = some '#') {mark : Nat} (hmark : 0 < mark) :
    (lineCommentCut kind mark cs).Fits cs :=
  .lexeme kind (fits_comment (.inl hkind) hcs (by omega)) _

theorem le_of_blockCommentLength {n m : Nat} (h : blockCommentLength n cs = some m) : n < m := by
  induction cs generalizing n with
  | nil => cases h
  | cons c cs ih =>
    rw [blockCommentLength] at h
    split at h
    · cases h
      omega
    · exact Nat.lt_of_succ_lt (ih h)

theorem fits_blockCommentCut (hcs : cs.head? = some '/') : (blockCommentCut cs).Fits cs := by
  unfold blockCommentCut
  split
  · exact .of_isPlain rfl cs
  · rename_i length hlength
    have hpos : 0 < length := Nat.lt_of_le_of_lt (Nat.zero_le 2) (le_of_blockCommentLength hlength)
    split
    · exact .lexeme .docComment (fits_comment (.inr rfl) (.inl hcs) hpos) _
    · exact .lexeme .blockComment (fits_comment (.inl rfl) (.inl hcs) hpos) _

/-- The equal sign is the only sign of one character that is known by its text. -/
theorem fits_singleKind? {c : Char} {kind : LexemeKind} (h : singleKind? c = some kind) :
    kind.tokenKind.fits ((c :: cs).take 1) = true := by
  unfold singleKind? at h
  split at h <;> cases h <;> rfl

/-- Blanks that a text starts with fit white space. -/
theorem fits_blanks {p : Char → Bool} (hp : ∀ c, p c = true → Text.isBlank c = true) {n : Nat}
    (hn : n ≤ (cs.takeWhile p).length) : TokenKind.fits .whitespace (cs.take n) = true := by
  have htake : cs.take n = (cs.takeWhile p).take n := by
    conv => lhs; rw [← List.takeWhile_append_dropWhile (p := p) (l := cs)]
    exact List.take_append_of_le_length hn
  rw [htake, TokenKind.fits, List.all_eq_true]
  intro c hc
  exact hp c (List.all_eq_true.1 List.all_takeWhile c (List.mem_of_mem_take hc))

theorem isBlank_of_isGap {c : Char} (h : isGap c = true) : Text.isBlank c = true := by
  simp only [isGap, isSpace, Bool.or_eq_true, beq_iff_eq] at h
  rcases h with ((((rfl | rfl) | rfl) | rfl) | rfl) | rfl <;> decide

theorem isBlank_of_isIndent {c : Char} (h : isIndent c = true) : Text.isBlank c = true := by
  simp only [isIndent, Bool.or_eq_true, beq_iff_eq] at h
  rcases h with rfl | rfl <;> decide

theorem fits_lineEnd : TokenKind.fits .whitespace (cs.take (lineEndLength cs)) = true := by
  unfold lineEndLength
  split
  · rfl
  · rfl
  · rfl
  · rw [List.take_zero]
    rfl

end Known

theorem fits_signCut (place : Surroundings) (cs : List Char) : (signCut place cs).Fits cs := by
  unfold signCut
  split
  · rename_i kind h
    exact .code (signKind?_isPlain (by decide) h) 3 cs
  · split
    · rename_i cut h
      exact .of_isPlain (isPlain_documentCut? h) cs
    · split
      · exact .of_isPlain rfl cs
      · rename_i kind _ h
        exact .code (signKind?_isPlain (by decide) h) 2 cs
      · split
        · exact fits_lineCommentCut rfl (.inl rfl) (by decide)
        · exact fits_blockCommentCut rfl
        · exact .of_isPlain rfl _
        · split <;> exact .of_isPlain rfl _
        · exact .of_isPlain rfl _
        · exact .of_isPlain (isPlain_binaryCut _) _
        · exact .of_isPlain (isPlain_binaryCut _) _
        · exact .of_isPlain (isPlain_literalCut 0 '\'' _) _
        · exact .of_isPlain (isPlain_doubleQuoteCut 0 _) _
        · split <;> exact .of_isPlain rfl _
        · exact fits_lineCommentCut rfl (.inr rfl) (by decide)
        · split <;> exact .of_isPlain rfl _
        · exact .of_isPlain rfl _
        · split
          · rename_i kind h
            exact .lexeme kind (fits_singleKind? h) _
          · split
            · exact .of_isPlain (isPlain_numberCut place _) _
            · exact .of_isPlain rfl _
        · exact .of_isPlain rfl _

theorem separatorKind?_isPlain {c : Char} {kind : LexemeKind} (h : separatorKind? c = some kind) :
    kind.tokenKind.isPlain = true := by
  unfold separatorKind? at h
  split at h <;> cases h <;> rfl

theorem fits_scriptCut (place : Surroundings) (cs : List Char) : (scriptCut place cs).Fits cs := by
  unfold scriptCut
  split
  · exact .of_isPlain rfl cs
  · split
    · rename_i n hn
      exact .lexeme .whitespace (fits_blanks (fun c => isBlank_of_isGap) (Nat.le_of_eq hn.symm)) _
    · split
      · rename_i kind h
        obtain ⟨c, -, hc⟩ := Option.bind_eq_some_iff.1 h
        exact .code (separatorKind?_isPlain hc) 1 cs
      · split
        · split
          · exact .of_isPlain rfl cs
          · split
            · exact fits_signCut place cs
            · exact .of_isPlain (isPlain_nameCut place cs) cs
        · split
          · rename_i h
            refine .lexeme .variableName ?_ _
            unfold startsVariable at h
            split at h
            · rw [LexemeKind.tokenKind, TokenKind.fits, head?_take_of_pos (by omega)]
              rfl
            · cases h
          · exact fits_signCut place cs

theorem isPlain_htmlCut (offset : Nat) (cs : List Char) : (htmlCut offset cs).isPlain = true := by
  unfold htmlCut
  split
  · rfl
  · split
    · rfl
    · simp only
      repeat' split
      all_goals rfl

theorem isPlain_quotedCut (quote : Char) (offset : Nat) (cs : List Char) :
    (quotedCut quote offset cs).isPlain = true := by
  unfold quotedCut quoteKind
  split
  case h_3 => split <;> rfl
  all_goals rfl

theorem bodyIndent_le (doc : Document) (cs : List Char) :
    bodyIndent doc cs ≤ (cs.takeWhile isIndent).length := by
  unfold bodyIndent
  simp only
  split <;> omega

theorem fits_documentCut (doc : Document) (offset : Nat) (afterLineEnd : Bool) (cs : List Char) :
    (documentCut doc offset afterLineEnd cs).Fits cs := by
  unfold documentCut
  split
  · rename_i width hwidth
    refine .lexeme .whitespace (fits_blanks (fun c => isBlank_of_isIndent) ?_) _
    split at hwidth
    · exact Nat.le_trans (Nat.le_of_eq hwidth.symm) (bodyIndent_le doc cs)
    · cases hwidth
  · split
    case h_4 => exact .lexeme .whitespace fits_lineEnd _
    all_goals exact .of_isPlain rfl cs

theorem fits_haltCut (stage : HaltStage) (cs : List Char) : (haltCut stage cs).Fits cs := by
  unfold haltCut
  split
  · exact .of_isPlain rfl cs
  · split
    · rename_i n hn
      exact .lexeme .whitespace (fits_blanks (fun c => isBlank_of_isGap) (Nat.le_of_eq hn.symm)) _
    · split <;> exact .of_isPlain rfl _

/-! ## The reader -/

namespace Reader

theorem cut_fits (r : Reader) : r.cut.Fits r.rest := by
  unfold cut
  split
  · exact .of_isPlain (isPlain_htmlCut _ _) _
  · exact fits_scriptCut _ _
  · exact .of_isPlain (isPlain_quotedCut _ _ _) _
  · exact fits_documentCut _ _ _ _
  · exact fits_haltCut _ _

/-- Every lexeme that is cut off anywhere in the text has the property. -/
def Cuts (cs : List Char) (P : Lexeme → Prop) : Prop :=
  ∀ (r next : Reader) (x : Lexeme), r.At cs → r.step = .lexeme x next → P x

variable {cs : List Char} {P : Lexeme → Prop}

/-- Readers stay in the text, and what holds of every cut holds of every lexeme so far. -/
theorem Cuts.kept (hP : Cuts cs P) : Kept fun r found => r.At cs ∧ ∀ x ∈ found, P x where
  place := by
    intro r r' found hrest hoffset h
    refine ⟨?_, h.2⟩
    unfold At
    rw [hrest, hoffset]
    exact h.1
  lexeme h hstep :=
    ⟨h.1.step_lexeme hstep, List.forall_mem_cons.2 ⟨hP _ _ _ h.1 hstep, h.2⟩⟩
  fault h hstep := ⟨h.1.step_fault hstep, h.2⟩

/-- What holds of every cut holds of every lexeme that is read. -/
theorem forall_readAll (hP : Cuts cs P) (fuel : Nat) {r : Reader} (hr : r.At cs) :
    ∀ x ∈ readAll fuel r [], P x := by
  obtain ⟨last, -, hall⟩ := hP.kept.readAll fuel ⟨hr, List.forall_mem_nil P⟩
  exact fun x hx => hall x (List.mem_reverse.2 hx)

end Reader

/-- The lexemes of a text fit their kinds. -/
theorem fits_slice (cs : List Char) : ∀ x ∈ ofChars cs,
    x.kind.tokenKind.fits ((Source.ofChars cs).slice x.start x.stop).toList = true := by
  refine Reader.forall_readAll ?_ _ (Reader.at_start cs)
  rintro r next x ⟨before, rfl, hoffset⟩ hstep
  obtain ⟨n, hcut, hstart, hstop, -, hnext, -⟩ := Reader.step_lexeme hstep
  have hslice := Source.slice_eq before (r.rest.take n) (r.rest.drop n)
  rw [List.append_assoc, List.take_append_drop, Text.Utf8.size_append, ← hoffset] at hslice
  rw [hstart, hstop, hnext, Reader.advance, hslice, String.toList_ofList]
  exact r.cut_fits _ n _ hcut

end Lexeme

/-! ## Tokens -/

namespace Source

variable {s : Source}

/-- The token is cut from the text, with a kind that is known by its text only where a lexeme of the
list has that kind. -/
def IsCut (s : Source) (lexemes : List Lexeme) (t : Token) : Prop :=
  ∃ kind start stop, t = s.token kind start stop ∧
    (kind.isPlain = true ∨
      ∃ x ∈ lexemes, x.kind.tokenKind = kind ∧ x.start = start ∧ x.stop = stop)

theorem IsCut.token {kind : TokenKind} (h : kind.isPlain = true) (lexemes : List Lexeme)
    (start stop : Nat) : s.IsCut lexemes (s.token kind start stop) :=
  ⟨kind, start, stop, rfl, .inl h⟩

theorem IsCut.cons {lexemes : List Lexeme} {t : Token} (h : s.IsCut lexemes t) (x : Lexeme) :
    s.IsCut (x :: lexemes) t := by
  obtain ⟨kind, start, stop, rfl, hkind⟩ := h
  refine ⟨kind, start, stop, rfl, hkind.imp_right ?_⟩
  rintro ⟨y, hy, hrest⟩
  exact ⟨y, List.mem_cons_of_mem x hy, hrest⟩

theorem isCut_of_mem_pieceToken {lexemes : List Lexeme} {start stop : Nat} {t : Token}
    (ht : t ∈ s.pieceToken start stop) : s.IsCut lexemes t := by
  unfold pieceToken at ht
  split at ht
  · obtain rfl := List.mem_singleton.1 ht
    refine .token ?_ _ _ _
    unfold pieceKind
    split <;> rfl
  · cases ht

theorem isCut_of_mem_nameTokens {lexemes : List Lexeme} {bytes : List UInt8} {start offset : Nat}
    {t : Token} (ht : t ∈ s.nameTokens start offset bytes) : s.IsCut lexemes t := by
  induction bytes generalizing start offset with
  | nil => exact isCut_of_mem_pieceToken ht
  | cons byte bytes ih =>
    rw [nameTokens] at ht
    split at ht
    · rcases List.mem_append.1 ht with hpiece | hrest
      · exact isCut_of_mem_pieceToken hpiece
      · rcases List.mem_cons.1 hrest with rfl | hname
        · exact .token rfl _ _ _
        · exact ih hname
    · exact ih ht

theorem isCut_of_mem_lexemeTokens {x : Lexeme} (lexemes : List Lexeme) {t : Token}
    (ht : t ∈ s.lexemeTokens x) : s.IsCut (x :: lexemes) t := by
  unfold lexemeTokens at ht
  split at ht
  · exact isCut_of_mem_nameTokens ht
  · exact isCut_of_mem_nameTokens ht
  · obtain rfl := List.mem_singleton.1 ht
    exact ⟨_, x.start, x.stop, rfl, .inr ⟨x, List.mem_cons_self, rfl, rfl, rfl⟩⟩

theorem kind_of_opening? {opened closing : LexemeKind} {kind : TokenKind}
    (h : opening? opened = some (kind, closing)) : kind.isPlain = true := by
  unfold opening? at h
  split at h <;> cases h <;> rfl

theorem not_pending : ∀ p ∈ (none : Option Pending), p.kind.isPlain = true :=
  fun p hp => absurd hp (Option.not_mem_none p)

/-- Each token is one cut: a lexeme that is left aside, part of a name, or several lexemes put
together, whose kind may have any text. -/
theorem isCut_of_mem_tokensFrom {lexemes : List Lexeme} {pending : Option Pending}
    (hpending : ∀ p ∈ pending, p.kind.isPlain = true) {t : Token}
    (ht : t ∈ s.tokensFrom pending lexemes) : s.IsCut lexemes t := by
  induction lexemes generalizing pending with
  | nil =>
    cases pending with
    | none => cases ht
    | some p =>
      obtain rfl := List.mem_singleton.1 ht
      exact .token (hpending p rfl) _ _ _
  | cons x lexemes ih =>
    cases pending with
    | none =>
      rw [tokensFrom] at ht
      split at ht
      · rename_i kind closing hopening
        refine (ih ?_ ht).cons x
        intro p hp
        rw [← Option.mem_some.1 hp]
        exact kind_of_opening? hopening
      · rcases List.mem_append.1 ht with hx | hrest
        · exact isCut_of_mem_lexemeTokens lexemes hx
        · exact (ih not_pending hrest).cons x
    | some p =>
      rw [tokensFrom] at ht
      split at ht
      · rcases List.mem_cons.1 ht with rfl | hrest
        · exact .token (hpending p rfl) _ _ _
        · exact (ih not_pending hrest).cons x
      · refine (ih ?_ ht).cons x
        intro q hq
        rw [← Option.mem_some.1 hq]
        exact hpending p rfl

/-- No token of a text has structure yet, whatever its lexemes are. -/
theorem tokens_bare (s : Source) (lexemes : List Lexeme) : ∀ t ∈ s.tokens lexemes, t.Bare := by
  intro t ht
  obtain ⟨kind, start, stop, rfl, -⟩ := isCut_of_mem_tokensFrom not_pending ht
  exact ⟨rfl, rfl, rfl, rfl⟩

/-- The tokens of a text fit their kinds. -/
theorem tokens_fit (cs : List Char) : ∀ t ∈ (ofChars cs).tokens (Lexeme.ofChars cs),
    t.kind.fits t.text.toList = true := by
  intro t ht
  obtain ⟨kind, start, stop, rfl, hkind | ⟨x, hx, rfl, rfl, rfl⟩⟩ :=
    isCut_of_mem_tokensFrom not_pending ht
  · exact TokenKind.fits_of_isPlain hkind _
  · exact Lexeme.fits_slice cs x hx

end Source

/-- Tokens as a lexer gives them: without structure, and with texts that fit their kinds. -/
structure IsLexed (ts : List Token) : Prop where
  bare : ∀ t ∈ ts, t.Bare
  fits : ∀ t ∈ ts, t.kind.fits t.text.toList = true

theorem isLexed_tokens (cs : List Char) :
    IsLexed ((Source.ofChars cs).tokens (Lexeme.ofChars cs)) where
  bare := Source.tokens_bare _ _
  fits := Source.tokens_fit cs

end Vintage
