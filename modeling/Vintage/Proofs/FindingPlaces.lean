import Mathlib.Data.Prod.Lex
import Mathlib.Data.String.Basic
import Vintage.Proofs.TableChecks
import Vintage.Proofs.TokenPlaces

/-!
# Places of findings

Lexemes that stand one behind the other give tokens that ascend, and a reader only goes forwards,
however malformed the text is. Every rule reports at a token that it has looked at. So a report
reads along the text.

Results:
* `Lexeme.inOrder_ofChars`: the lexemes of a text go through it in order.
* `Listing.ofLexemes_ascends`: tokens of lexemes in order ascend by line and column.
* `Rule.isAt_of_mem_findings`: a rule reports at tokens of the listing.
* `Finding.notAfter_iff`: a report is ordered by position, line, column and code.
* `Rule.findAll_along_text`: a report names tokens of the text, in the order of the text.
-/

namespace Vintage

open Text.Utf8

/-! ## Lexemes in order -/

namespace Lexeme

/-- The lexemes go through the text in order: they start between two characters, and each starts
where those before it have stopped. -/
structure InOrder (cs : List Char) (lexemes : List Lexeme) : Prop where
  boundaries : ∀ x ∈ lexemes, IsBoundary cs x.start
  apart : lexemes.Pairwise fun x y => x.stop ≤ y.start

theorem InOrder.run {cs : List Char} {lexemes : List Lexeme} (h : InOrder cs lexemes) {a : Nat}
    (ha : ∀ x ∈ lexemes, a ≤ x.start) : ∃ b, Run (· ≤ ·) cs a lexemes b := by
  induction lexemes generalizing a with
  | nil => exact ⟨a, .nil (Nat.le_refl a)⟩
  | cons x lexemes ih =>
    obtain ⟨hx, hboundaries⟩ := List.forall_mem_cons.1 h.boundaries
    obtain ⟨hstop, hapart⟩ := List.pairwise_cons.1 h.apart
    obtain ⟨b, hrun⟩ := ih ⟨hboundaries, hapart⟩ hstop
    exact ⟨b, .cons (ha x List.mem_cons_self) hx (Nat.min_le_left _ _) hrun⟩

/-- A step cuts a lexeme off where the reader stands and goes on behind it, so all that was read
stops up to the reader. -/
theorem Reader.kept_inOrder (cs : List Char) : Kept fun r found =>
    r.At cs ∧ InOrder cs found.reverse ∧ ∀ x ∈ found, x.stop ≤ r.offset where
  place := by
    intro r r' found hrest hoffset h
    unfold At at *
    rw [hrest, hoffset]
    exact h
  lexeme := by
    rintro r next x found ⟨hat, horder, hfound⟩ hstep
    obtain ⟨n, -, hstart, hstop, -, hoffset, -⟩ := Reader.step_lexeme hstep
    have hle : r.offset ≤ next.offset := hstart ▸ hstop ▸ x.start_le_stop
    have hx : IsBoundary cs x.start := by
      obtain ⟨before, rfl, hbefore⟩ := hat
      exact ⟨before, List.prefix_append _ _, (hstart.trans hbefore).symm⟩
    refine ⟨hat.step_lexeme hstep, ⟨?_, ?_⟩, ?_⟩
    · rw [List.reverse_cons]
      exact List.forall_mem_append.2 ⟨horder.boundaries, List.forall_mem_singleton.2 hx⟩
    · rw [List.reverse_cons]
      refine List.pairwise_append.2 ⟨horder.apart, List.pairwise_singleton _ _, ?_⟩
      intro y hy z hz
      obtain rfl := List.mem_singleton.1 hz
      rw [hstart]
      exact hfound y (List.mem_reverse.1 hy)
    · refine List.forall_mem_cons.2 ⟨Nat.le_of_eq hstop, fun y hy => ?_⟩
      exact Nat.le_trans (hfound y hy) hle
  fault := by
    rintro r next found ⟨hat, horder, hfound⟩ hstep
    obtain ⟨n, -, hoffset⟩ := Reader.step_fault hstep
    refine ⟨hat.step_fault hstep, horder, fun x hx => ?_⟩
    rw [hoffset]
    exact Nat.le_trans (hfound x hx) (Nat.le_add_right r.offset _)

theorem inOrder_nil (cs : List Char) : InOrder cs [] where
  boundaries := List.forall_mem_nil _
  apart := .nil

/-- The lexemes of a text go through it in order, however malformed it is. -/
theorem inOrder_ofChars (cs : List Char) : InOrder cs (ofChars cs) := by
  have hnil : InOrder cs ([] : List Lexeme).reverse := inOrder_nil cs
  obtain ⟨last, -, horder, -⟩ := (Reader.kept_inOrder cs).readAll _
    ⟨Reader.at_start cs, hnil, List.forall_mem_nil _⟩
  rwa [List.reverse_reverse] at horder

end Lexeme

/-! ## Tokens in order -/

/-- The token does not stand after the other one: its line is less, or the line is the same and
its column is not greater. -/
def Token.NotAfter (t u : Token) : Prop :=
  t.line < u.line ∨ t.line = u.line ∧ t.column ≤ u.column

namespace Source

variable {cs : List Char} {a b : Nat} {ts : List Token}

/-- A token that is cut behind an offset has its place from there. -/
theorem Cuts.exists_offset (h : Cuts (· ≤ ·) cs a ts b) {t : Token} (ht : t ∈ ts) :
    ∃ n, a ≤ n ∧ IsBoundary cs n ∧ t.line = ((ofChars cs).place n).1 ∧
      t.column = ((ofChars cs).place n).2 := by
  induction h with
  | nil => cases ht
  | cons ha hstart hle _ ih =>
    rcases List.mem_cons.1 ht with rfl | hmem
    · exact ⟨_, ha, hstart, rfl, rfl⟩
    · obtain ⟨n, hn, hrest⟩ := ih hmem
      exact ⟨n, by omega, hrest⟩

theorem Cuts.pairwise (h : Cuts (· ≤ ·) cs a ts b) : ts.Pairwise Token.NotAfter := by
  induction h with
  | nil => exact .nil
  | cons ha hstart hle hrest ih =>
    refine .cons (fun u hu => ?_) ih
    obtain ⟨n, hn, hboundary, hline, hcolumn⟩ := hrest.exists_offset hu
    unfold Token.NotAfter
    rw [hline, hcolumn]
    exact place_mono (Nat.le_trans hle hn) hstart hboundary

end Source

namespace Listing

/-- Along the listing, lines and columns ascend. -/
def Ascends (l : Listing) : Prop :=
  ∀ {i j : Nat} {t u : Token}, i < j → l.get? i = some t → l.get? j = some u → t.NotAfter u

/-- Lexemes in order give tokens that ascend. -/
theorem ofLexemes_ascends {cs : List Char} {lexemes : List Lexeme}
    (h : Lexeme.InOrder cs lexemes) : (ofLexemes cs lexemes).Ascends := by
  intro i j t u hij ht hu
  obtain ⟨b, hrun⟩ := h.run fun _ _ => Nat.zero_le _
  have hcuts := Source.cuts_tokens onward_le hrun
  obtain ⟨t', ht', hline, hcolumn⟩ := get?_ofLexemes ht
  obtain ⟨u', hu', hline', hcolumn'⟩ := get?_ofLexemes hu
  obtain ⟨hi, rfl⟩ := List.getElem?_eq_some_iff.1 ht'
  obtain ⟨hj, rfl⟩ := List.getElem?_eq_some_iff.1 hu'
  have hpair := List.pairwise_iff_getElem.1 hcuts.pairwise i j hi hj hij
  unfold Token.NotAfter at *
  rw [hline, hcolumn, hline', hcolumn']
  exact hpair

end Listing

/-! ## Findings at tokens -/

/-- The finding has the position, the line and the column of a token of the listing. -/
def Finding.IsAt (l : Listing) (f : Finding) : Prop :=
  ∃ t, l.get? f.place.token = some t ∧ f.place.line = t.line ∧ f.place.column = t.column

theorem Finding.isAt_of_place {l : Listing} {f : Finding} {i : Nat} {t : Token}
    (h : f.place = l.place i) (ht : l.get? i = some t) : f.IsAt l := by
  have hplace : f.place = { token := i, line := t.line, column := t.column } := by
    rw [h, Listing.place, ht]
  unfold Finding.IsAt
  rw [hplace]
  exact ⟨t, ht, rfl, rfl⟩

/-- A reference ends at the last piece of a name that was read. -/
theorem Reference.mem_listFrom {name : String} {last : Option Nat} {ts : List (Token × Nat)}
    {r : Reference} (h : r ∈ listFrom name last ts) :
    last = some r.position ∨ ∃ t, (t, r.position) ∈ ts := by
  fun_induction listFrom name last ts with
  | case1 name last =>
    obtain ⟨position, hlast, rfl⟩ := Option.map_eq_some_iff.1 (Option.mem_toList.1 h)
    exact Or.inl hlast
  | case2 name last t i rest _ ih =>
    rcases ih h with hlast | ⟨u, hu⟩
    · cases hlast
      exact Or.inr ⟨t, List.mem_cons_self⟩
    · exact Or.inr ⟨u, List.mem_cons_of_mem _ hu⟩
  | case5 name last t i rest _ ih =>
    rcases List.mem_append.1 h with hread | hrest
    · obtain ⟨position, hlast, rfl⟩ := Option.map_eq_some_iff.1 (Option.mem_toList.1 hread)
      exact Or.inl hlast
    · obtain ⟨u, hu⟩ := (ih hrest).resolve_left nofun
      exact Or.inr ⟨u, List.mem_cons_of_mem _ hu⟩
  | case3 _ _ _ _ _ _ ih | case4 _ _ _ _ _ _ ih | case6 _ _ _ _ _ _ _ _ _ ih =>
    exact (ih h).imp_right fun ⟨u, hu⟩ => ⟨u, List.mem_cons_of_mem _ hu⟩

namespace Listing

variable {l : Listing}

theorem get?_of_mem_stretchWithPositions {a b i : Nat} {t : Token}
    (h : (t, i) ∈ l.stretchWithPositions a b) : l.get? i = some t := by
  obtain ⟨hle, hget⟩ := List.mk_mem_zipIdx_iff_le_and_getElem?_sub.1 h
  rw [stretch, Array.getElem?_toList, Array.getElem?_extract] at hget
  split at hget
  · rw [Nat.add_sub_cancel' hle] at hget
    exact hget
  · cases hget

theorem get?_typeHint {a b : Nat} {type : TypeHint} (h : l.typeHint? a b = some type) :
    ∃ t, l.get? type.start = some t := by
  unfold typeHint? at h
  split at h
  · cases h
  · rename_i first hfirst
    obtain ⟨last, -, rfl⟩ := Option.map_eq_some_iff.1 h
    obtain ⟨-, -, t, ht, -⟩ := firstIn?_eq_some hfirst
    exact ⟨t, ht⟩

theorem get?_parameter_type {items : List Item} {ps : List Parameter}
    (h : l.parametersOf? items = some ps) {p : Parameter} (hp : p ∈ ps) {type : TypeHint}
    (htype : p.type = some type) : ∃ t, l.get? type.start = some t := by
  induction items generalizing ps with
  | nil =>
    cases h
    cases hp
  | cons item items ih =>
    rw [parametersOf?] at h
    split at h
    · rename_i head rest hhead hrest
      cases h
      rcases List.mem_append.1 hp with hmem | hmem
      · obtain rfl := Option.mem_toList.1 hmem
        unfold parameter? at hhead
        split at hhead
        · cases hhead
        · obtain ⟨head, -, hparameter⟩ := Option.map_eq_some_iff.1 hhead
          cases hparameter
          obtain ⟨ends, -, hhint⟩ := Option.bind_eq_some_iff.1 htype
          exact get?_typeHint hhint
      · exact ih hrest hmem
    · cases h

theorem get?_returnType {i : Nat} {type : TypeHint} (h : l.returnType? i = some type) :
    ∃ t, l.get? type.start = some t := by
  unfold returnType? at h
  split at h
  · cases h
  · split at h
    · obtain ⟨stop, -, hhint⟩ := Option.bind_eq_some_iff.1 h
      exact get?_typeHint hhint
    · cases h

theorem get?_interface {i : Nat} {r : Reference} (h : r ∈ l.interfaces i) :
    ∃ t, l.get? r.position = some t := by
  unfold interfaces at h
  split at h
  · cases h
  · split at h
    · split at h
      · cases h
      · split at h
        · cases h
        · obtain ⟨t, ht⟩ := (Reference.mem_listFrom h).resolve_left nofun
          exact ⟨t, get?_of_mem_stretchWithPositions ht⟩
    · cases h

theorem get?_directive {item : Item} {d : Directive} (h : l.directive? item = some d) :
    (∃ t, l.get? d.position = some t) ∧ ∃ t, l.get? (d.valuePosition.getD d.position) = some t := by
  unfold directive? at h
  split at h
  · cases h
  · rename_i position hposition
    obtain ⟨equal, -, rfl⟩ := Option.map_eq_some_iff.1 h
    obtain ⟨-, -, t, ht, -⟩ := firstIn?_eq_some hposition
    refine ⟨⟨t, ht⟩, ?_⟩
    cases hvalue : l.firstIn? Token.isSignificant (equal + 1) item.stop with
    | none => exact ⟨t, ht⟩
    | some value =>
      obtain ⟨-, -, u, hu, -⟩ := firstIn?_eq_some hvalue
      exact ⟨u, hu⟩

end Listing

namespace Check

variable {l : Listing} {range : VersionRange} {d : Finding}

theorem get?_literalArgument {i n : Nat} {literal : Nat × String}
    (h : literalArgument? l i n = some literal) : ∃ t, l.get? literal.1 = some t := by
  obtain ⟨item, -, h⟩ := Option.bind_eq_some_iff.1 h
  obtain ⟨first, -, h⟩ := Option.bind_eq_some_iff.1 h
  obtain ⟨t, ht, h⟩ := Option.bind_eq_some_iff.1 h
  split at h
  · cases h
    exact ⟨t, ht⟩
  · cases h

theorem isAt_of_mem_report {c : Check} {i : Nat} {t : Token} (ht : l.get? i = some t) {f : Feature}
    (h : d ∈ c.report l i f range) : d.IsAt l := by
  unfold report at h
  split at h
  · exact Finding.isAt_of_place (Wording.place_of_mem_findings h) ht
  · cases h

theorem isAt_of_mem_run {c : Check} {kinds : List TokenKind} (h : d ∈ c.run l range kinds) :
    d.IsAt l := by
  obtain ⟨i, t, f, ht, -, -, -, hd⟩ := (c.mem_run_iff l range kinds d).1 h
  exact isAt_of_mem_report ht hd

/-- The function of a call is written at its position. -/
theorem get?_extensionCall {call : ExtensionCall} (h : call ∈ extensionCalls l) :
    ∃ t, l.get? call.position = some t ∧ t.text = call.function := by
  obtain ⟨i, -, hi⟩ := List.mem_filterMap.1 h
  obtain ⟨t, ht, hcall⟩ := Option.bind_eq_some_iff.1 hi
  obtain ⟨feature, -, rfl⟩ := Option.map_eq_some_iff.1 hcall
  exact ⟨t, ht, rfl⟩

theorem place_of_mem_extensionReport {call : ExtensionCall}
    (h : d ∈ extensionReport l range call) : d.place = l.place call.position := by
  unfold extensionReport at h
  split at h
  · exact Wording.place_of_mem_findings h
  · cases h

theorem isAt_of_mem_extensionFindings {target : Target} (h : d ∈ extensionFindings l target) :
    d.IsAt l := by
  obtain ⟨call, hcall, hd⟩ := List.mem_flatMap.1 h
  obtain ⟨t, ht, -⟩ := get?_extensionCall (List.mem_of_mem_filter hcall)
  exact Finding.isAt_of_place (place_of_mem_extensionReport hd) ht

theorem isAt_of_mem_interfaceFindings {target : Target} (h : d ∈ interfaceFindings l target) :
    d.IsAt l := by
  obtain ⟨i, -, hi⟩ := List.mem_flatMap.1 h
  obtain ⟨r, hr, hd⟩ := List.mem_flatMap.1 hi
  obtain ⟨t, ht⟩ := Listing.get?_interface hr
  unfold referenceReport at hd
  split at hd
  · cases hd
  · split at hd
    · exact isAt_of_mem_report ht hd
    · cases hd

theorem isAt_of_mem_typeReport {c : Check} {inClass : Bool} {type : TypeHint} {t : Token}
    (ht : l.get? type.start = some t) (h : d ∈ typeReport c l range inClass type) : d.IsAt l := by
  obtain ⟨name, -, hd⟩ := List.mem_flatMap.1 h
  split at hd
  · cases hd
  · split at hd
    · exact isAt_of_mem_report ht hd
    · cases hd

theorem isAt_of_mem_typeFindings {target : Target} (h : d ∈ typeFindings l target) : d.IsAt l := by
  obtain ⟨i, -, hi⟩ := List.mem_flatMap.1 h
  rcases List.mem_append.1 hi with hparameter | hreturn
  · obtain ⟨type, htype, hd⟩ := List.mem_flatMap.1 hparameter
    obtain ⟨p, hp, htype⟩ := List.mem_filterMap.1 htype
    cases hps : l.parameters? i with
    | none =>
      rw [hps] at hp
      cases hp
    | some ps =>
      rw [hps] at hp
      obtain ⟨items, -, hitems⟩ := Option.bind_eq_some_iff.1 hps
      obtain ⟨t, ht⟩ := Listing.get?_parameter_type hitems hp htype
      exact isAt_of_mem_typeReport ht hd
  · obtain ⟨type, htype, hd⟩ := List.mem_flatMap.1 hreturn
    obtain ⟨t, ht⟩ := Listing.get?_returnType (Option.mem_toList.1 htype)
    exact isAt_of_mem_typeReport ht hd

theorem isAt_of_mem_keywordFindings {target : Target} (h : d ∈ keywordFindings l target) :
    d.IsAt l := by
  obtain ⟨i, -, hd⟩ := List.mem_flatMap.1 h
  unfold keywordReport at hd
  split at hd
  · cases hd
  · rename_i f hf
    obtain ⟨t, ht, -⟩ := Option.bind_eq_some_iff.1 hf
    split at hd
    · exact Finding.isAt_of_place (Wording.place_of_mem_findings hd) ht
    · cases hd

/-- The table of keywords has no defect. -/
theorem isOk_feature_of_mem_keywordRows {row : KeywordRow} (hrow : row ∈ keywordRows) :
    ∃ f, row.feature = .ok f := by
  have hread : ∀ row ∈ keywordRows, (Feature.Entry.fact row.absent .absent).fact?.any fun x =>
      (Feature.Entry.fact row.present .present).fact?.any fun y =>
        !x.version.level y.version := by decide +kernel
  obtain ⟨x, hx, hpresent⟩ := (Option.any_eq_true _ _).1 (hread row hrow)
  obtain ⟨y, hy, hapart⟩ := (Option.any_eq_true _ _).1 hpresent
  obtain ⟨_, hfirst, ha⟩ := Feature.Entry.fact?_eq_some_iff.1 hx
  obtain ⟨_, hsecond, hp⟩ := Feature.Entry.fact?_eq_some_iff.1 hy
  obtain ⟨rfl, -⟩ := Feature.Entry.fact.inj hfirst
  obtain ⟨rfl, -⟩ := Feature.Entry.fact.inj hsecond
  exact (Feature.isOk_introduction_iff row.keyword ⟨row.keyword, row.absent, row.present⟩
    (List.forall_mem_singleton.2 ⟨row.description, rfl⟩)).2
      ⟨x.version, y.version, ha, hp, by simpa using hapart⟩

/-- The token at the position is a keyword, and the range reaches the last version without it. -/
def IsLate (l : Listing) (target : Target) (i : Nat) : Prop :=
  ∃ key row v,
    ((l.get? i).filter fun t => keywordKinds.contains t.kind).map (keywordKey l i) = some key ∧
    LastWith (fun r => Text.lower r.keyword = Catalogue.keyOf key) keywordRows row ∧
    Version.parse row.absent = .ok v ∧ Turn.absence.isReached target.range v = true

theorem exists_mem_keywordFindings {target : Target} {i : Nat} (h : IsLate l target i) :
    ∃ d ∈ keywordFindings l target, d.place = l.place i := by
  obtain ⟨key, row, v, hkey, hlast, hv, hreached⟩ := h
  obtain ⟨t, htoken, rfl⟩ := Option.map_eq_some_iff.1 hkey
  obtain ⟨ht, hkind⟩ := Option.filter_eq_some_iff.1 htoken
  obtain ⟨features, hfeatures⟩ := exists_mapM_eq_ok fun _ => isOk_feature_of_mem_keywordRows
  obtain ⟨f, hrow⟩ := isOk_feature_of_mem_keywordRows hlast.mem
  have hf : newKeywords.catalogue.find? (keywordKey l i t) = some f := by
    rw [newKeywords, hfeatures]
    exact (Catalogue.find?_rows (fun _ _ h => Feature.name_of_ofEntries h)
      ((mapM_eq_ok_iff _ _ _).1 hfeatures) _ f).2 ⟨row, hlast, hrow⟩
  have habsent : (f.reading target.range).absentIn.isSome = true :=
    (f.absentIn_isSome _).2 ((Feature.hasTurn_iff hrow _ _).2
      ⟨.absent, row.absent, v, rfl, List.mem_cons_self, hv, hreached⟩)
  obtain ⟨version, hversion⟩ := Option.isSome_iff_exists.1 habsent
  have hverdict : f.verdict? target.range = some (f.reading target.range) := by
    rw [Feature.verdict?_eq, if_neg]
    rw [Verdict.isEmpty, hversion]
    exact Bool.false_ne_true
  have hreport : keywordReport l target.range i =
      newKeywords.wording.findings (l.place i) f.name (f.description.getD f.name) f.alternative
        (f.reading target.range) := by
    rw [keywordReport, ht, Option.bind_some, hf]
    simp only [hverdict]
  have huse : i ∈ newKeywords.uses l keywordKinds := by
    refine List.mem_filter.2 ⟨(l.mem_positionsOf keywordKinds i).2
      ⟨t, ht, List.contains_iff_mem.1 hkind⟩, ?_⟩
    show (l.kind? i).any keywordKinds.contains = true
    rw [Listing.kind?, ht]
    exact hkind
  obtain ⟨d, hd⟩ : ∃ d, newKeywords.wording.introduction? (l.place i) (codeOf f.name)
      (f.description.getD f.name) (f.reading target.range) = some d := by
    rw [Wording.introduction?, hversion]
    exact ⟨_, rfl⟩
  refine ⟨d, List.mem_flatMap.2 ⟨i, huse, ?_⟩, Wording.introduction?_place _ _ hd⟩
  rw [hreport, Wording.findings, hd]
  exact List.mem_cons_self

theorem isAt_of_mem_directiveReport {item : Item} {directive : Directive}
    (hdirective : l.directive? item = some directive) (h : d ∈ directiveReport l range directive) :
    d.IsAt l := by
  obtain ⟨⟨t, ht⟩, u, hu⟩ := Listing.get?_directive hdirective
  unfold directiveReport at h
  split at h
  · obtain rfl := List.mem_singleton.1 h
    exact Finding.isAt_of_place rfl ht
  · rcases List.mem_append.1 h with hd | hd
    · exact isAt_of_mem_report ht hd
    · split at hd
      · obtain rfl := List.mem_singleton.1 hd
        exact Finding.isAt_of_place rfl hu
      · cases hd

theorem isAt_of_mem_directiveFindings {target : Target} (h : d ∈ directiveFindings l target) :
    d.IsAt l := by
  obtain ⟨i, -, hi⟩ := List.mem_flatMap.1 h
  obtain ⟨directive, hdirective, hd⟩ := List.mem_flatMap.1 hi
  unfold Listing.directives? at hdirective
  split at hdirective
  · cases hitems : l.arguments? i with
    | none =>
      rw [hitems] at hdirective
      cases hdirective
    | some items =>
      rw [hitems] at hdirective
      obtain ⟨item, -, hitem⟩ := List.mem_filterMap.1 hdirective
      exact isAt_of_mem_directiveReport hitem hd
  · cases hdirective

theorem isAt_of_mem_settingFindings {target : Target} (h : d ∈ settingFindings l target) :
    d.IsAt l := by
  obtain ⟨i, -, hd⟩ := List.mem_flatMap.1 h
  unfold settingReport at hd
  split at hd
  · cases hd
  · rename_i position name hliteral
    obtain ⟨t, ht⟩ := get?_literalArgument hliteral
    split at hd
    · obtain ⟨e, he, rfl⟩ := List.mem_map.1 hd
      have hat : e.IsAt l := isAt_of_mem_report ht he
      unfold Finding.IsAt at *
      rwa [Finding.soften_place]
    · cases hd

theorem isAt_of_mem_modifierFindings {target : Target} (h : d ∈ modifierFindings l target) :
    d.IsAt l := by
  unfold modifierFindings at h
  split at h
  · cases h
  · obtain ⟨i, -, hd⟩ := List.mem_flatMap.1 h
    unfold modifierReport at hd
    split at hd
    · cases hd
    · rename_i position options hliteral
      obtain ⟨n, -, hliteral⟩ := Option.bind_eq_some_iff.1 hliteral
      obtain ⟨t, ht⟩ := get?_literalArgument hliteral
      split at hd
      · exact isAt_of_mem_report ht hd
      · cases hd

end Check

/-! ## Reports in order -/

theorem compare_then_ne_gt_iff {α : Type} [LinearOrder α] {a b : α} {o : Ordering} :
    (compare a b).then o ≠ .gt ↔ a < b ∨ a = b ∧ o ≠ .gt := by
  rcases lt_trichotomy a b with hlt | rfl | hgt
  · rw [compare_lt_iff_lt.2 hlt]
    simp [hlt]
  · rw [compare_eq_iff_eq.2 rfl]
    simp
  · rw [compare_gt_iff_gt.2 hgt]
    simp [hgt.not_gt, hgt.ne']

namespace Finding

/-- What a report is ordered by: position, then line, then column, then code. -/
def key (f : Finding) : ℕ ×ₗ ℕ ×ₗ ℕ ×ₗ String :=
  toLex (f.place.token, toLex (f.place.line, toLex (f.place.column, f.code)))

theorem notAfter_iff (f g : Finding) : f.notAfter g = true ↔ f.key ≤ g.key := by
  have hcode : compare f.code g.code ≠ .gt ↔ f.code ≤ g.code := compare_le_iff_le
  unfold notAfter key Place.compare
  rw [bne_iff_ne, Ordering.then_assoc, Ordering.then_assoc, compare_then_ne_gt_iff,
    compare_then_ne_gt_iff, compare_then_ne_gt_iff, hcode, Prod.Lex.toLex_le_toLex,
    Prod.Lex.toLex_le_toLex, Prod.Lex.toLex_le_toLex]

theorem notAfter_trans (f g h : Finding) (hfg : f.notAfter g = true) (hgh : g.notAfter h = true) :
    f.notAfter h = true := by
  rw [notAfter_iff] at *
  exact hfg.trans hgh

theorem notAfter_total (f g : Finding) : (f.notAfter g || g.notAfter f) = true := by
  rw [Bool.or_eq_true, notAfter_iff, notAfter_iff]
  exact le_total f.key g.key

theorem token_le_of_notAfter {f g : Finding} (h : f.notAfter g = true) :
    f.place.token ≤ g.place.token := by
  rw [notAfter_iff, key, key, Prod.Lex.toLex_le_toLex] at h
  rcases h with hlt | ⟨heq, -⟩
  · exact hlt.le
  · exact heq.le

/-- The findings name tokens of the listing, with the lines and columns of these, and go along it:
by position, and by line and column. -/
structure Along (l : Listing) (found : List Finding) : Prop where
  named : ∀ f ∈ found, f.place.token < l.size ∧ f.IsAt l
  tokens : found.Pairwise fun f g => f.place.token ≤ g.place.token
  places : found.Pairwise fun f g => f.place.line < g.place.line ∨
    f.place.line = g.place.line ∧ f.place.column ≤ g.place.column

theorem Along.place_le {l : Listing} {found : List Finding} (h : Along l found) {f g : Finding}
    (hf : f ∈ found) (hg : g ∈ found) (hlt : f.place.token < g.place.token) :
    f.place.line < g.place.line ∨
      f.place.line = g.place.line ∧ f.place.column ≤ g.place.column := by
  obtain ⟨i, hi, rfl⟩ := List.getElem_of_mem hf
  obtain ⟨j, hj, rfl⟩ := List.getElem_of_mem hg
  rcases Nat.lt_trichotomy i j with hij | rfl | hji
  · exact List.pairwise_iff_getElem.1 h.places i j hi hj hij
  · omega
  · have htokens := List.pairwise_iff_getElem.1 h.tokens j i hj hi hji
    omega

end Finding

namespace Rule

/-- A rule reports at tokens of the listing. -/
theorem isAt_of_mem_findings {r : Rule} {l : Listing} {target : Target} {f : Finding}
    (h : f ∈ r.findings l target) : f.IsAt l := by
  cases r with
  | newFunctions | removedFunctions | newConstants | removedConstants =>
    exact Check.isAt_of_mem_run h
  | removedExtensions => exact Check.isAt_of_mem_extensionFindings h
  | newInterfaces => exact Check.isAt_of_mem_interfaceFindings h
  | newTypes => exact Check.isAt_of_mem_typeFindings h
  | newKeywords => exact Check.isAt_of_mem_keywordFindings h
  | directives => exact Check.isAt_of_mem_directiveFindings h
  | removedSettings => exact Check.isAt_of_mem_settingFindings h
  | removedModifiers => exact Check.isAt_of_mem_modifierFindings h

theorem ofNames_eq (chosen : List String) :
    ofNames chosen = all.filter fun r => r.name ∈ chosen := by
  unfold ofNames
  congr 1
  funext r
  exact List.contains_eq_mem r.name chosen

theorem mem_findAll_iff {l : Listing} {t : Target} {chosen : List String} {f : Finding} :
    f ∈ findAll l t chosen ↔ ∃ r : Rule, r.name ∈ chosen ∧ f ∈ r.findings l t := by
  have hall (r : Rule) : r ∈ all := by
    cases r <;> decide
  unfold findAll
  rw [List.mem_mergeSort, ofNames_eq, List.mem_flatMap]
  simp [hall]

theorem isAt_of_mem_findAll {l : Listing} {target : Target} {chosen : List String} {f : Finding}
    (h : f ∈ findAll l target chosen) : f.IsAt l := by
  obtain ⟨r, -, hf⟩ := mem_findAll_iff.1 h
  exact isAt_of_mem_findings hf

theorem findAll_pairwise_token (l : Listing) (target : Target) (chosen : List String) :
    (findAll l target chosen).Pairwise fun f g => f.place.token ≤ g.place.token :=
  (List.pairwise_mergeSort Finding.notAfter_trans Finding.notAfter_total _).imp
    Finding.token_le_of_notAfter

/-- A report of tokens that ascend goes along them. -/
theorem findAll_along {l : Listing} (h : l.Ascends) (target : Target) (chosen : List String) :
    Finding.Along l (findAll l target chosen) where
  named := by
    intro f hf
    obtain ⟨t, ht, -⟩ := isAt_of_mem_findAll hf
    exact ⟨(Array.getElem?_eq_some_iff.1 ht).1, isAt_of_mem_findAll hf⟩
  tokens := findAll_pairwise_token l target chosen
  places := by
    refine (findAll_pairwise_token l target chosen).imp_of_mem ?_
    intro f g hf hg hle
    obtain ⟨t, ht, hline, hcolumn⟩ := isAt_of_mem_findAll hf
    obtain ⟨u, hu, hline', hcolumn'⟩ := isAt_of_mem_findAll hg
    rw [hline, hcolumn, hline', hcolumn']
    -- tokens ascend by line and column, and two findings at one token have its place
    rcases Nat.lt_or_eq_of_le hle with hlt | heq
    · exact h hlt ht hu
    · rw [heq, hu] at ht
      cases ht
      exact Or.inr ⟨rfl, Nat.le_refl _⟩

/-- A report names tokens of the text with their lines and columns, and it reads along the text:
by position, and by line and column. This holds for all lexemes that stand one behind the other,
and so for those of every text. -/
theorem findAll_along_text (target : Target) (chosen : List String) :
    (∀ (cs : List Char) (lexemes : List Lexeme), Lexeme.InOrder cs lexemes →
      let l := Listing.ofLexemes cs lexemes
      Finding.Along l (findAll l target chosen)) ∧
    ∀ text : String,
      let l := Listing.ofText text
      Finding.Along l (findAll l target chosen) := by
  constructor
  · intro cs lexemes h
    exact findAll_along (Listing.ofLexemes_ascends h) target chosen
  · intro text
    exact findAll_along (Listing.ofLexemes_ascends (Lexeme.inOrder_ofChars _)) target chosen

/-- A name of two parts and a keyword, with characters before and between them that belong to no
lexeme. -/
theorem findAll_along_text_gaps :
    let cs := "é\naa\\namespace yield".toList
    let lexemes : List Lexeme := [⟨.qualifiedName, 3, 12⟩, ⟨.kwYield, 16, 5⟩]
    let l := Listing.ofLexemes cs lexemes
    Lexeme.InOrder cs lexemes ∧ Finding.Along l (findAll l {} ["new_keywords"]) := by
  intro cs lexemes l
  have horder : Lexeme.InOrder cs lexemes := ⟨by decide, by decide⟩
  exact ⟨horder, (findAll_along_text {} ["new_keywords"]).1 cs lexemes horder⟩

/-- Keywords out of order make a report that does not go along the text. -/
theorem not_along_of_isLate {l : Listing} {target : Target} {i j : Nat} (hij : i < j)
    (hi : Check.IsLate l target i) (hj : Check.IsLate l target j)
    (hplace : (l.place i).line = (l.place j).line ∧ (l.place j).column < (l.place i).column) :
    ¬ Finding.Along l (findAll l target ["new_keywords"]) := by
  intro halong
  obtain ⟨f, hf, hfi⟩ := Check.exists_mem_keywordFindings hi
  obtain ⟨g, hg, hgj⟩ := Check.exists_mem_keywordFindings hj
  have hmem (d : Finding) (hd : d ∈ Check.keywordFindings l target) :
      d ∈ findAll l target ["new_keywords"] :=
    mem_findAll_iff.2 ⟨.newKeywords, List.mem_singleton_self _, hd⟩
  have hle := halong.place_le (hmem f hf) (hmem g hg)
  rw [hfi, hgj, l.place_token, l.place_token] at hle
  rcases hle hij with hline | ⟨-, hcolumn⟩
  · exact Nat.ne_of_lt hline hplace.1
  · exact Nat.not_le_of_lt hplace.2 hcolumn

/-- Overlapping lexemes, although they start one after the other: the name is cut into tokens of
which the last one stands after the start of the next lexeme. And lexemes that start inside of
characters, where columns count bytes. -/
theorem findAll_not_along :
    (∃ (cs : List Char) (lexemes : List Lexeme), (∀ x ∈ lexemes, IsBoundary cs x.start) ∧
      lexemes.Pairwise (fun x y => x.start < y.start) ∧
      ¬ Finding.Along (Listing.ofLexemes cs lexemes)
        (findAll (Listing.ofLexemes cs lexemes) {} ["new_keywords"])) ∧
    ∃ (cs : List Char) (lexemes : List Lexeme),
      lexemes.Pairwise (fun x y => x.start < y.start ∧ x.stop ≤ y.start) ∧
      ¬ Finding.Along (Listing.ofLexemes cs lexemes)
        (findAll (Listing.ofLexemes cs lexemes) {} ["new_keywords"]) := by
  have hyield : LastWith (fun r => Text.lower r.keyword = Catalogue.keyOf "yield")
      Check.keywordRows ⟨"yield", "5.4", "5.5", "\"yield\" keyword (for generators)"⟩ :=
    ⟨Check.keywordRows.take 10, Check.keywordRows.drop 11, rfl, by decide, by decide⟩
  have hnamespace : LastWith (fun r => Text.lower r.keyword = Catalogue.keyOf "namespace")
      Check.keywordRows ⟨"namespace", "5.2", "5.3", "\"namespace\" keyword"⟩ :=
    ⟨Check.keywordRows.take 2, Check.keywordRows.drop 3, rfl, by decide, by decide⟩
  have hread : Version.parse "5.2" = .ok ⟨5, 2, none⟩ ∧ Version.parse "5.4" = .ok ⟨5, 4, none⟩ := by
    decide
  constructor
  · refine ⟨"aa\\namespace".toList, [⟨.qualifiedName, 0, 12⟩, ⟨.kwYield, 1, 5⟩],
      by decide, by decide, ?_⟩
    exact not_along_of_isLate (by decide : 2 < 3)
      ⟨_, _, _, by decide +kernel, hnamespace, hread.1, rfl⟩
      ⟨_, _, _, by decide +kernel, hyield, hread.2, rfl⟩ (by decide +kernel)
  · refine ⟨"éé".toList, [⟨.kwYield, 3, 1⟩, ⟨.kwYield, 4, 0⟩], by decide, ?_⟩
    exact not_along_of_isLate (by decide : 0 < 1)
      ⟨_, _, _, by decide +kernel, hyield, hread.2, rfl⟩
      ⟨_, _, _, by decide +kernel, hyield, hread.2, rfl⟩ (by decide +kernel)

end Rule

end Vintage
