import Mathlib.Data.List.Forall2
import Vintage.Proofs.Histories
import Vintage.Proofs.Lookups

/-!
# What a check of a table reports

A check looks the texts of tokens up in the catalogue of a table and words the verdict on what it
finds. What it reports can be said by the rows alone: the last row of a name counts, and a use is
reported if the range has a version in which the feature is not there yet, is deprecated, or is
gone.

Results:
* `Catalogue.find?_rows`: a catalogue finds the feature of the last row of a name.
* `Check.exists_run_iff`: which findings a check makes, by place and severity.
* `Feature.isOk_ofIntroduction_iff`, `Feature.isOk_ofWithdrawal_iff`: the rows that are accepted.
* `Check.run_table_iff`: what a check reports, by the rows of its table.
-/

namespace Vintage

/-! ## Looking up rows -/

theorem mapM_eq_ok_iff {α β ε : Type} (g : α → Except ε β) (rows : List α) (out : List β) :
    rows.mapM g = .ok out ↔ List.Forall₂ (fun row b => g row = .ok b) rows out := by
  induction rows generalizing out with
  | nil =>
    rw [List.forall₂_nil_left_iff]
    exact ⟨fun h => (Except.ok.inj h).symm, fun h => by rw [h]; rfl⟩
  | cons row rows ih =>
    rw [List.mapM_cons, List.forall₂_cons_left_iff]
    constructor
    · intro h
      cases hrow : g row with
      | error e => rw [hrow] at h; cases h
      | ok b =>
        cases hrows : rows.mapM g with
        | error e => rw [hrow, hrows] at h; cases h
        | ok bs =>
          rw [hrow, hrows] at h
          cases h
          exact ⟨b, bs, rfl, (ih bs).1 hrows, rfl⟩
    · rintro ⟨b, bs, hrow, hrows, rfl⟩
      rw [hrow, (ih bs).2 hrows]
      rfl

/-- A table whose rows are all accepted is accepted. -/
theorem exists_mapM_eq_ok {α β ε : Type} {g : α → Except ε β} {rows : List α}
    (h : ∀ row ∈ rows, ∃ b, g row = .ok b) : ∃ out, rows.mapM g = .ok out := by
  induction rows with
  | nil => exact ⟨[], rfl⟩
  | cons row rows ih =>
    obtain ⟨hrow, hrows⟩ := List.forall_mem_cons.1 h
    obtain ⟨b, hb⟩ := hrow
    obtain ⟨out, hout⟩ := ih hrows
    exact ⟨b :: out, (mapM_eq_ok_iff g _ _).2 (.cons hb ((mapM_eq_ok_iff g _ _).1 hout))⟩

/-- The last elements of two lists that correspond, if each element has one counterpart. -/
theorem LastWith.forall₂_iff {α β : Type} {R : α → β → Prop} {p : α → Prop} {q : β → Prop}
    (hR : ∀ a b, R a b → (p a ↔ q b)) (hunique : ∀ a b b', R a b → R a b' → b = b') {as : List α}
    {bs : List β} (h : List.Forall₂ R as bs) (b : β) :
    LastWith q bs b ↔ ∃ a, LastWith p as a ∧ R a b := by
  induction h with
  | nil => simp [LastWith.not_nil]
  | @cons a₀ b₀ as bs hhead htail ih =>
    have hnone : (∀ y ∈ bs, ¬ q y) ↔ ∀ x ∈ as, ¬ p x := by
      clear ih
      induction htail with
      | nil => simp
      | cons hxy _ ih' => simp only [List.forall_mem_cons, hR _ _ hxy, ih']
    simp only [LastWith.cons_iff, ih, hnone, ← hR _ _ hhead, or_and_right, exists_or]
    refine or_congr_right ⟨?_, ?_⟩
    · rintro ⟨rfl, hlast⟩
      exact ⟨a₀, ⟨rfl, hlast⟩, hhead⟩
    · rintro ⟨_, ⟨rfl, hlast⟩, hb⟩
      exact ⟨hunique _ _ _ hb hhead, hlast⟩

/-- The catalogue of a table finds the feature of the last row of a name: the name in lower case is
the text in lower case, without the backslashes that the text starts with. -/
theorem Catalogue.find?_rows {α : Type} {nameOf : α → String}
    {ofRow : α → Except FeatureError Feature}
    (hname : ∀ row f, ofRow row = .ok f → f.name = nameOf row) {rows : List α}
    {features : List Feature} (h : List.Forall₂ (fun row f => ofRow row = .ok f) rows features)
    (text : String) (f : Feature) :
    (ofFeatures features).find? text = some f ↔
      ∃ row, LastWith (fun r => Text.lower (nameOf r) = keyOf text) rows row ∧
        ofRow row = .ok f := by
  rw [find?_eq_atKey, atKey_ofFeatures]
  refine LastWith.forall₂_iff (fun row f hrow => ?_) (fun _ _ _ h h' => ?_) h f
  · rw [hname row f hrow]
  · exact Except.ok.inj (h.symm.trans h')

/-! ## Findings of a check -/

theorem Listing.mem_positionsOf (l : Listing) (kinds : List TokenKind) (p : Nat) :
    p ∈ l.positionsOf kinds ↔ ∃ t, l.get? p = some t ∧ t.kind ∈ kinds := by
  simp [Listing.positionsOf, Listing.get?, List.mem_zipIdx_iff_getElem?]

theorem Listing.place_token (l : Listing) (p : Nat) : (l.place p).token = p := by
  unfold Listing.place
  split <;> rfl

namespace Wording

/-- The findings of a verdict have the severities of its two parts. -/
theorem exists_findings_iff (w : Wording) (place : Place) (name display : String)
    (alternative : Option String) (v : Verdict) (s : Severity) :
    (∃ d ∈ w.findings place name display alternative v, d.severity = s) ↔
      v.introductionSeverity? = some s ∨ v.withdrawalSeverity? = some s := by
  rw [← w.introduction?_severity place (codeOf name) display v,
    ← w.withdrawal?_severity place (codeOf name) display alternative v]
  simp only [findings, List.mem_append, Option.mem_toList, or_and_right, exists_or,
    Option.map_eq_some_iff]

theorem place_of_mem_findings {w : Wording} {place : Place} {name display : String}
    {alternative : Option String} {v : Verdict} {d : Finding}
    (h : d ∈ w.findings place name display alternative v) : d.place = place := by
  rcases List.mem_append.1 h with h | h
  · exact w.introduction?_place place (Option.mem_toList.1 h)
  · exact w.withdrawal?_place place (Option.mem_toList.1 h)

end Wording

namespace Check

variable (c : Check) (l : Listing) (range : VersionRange)

theorem place_of_mem_report {p : Nat} {f : Feature} {d : Finding}
    (h : d ∈ c.report l p f range) : d.place.token = p := by
  unfold report at h
  split at h
  · rw [Wording.place_of_mem_findings h, Listing.place_token]
  · cases h

/-- A feature is reported with the severities of what the range reaches of its history. -/
theorem exists_report_iff (p : Nat) (f : Feature) (s : Severity) :
    (∃ d ∈ c.report l p f range, d.severity = s) ↔
      (f.reading range).introductionSeverity? = some s ∨
        (f.reading range).withdrawalSeverity? = some s := by
  unfold report
  split
  · rename_i v hv
    rw [Feature.eq_reading_of_verdict? hv]
    exact c.wording.exists_findings_iff _ _ _ _ _ _
  · rename_i hnone
    rw [Feature.verdict?_eq] at hnone
    split at hnone
    · rename_i hempty
      obtain ⟨hintro, hwithdrawal⟩ := f.severity?_eq_none_of_isEmpty range hempty
      rw [hintro, hwithdrawal]
      simp
    · cases hnone

theorem mem_run_iff (kinds : List TokenKind) (d : Finding) :
    d ∈ c.run l range kinds ↔ ∃ p t f, l.get? p = some t ∧ t.kind ∈ kinds ∧
      c.applies l p = true ∧ c.catalogue.find? t.text = some f ∧ d ∈ c.report l p f range := by
  unfold run uses
  simp only [List.mem_flatMap, List.mem_filter, Listing.mem_positionsOf]
  constructor
  · rintro ⟨p, ⟨⟨t, ht, hkind⟩, happlies⟩, hd⟩
    rw [reportToken, ht, Option.bind_some] at hd
    split at hd
    · rename_i f hf
      exact ⟨p, t, f, ht, hkind, happlies, hf, hd⟩
    · cases hd
  · rintro ⟨p, t, f, ht, hkind, happlies, hf, hd⟩
    refine ⟨p, ⟨⟨t, ht, hkind⟩, happlies⟩, ?_⟩
    rw [reportToken, ht, Option.bind_some, hf]
    exact hd

/-- The findings of a check by position and severity. -/
theorem exists_run_iff (kinds : List TokenKind) (p : Nat) (s : Severity) :
    (∃ d ∈ c.run l range kinds, d.place.token = p ∧ d.severity = s) ↔
      ∃ t f, l.get? p = some t ∧ t.kind ∈ kinds ∧ c.applies l p = true ∧
        c.catalogue.find? t.text = some f ∧
        ((f.reading range).introductionSeverity? = some s ∨
          (f.reading range).withdrawalSeverity? = some s) := by
  simp only [mem_run_iff, ← c.exists_report_iff l range p]
  constructor
  · rintro ⟨d, ⟨p', t, f, ht, hkind, happlies, hf, hd⟩, hp, hs⟩
    obtain rfl : p' = p := (c.place_of_mem_report l range hd).symm.trans hp
    exact ⟨t, f, ht, hkind, happlies, hf, d, hd, hs⟩
  · rintro ⟨t, f, ht, hkind, happlies, hf, d, hd, hs⟩
    exact ⟨d, ⟨p, t, f, ht, hkind, happlies, hf, hd⟩, c.place_of_mem_report l range hd, hs⟩

end Check

/-! ## Rows that are accepted -/

namespace Feature

/-- The two versions of the row can be read and are different. -/
def Introduction.WellFormed (row : Introduction) : Prop :=
  ∃ a p, Version.parse row.absent = .ok a ∧ Version.parse row.present = .ok p ∧ a.level p = false

/-- The row gives a version, and the versions that it gives can be read and are different. -/
structure Withdrawal.WellFormed (row : Withdrawal) : Prop where
  given : row.deprecated ≠ none ∨ row.removed ≠ none
  deprecated : ∀ text, row.deprecated = some text → ∃ v, Version.parse text = .ok v
  removed : ∀ text, row.removed = some text → ∃ v, Version.parse text = .ok v
  apart : ∀ d r v w, row.deprecated = some d → row.removed = some r →
    Version.parse d = .ok v → Version.parse r = .ok w → v.level w = false

theorem Introduction.mem_entries {row : Introduction} {text : String} {status : Status} :
    .fact text status ∈ row.entries ↔
      text = row.absent ∧ status = .absent ∨ text = row.present ∧ status = .present := by
  simp [Introduction.entries]

theorem Withdrawal.mem_entries {row : Withdrawal} {text : String} {status : Status} :
    .fact text status ∈ row.entries ↔
      row.deprecated = some text ∧ status = .deprecated ∨
      row.removed = some text ∧ status = .removed := by
  simp only [Withdrawal.entries, List.mem_append, Option.mem_toList, Option.map_eq_some_iff,
    Entry.fact.injEq, reduceCtorEq, and_false, exists_false, or_false]
  constructor
  · rintro (⟨_, h, rfl, rfl⟩ | ⟨_, h, rfl, rfl⟩)
    · exact Or.inl ⟨h, rfl⟩
    · exact Or.inr ⟨h, rfl⟩
  · rintro (⟨h, rfl⟩ | ⟨h, rfl⟩)
    · exact Or.inl ⟨_, h, rfl, rfl⟩
    · exact Or.inr ⟨_, h, rfl, rfl⟩

theorem Withdrawal.filterMap_entries (row : Withdrawal) :
    row.entries.filterMap Entry.fact? =
      (row.deprecated.bind fun text => (Entry.fact text .deprecated).fact?).toList ++
        (row.removed.bind fun text => (Entry.fact text .removed).fact?).toList := by
  obtain ⟨name, deprecated, removed, alternative⟩ := row
  have hone (o : Option String) (status : Status) :
      (o.map fun text => Entry.fact text status).toList.filterMap Entry.fact? =
        (o.bind fun text => (Entry.fact text status).fact?).toList := by
    cases o with
    | none => rfl
    | some text =>
      show [Entry.fact text status].filterMap Entry.fact? = (Entry.fact text status).fact?.toList
      cases hfact : (Entry.fact text status).fact? with
      | none => exact List.filterMap_cons_none hfact
      | some f => exact List.filterMap_cons_some hfact
  have hother : (alternative.map Entry.alternative).toList.filterMap Entry.fact? = [] := by
    cases alternative <;> rfl
  rw [Withdrawal.entries, List.filterMap_append, List.filterMap_append, hone, hone, hother,
    List.append_nil]

theorem status_of_mem_filterMap {entries : List Entry} {fact : Fact}
    (h : fact ∈ entries.filterMap Entry.fact?) : ∃ text, .fact text fact.status ∈ entries := by
  obtain ⟨e, he, hfact⟩ := List.mem_filterMap.1 h
  obtain ⟨text, rfl, -⟩ := Entry.fact?_eq_some_iff.1 hfact
  exact ⟨text, he⟩

/-- The rows of introductions that are accepted. A description of the feature makes no
difference. -/
theorem isOk_introduction_iff (name : String) (row : Introduction) {others : List Entry}
    (hothers : ∀ e ∈ others, ∃ text, e = .description text) :
    (∃ f, ofEntries name (row.entries ++ others) = .ok f) ↔ row.WellFormed := by
  have hmem {text : String} {status : Status} :
      .fact text status ∈ row.entries ++ others ↔ .fact text status ∈ row.entries := by
    rw [List.mem_append, or_iff_left]
    intro h
    obtain ⟨_, h⟩ := hothers _ h
    cases h
  have hfacts : (row.entries ++ others).filterMap Entry.fact? =
      row.entries.filterMap Entry.fact? := by
    have hnone : others.filterMap Entry.fact? = [] := by
      refine List.filterMap_eq_nil_iff.2 fun e he => ?_
      obtain ⟨_, rfl⟩ := hothers e he
      rfl
    rw [List.filterMap_append, hnone, List.append_nil]
  rw [isOk_ofEntries_iff, hfacts]
  · constructor
    · rintro ⟨hread, -, happart⟩
      obtain ⟨a, ha⟩ := hread row.absent .absent (by simp [Introduction.entries])
      obtain ⟨p, hp⟩ := hread row.present .present (by simp [Introduction.entries])
      refine ⟨a, p, ha, hp, ?_⟩
      simpa [Introduction.entries, Entry.fact?, ha, hp] using happart
    · rintro ⟨a, p, ha, hp, happart⟩
      refine ⟨?_, ?_, ?_⟩
      · intro text status h
        rcases Introduction.mem_entries.1 (hmem.1 h) with ⟨rfl, -⟩ | ⟨rfl, -⟩
        · exact ⟨a, ha⟩
        · exact ⟨p, hp⟩
      · simp [Introduction.entries, Entry.fact?, ha]
      · simpa [Introduction.entries, Entry.fact?, ha, hp] using happart
  · intro key value h
    rcases List.mem_append.1 h with h | h
    · simp [Introduction.entries] at h
    · obtain ⟨_, h⟩ := hothers _ h
      cases h
  · rw [hfacts]
    intro a ha b _ hremoved
    obtain ⟨text, h⟩ := status_of_mem_filterMap ha
    rw [hremoved, Introduction.mem_entries] at h
    rcases h with ⟨-, h⟩ | ⟨-, h⟩ <;> cases h

theorem isOk_ofIntroduction_iff (row : Introduction) :
    (∃ f, ofIntroduction row = .ok f) ↔ row.WellFormed := by
  rw [ofIntroduction, ← isOk_introduction_iff row.name row (List.forall_mem_nil _),
    List.append_nil]

/-- The rows of withdrawals that are accepted. -/
theorem isOk_ofWithdrawal_iff (row : Withdrawal) :
    (∃ f, ofWithdrawal row = .ok f) ↔ row.WellFormed := by
  unfold ofWithdrawal
  rw [isOk_ofEntries_iff (by simp [Withdrawal.entries])]
  · rw [row.filterMap_entries]
    constructor
    · rintro ⟨hread, hne, happart⟩
      refine ⟨?_, ?_, ?_, ?_⟩
      · by_contra hnone
        rw [not_or, not_not, not_not] at hnone
        rw [hnone.1, hnone.2] at hne
        exact hne rfl
      · intro text htext
        exact hread text .deprecated (Withdrawal.mem_entries.2 (Or.inl ⟨htext, rfl⟩))
      · intro text htext
        exact hread text .removed (Withdrawal.mem_entries.2 (Or.inr ⟨htext, rfl⟩))
      · intro d r v w hd hr hv hw
        simpa [hd, hr, Entry.fact?, hv, hw] using happart
    · intro hrow
      refine ⟨?_, ?_, ?_⟩
      · intro text status hmem
        rcases Withdrawal.mem_entries.1 hmem with ⟨h, -⟩ | ⟨h, -⟩
        · exact hrow.deprecated text h
        · exact hrow.removed text h
      · rcases hrow.given with h | h
        · obtain ⟨text, htext⟩ := Option.ne_none_iff_exists'.1 h
          obtain ⟨v, hv⟩ := hrow.deprecated text htext
          simp [htext, Entry.fact?, hv]
        · obtain ⟨text, htext⟩ := Option.ne_none_iff_exists'.1 h
          obtain ⟨v, hv⟩ := hrow.removed text htext
          simp [htext, Entry.fact?, hv]
      · have hone (o : Option Fact) :
            o.toList.Pairwise fun a b => a.version.level b.version = false := by
          cases o <;> simp
        refine List.pairwise_append.2 ⟨hone _, hone _, ?_⟩
        intro a ha b hb
        obtain ⟨d, hd, ha⟩ := Option.bind_eq_some_iff.1 (Option.mem_toList.1 ha)
        obtain ⟨r, hr, hb⟩ := Option.bind_eq_some_iff.1 (Option.mem_toList.1 hb)
        obtain ⟨_, he, hv⟩ := Entry.fact?_eq_some_iff.1 ha
        obtain ⟨_, he', hw⟩ := Entry.fact?_eq_some_iff.1 hb
        rw [← (Entry.fact.inj he).1] at hv
        rw [← (Entry.fact.inj he').1] at hw
        exact hrow.apart d r _ _ hd hr hv hw
  · intro _ _ b hb _
    obtain ⟨text, hmem⟩ := status_of_mem_filterMap hb
    rcases Withdrawal.mem_entries.1 hmem with ⟨-, h⟩ | ⟨-, h⟩ <;> rw [h] <;> rfl

end Feature

/-! ## Verdicts on rows -/

namespace VersionRange

/-- The range has a patched version that is loosely at or before `v`. -/
def HasAtOrBefore (r : VersionRange) (v : Version) : Prop :=
  ∃ w : Version, w.IsPatched ∧ r.contains w = true ∧ w.AtMost v

/-- The range has a patched version that is loosely at or after `v`. -/
def HasAtOrAfter (r : VersionRange) (v : Version) : Prop :=
  ∃ w : Version, w.IsPatched ∧ r.contains w = true ∧ v.AtMost w

end VersionRange

namespace Feature

/-- The range has versions without the feature of the row. -/
def Introduction.AbsentIn (row : Introduction) (range : VersionRange) : Prop :=
  ∃ v, Version.parse row.absent = .ok v ∧ range.HasAtOrBefore v

/-- The range has versions in which the feature of the row is deprecated. -/
def Withdrawal.DeprecatedIn (row : Withdrawal) (range : VersionRange) : Prop :=
  ∃ text v, row.deprecated = some text ∧ Version.parse text = .ok v ∧ range.HasAtOrAfter v

/-- The range has versions in which the feature of the row is removed. -/
def Withdrawal.RemovedIn (row : Withdrawal) (range : VersionRange) : Prop :=
  ∃ text v, row.removed = some text ∧ Version.parse text = .ok v ∧ range.HasAtOrAfter v

/-- The only turn of an accepted introduction is the absence. -/
theorem hasTurn_ofIntroduction {row : Introduction} {f : Feature} (h : ofIntroduction row = .ok f)
    (range : VersionRange) (turn : Turn) :
    f.HasTurn turn range ↔ turn.takes .absent = true ∧
      ∃ v, Version.parse row.absent = .ok v ∧ turn.isReached range v = true := by
  rw [hasTurn_iff h]
  constructor
  · rintro ⟨status, text, v, htakes, hmem, htext, hreach⟩
    rcases Introduction.mem_entries.1 hmem with ⟨rfl, rfl⟩ | ⟨rfl, rfl⟩
    · exact ⟨htakes, v, htext, hreach⟩
    · cases turn <;> cases htakes
  · rintro ⟨htakes, v, htext, hreach⟩
    exact ⟨_, _, v, htakes, Introduction.mem_entries.2 (Or.inl ⟨rfl, rfl⟩), htext, hreach⟩

/-- The turns of an accepted withdrawal are the deprecation and the removal that it gives. -/
theorem hasTurn_ofWithdrawal {row : Withdrawal} {f : Feature} (h : ofWithdrawal row = .ok f)
    (range : VersionRange) (turn : Turn) :
    f.HasTurn turn range ↔ ∃ text v,
      (row.deprecated = some text ∧ turn.takes .deprecated = true ∨
        row.removed = some text ∧ turn.takes .removed = true) ∧
      Version.parse text = .ok v ∧ turn.isReached range v = true := by
  rw [hasTurn_iff h]
  constructor
  · rintro ⟨status, text, v, htakes, hmem, htext, hreach⟩
    refine ⟨text, v, ?_, htext, hreach⟩
    rcases Withdrawal.mem_entries.1 hmem with ⟨hrow, rfl⟩ | ⟨hrow, rfl⟩
    · exact Or.inl ⟨hrow, htakes⟩
    · exact Or.inr ⟨hrow, htakes⟩
  · rintro ⟨text, v, ⟨hrow, htakes⟩ | ⟨hrow, htakes⟩, htext, hreach⟩
    · exact ⟨_, text, v, htakes, Withdrawal.mem_entries.2 (Or.inl ⟨hrow, rfl⟩), htext, hreach⟩
    · exact ⟨_, text, v, htakes, Withdrawal.mem_entries.2 (Or.inr ⟨hrow, rfl⟩), htext, hreach⟩

section Severity

variable {range : VersionRange} (hrange : range.Valid) {f : Feature}
include hrange

/-- A use of an accepted introduction is an error if the range has versions without the feature,
and is not reported otherwise. -/
theorem severity_ofIntroduction {row : Introduction} (h : ofIntroduction row = .ok f)
    (s : Severity) :
    (f.reading range).introductionSeverity? = some s ∨
        (f.reading range).withdrawalSeverity? = some s ↔
      row.AbsentIn range ∧ s = .error := by
  have hturn := hasTurn_ofIntroduction h range
  have habsent : f.HasTurn .absence range ↔ row.AbsentIn range := by
    simp [hturn, Turn.takes, Turn.isReached, VersionRange.reachesDown_iff hrange,
      Introduction.AbsentIn, VersionRange.HasAtOrBefore]
  have hconditional : ¬ f.HasTurn .condition range := by simp [hturn, Turn.takes]
  have hdeprecated : ¬ f.HasTurn .deprecation range := by simp [hturn, Turn.takes]
  have hremoved : ¬ f.HasTurn .removal range := by simp [hturn, Turn.takes]
  rw [introductionSeverity?_reading, withdrawalSeverity?_reading, habsent]
  simp [hconditional, hdeprecated, hremoved]

/-- A use of an accepted withdrawal is an error if the range has versions in which the feature is
removed, a warning if it is only deprecated in some, and is not reported otherwise. -/
theorem severity_ofWithdrawal {row : Withdrawal} (h : ofWithdrawal row = .ok f) (s : Severity) :
    (f.reading range).introductionSeverity? = some s ∨
        (f.reading range).withdrawalSeverity? = some s ↔
      row.RemovedIn range ∧ s = .error ∨
        ¬ row.RemovedIn range ∧ row.DeprecatedIn range ∧ s = .warning := by
  have hturn := hasTurn_ofWithdrawal h range
  have habsent : ¬ f.HasTurn .absence range := by simp [hturn, Turn.takes]
  have hconditional : ¬ f.HasTurn .condition range := by simp [hturn, Turn.takes]
  have hdeprecated : f.HasTurn .deprecation range ↔ row.DeprecatedIn range := by
    simp [hturn, Turn.takes, Turn.isReached, VersionRange.reachesUp_iff hrange,
      Withdrawal.DeprecatedIn, VersionRange.HasAtOrAfter]
  have hremoved : f.HasTurn .removal range ↔ row.RemovedIn range := by
    simp [hturn, Turn.takes, Turn.isReached, VersionRange.reachesUp_iff hrange,
      Withdrawal.RemovedIn, VersionRange.HasAtOrAfter]
  rw [introductionSeverity?_reading, withdrawalSeverity?_reading, hdeprecated, hremoved]
  simp [habsent, hconditional]

end Severity

end Feature

/-! ## Checks of tables -/

namespace Check

section Rows

variable {α : Type} {nameOf : α → String} {ofRow : α → Except FeatureError Feature}
  (hname : ∀ row f, ofRow row = .ok f → f.name = nameOf row)
  {range : VersionRange} {Reported : α → Severity → Prop}
  (hreported : ∀ row f, ofRow row = .ok f → ∀ s,
    (f.reading range).introductionSeverity? = some s ∨
      (f.reading range).withdrawalSeverity? = some s ↔ Reported row s)
include hname hreported

/-- If the verdict on a row can be said by the row alone, so can the findings of a check of a
table. -/
theorem exists_run_rows_iff {rows : List α} (hrows : ∀ row ∈ rows, ∃ f, ofRow row = .ok f)
    (wording : Wording) (applies : Listing → Nat → Bool) (l : Listing) (kinds : List TokenKind)
    (p : Nat) (s : Severity) :
    (∃ d ∈ (Check.mk (.ofTable (rows.mapM ofRow)) wording applies).run l range kinds,
        d.place.token = p ∧ d.severity = s) ↔
      ∃ t row, l.get? p = some t ∧ t.kind ∈ kinds ∧ applies l p = true ∧
        LastWith (fun r => Text.lower (nameOf r) = Catalogue.keyOf t.text) rows row ∧
        Reported row s := by
  obtain ⟨features, hfeatures⟩ := exists_mapM_eq_ok hrows
  have hfind := Catalogue.find?_rows hname ((mapM_eq_ok_iff ofRow rows features).1 hfeatures)
  rw [exists_run_iff, hfeatures]
  constructor
  · rintro ⟨t, f, ht, hkind, happlies, hf, hs⟩
    obtain ⟨row, hlast, hrow⟩ := (hfind t.text f).1 hf
    exact ⟨t, row, ht, hkind, happlies, hlast, (hreported row f hrow s).1 hs⟩
  · rintro ⟨t, row, ht, hkind, happlies, hlast, hs⟩
    obtain ⟨f, hrow⟩ := hrows row hlast.mem
    exact ⟨t, f, ht, hkind, happlies, (hfind t.text f).2 ⟨row, hlast, hrow⟩,
      (hreported row f hrow s).2 hs⟩

end Rows

open Feature

/-- What a check of a table reports, by its rows. A table of well-formed rows is accepted. A check
of it reports a token if the token has one of the kinds, is a use, and names a row such that the
range has versions in which the feature of the last row of that name is not there, is deprecated or
is gone. For an introduction that is an error; for a withdrawal it is one if the feature is gone in
some version of the range, and else a warning. -/
theorem run_table_iff (wording : Wording) (applies : Listing → Nat → Bool) (l : Listing)
    (kinds : List TokenKind) {range : VersionRange} (hrange : range.Valid) :
    (∀ rows : List Introduction, (∀ row ∈ rows, row.WellFormed) →
      (∃ features, introduced rows = .ok features) ∧ ∀ p s,
        (∃ d ∈ (Check.mk (.ofTable (introduced rows)) wording applies).run l range kinds,
            d.place.token = p ∧ d.severity = s) ↔
          ∃ t row, l.get? p = some t ∧ t.kind ∈ kinds ∧ applies l p = true ∧
            LastWith (fun r => Text.lower r.name = Catalogue.keyOf t.text) rows row ∧
            row.AbsentIn range ∧ s = .error) ∧
    (∀ rows : List Withdrawal, (∀ row ∈ rows, row.WellFormed) →
      (∃ features, withdrawn rows = .ok features) ∧ ∀ p s,
        (∃ d ∈ (Check.mk (.ofTable (withdrawn rows)) wording applies).run l range kinds,
            d.place.token = p ∧ d.severity = s) ↔
          ∃ t row, l.get? p = some t ∧ t.kind ∈ kinds ∧ applies l p = true ∧
            LastWith (fun r => Text.lower r.name = Catalogue.keyOf t.text) rows row ∧
            (row.RemovedIn range ∧ s = .error ∨
              ¬ row.RemovedIn range ∧ row.DeprecatedIn range ∧ s = .warning)) := by
  constructor
  · intro rows hrows
    have hok : ∀ row ∈ rows, ∃ f, ofIntroduction row = .ok f := fun row hrow =>
      (isOk_ofIntroduction_iff row).2 (hrows row hrow)
    refine ⟨exists_mapM_eq_ok hok, fun p s => ?_⟩
    exact exists_run_rows_iff (fun _ _ h => name_of_ofEntries h)
      (fun _ _ h => severity_ofIntroduction hrange h) hok wording applies l kinds p s
  · intro rows hrows
    have hok : ∀ row ∈ rows, ∃ f, ofWithdrawal row = .ok f := fun row hrow =>
      (isOk_ofWithdrawal_iff row).2 (hrows row hrow)
    refine ⟨exists_mapM_eq_ok hok, fun p s => ?_⟩
    exact exists_run_rows_iff (fun _ _ h => name_of_ofEntries h)
      (fun _ _ h => severity_ofWithdrawal hrange h) hok wording applies l kinds p s

/-- A call of a function by its full name in capitals, and one of another function. -/
def twoCalls : Listing where
  tokens := #[
    { kind := .openTag, text := "<?php ", line := 1, column := 1 },
    { kind := .name, text := "\\ARRAY_COLUMN", line := 1, column := 7 },
    { kind := .openParen, text := "(", line := 1, column := 20, partner := some 3 },
    { kind := .closeParen, text := ")", line := 1, column := 21, partner := some 2 },
    { kind := .semicolon, text := ";", line := 1, column := 22 },
    { kind := .name, text := "mysql_query", line := 1, column := 23 },
    { kind := .openParen, text := "(", line := 1, column := 34, partner := some 7 },
    { kind := .closeParen, text := ")", line := 1, column := 35, partner := some 6 },
    { kind := .semicolon, text := ";", line := 1, column := 36 }]

/-- The range has `5.4.0`, so the first call is an error; it ends before `7.0`, so the second call
is a warning only, though an earlier row of the same name would make it an error. -/
theorem run_table_iff_twoCalls :
    let range : VersionRange := ⟨some ⟨5, 3, some 2⟩, some ⟨5, 5, none⟩⟩
    let added : List Introduction := [⟨"array_column", "5.4.0", "5.5"⟩]
    let gone : List Withdrawal :=
      [⟨"MySQL_Query", none, some "5.3", none⟩, ⟨"mysql_QUERY", some "5.5", some "7.0", none⟩]
    let reports (table : Except FeatureError (List Feature)) (p : Nat) (s : Severity) : Prop :=
      ∃ d ∈ (Check.mk (.ofTable table) ⟨"Function %s()"⟩ Listing.isGlobalCall).run twoCalls range
        [.name], d.place.token = p ∧ d.severity = s
    range.Valid ∧ (∀ row ∈ added, row.WellFormed) ∧ (∀ row ∈ gone, row.WellFormed) ∧
      reports (introduced added) 1 .error ∧ reports (withdrawn gone) 5 .warning := by
  intro range added gone reports
  have hrange : range.Valid := rfl
  have hadded : ∀ row ∈ added, row.WellFormed := by
    intro row hrow
    obtain rfl := List.mem_singleton.1 hrow
    exact ⟨⟨5, 4, some 0⟩, ⟨5, 5, none⟩, by decide, by decide, by decide⟩
  have hread : Version.parse "5.3" = .ok ⟨5, 3, none⟩ ∧ Version.parse "5.5" = .ok ⟨5, 5, none⟩ ∧
      Version.parse "7.0" = .ok ⟨7, 0, none⟩ := by decide
  obtain ⟨hfirst, hdeprecated, hremoved⟩ := hread
  have hgone : ∀ row ∈ gone, row.WellFormed := by
    intro row hrow
    rcases List.mem_pair.1 hrow with rfl | rfl
    · refine ⟨Or.inr nofun, nofun, ?_, nofun⟩
      rintro _ ⟨⟩
      exact ⟨_, hfirst⟩
    · refine ⟨Or.inl nofun, ?_, ?_, ?_⟩
      · rintro _ ⟨⟩
        exact ⟨_, hdeprecated⟩
      · rintro _ ⟨⟩
        exact ⟨_, hremoved⟩
      · rintro _ _ v w ⟨⟩ ⟨⟩ hv hw
        cases hdeprecated.symm.trans hv
        cases hremoved.symm.trans hw
        decide
  have htable := run_table_iff ⟨"Function %s()"⟩ Listing.isGlobalCall twoCalls [.name] hrange
  have hnamed : LastWith (fun r => Text.lower r.name = Catalogue.keyOf "\\ARRAY_COLUMN") added
      ⟨"array_column", "5.4.0", "5.5"⟩ := ⟨[], [], rfl, by decide, nofun⟩
  have hlast : LastWith (fun r => Text.lower r.name = Catalogue.keyOf "mysql_query") gone
      ⟨"mysql_QUERY", some "5.5", some "7.0", none⟩ := ⟨[_], [], rfl, by decide, nofun⟩
  refine ⟨hrange, hadded, hgone, ?_, ?_⟩
  · apply ((htable.1 added hadded).2 1 .error).2
    refine ⟨_, _, rfl, by decide, by decide, hnamed, ⟨⟨5, 4, some 0⟩, by decide, ?_⟩, rfl⟩
    exact (VersionRange.reachesDown_iff hrange _).1 (by decide)
  · apply ((htable.2 gone hgone).2 5 .warning).2
    refine ⟨_, _, rfl, by decide, by decide, hlast, Or.inr ⟨?_, ?_, rfl⟩⟩
    · rintro ⟨_, v, ⟨⟩, hv, hafter⟩
      cases hremoved.symm.trans hv
      exact absurd ((VersionRange.reachesUp_iff hrange _).2 hafter) (by decide)
    · exact ⟨_, _, rfl, hdeprecated, (VersionRange.reachesUp_iff hrange _).1 (by decide)⟩

end Check

end Vintage
