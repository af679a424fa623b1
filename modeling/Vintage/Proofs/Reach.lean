import Vintage.Proofs.Histories
import Vintage.Proofs.RangeSyntax

/-!
# What a range reaches

Whether a range has versions at or before a version is answered by its lower bound alone, and
whether it has versions at or after one by its upper bound alone. These answers are right for every
range that can be made, since its bounds are in order: the first patch of the lower bound and the
last patch of the upper bound are members.

A verdict goes through the history of a feature once, from the earliest fact to the latest, and
keeps the last absence and the first deprecation in reach. Since an accepted history ascends
strictly, these are the greatest and the least of their versions, in whatever order the facts were
given; and a wider range has a greater choice of both.

Results:
* `VersionRange.reaches_iff_member`: what a range reaches is said by its members.
* `Feature.verdict?_foremost`: the verdict on a feature as the extremes of its history.
* `Feature.verdict?_of_within`: a wider range reports an absence that is no earlier, and a
  deprecation and a removal that are no later.
-/

namespace Vintage

/-! ## Ranges and their members -/

namespace VersionRange

/-- The range comes from bounds that are accepted, or from a text that is read. -/
def Accepted (r : VersionRange) : Prop :=
  (∃ low high, ofBounds low high = .ok r) ∨ ∃ text, parse text = .ok r

theorem Accepted.valid {r : VersionRange} (hr : r.Accepted) : r.Valid := by
  rcases hr with ⟨low, high, hbounds⟩ | ⟨text, htext⟩
  · exact valid_of_ofBounds hbounds
  · exact ofBounds_eq_ok_iff.2 ⟨rfl, (parse_eq_ok_iff.1 htext).2⟩

/-- A range that can be made reaches down to a version if and only if it contains a patched version
that is loosely at or before it, and reaches up to a version if and only if it contains one that is
loosely at or after it. -/
theorem reaches_iff_member {r : VersionRange} (hr : r.Accepted) (v : Version) :
    (r.reachesDown v = true ↔
      ∃ w : Version, w.IsPatched ∧ r.contains w = true ∧ w.compareLoose v ≠ .gt) ∧
    (r.reachesUp v = true ↔
      ∃ w : Version, w.IsPatched ∧ r.contains w = true ∧ w.compareLoose v ≠ .lt) := by
  refine ⟨reachesDown_iff hr.valid v, ?_⟩
  simp only [Version.compareLoose_ne_lt_iff]
  exact reachesUp_iff hr.valid v

/-- From `7.0.5` up to `7.0`: the range has no version at or before `7.0.3`, but some after it,
although its upper bound is level with `7.0.3`. -/
theorem reaches_iff_member_patched :
    let r : VersionRange := { low := some ⟨7, 0, some 5⟩, high := some ⟨7, 0, none⟩ }
    let v : Version := ⟨7, 0, some 3⟩
    r.Accepted ∧
      (¬ ∃ w : Version, w.IsPatched ∧ r.contains w = true ∧ w.compareLoose v ≠ .gt) ∧
      ∃ w : Version, w.IsPatched ∧ r.contains w = true ∧ w.compareLoose v ≠ .lt := by
  intro r v
  have hr : r.Accepted := Or.inr ⟨"7.0.5-7.0", by decide⟩
  obtain ⟨hdown, hup⟩ := reaches_iff_member hr v
  refine ⟨hr, fun hmember => ?_, hup.1 (by decide)⟩
  exact absurd (hdown.2 hmember) (by decide)

end VersionRange

/-! ## Extremes of a history -/

/-- `found` is a fact of the list with the property `p` such that no other one is beyond it; there
is none only if no fact has the property. -/
def Foremost (beyond : Version → Version → Prop) (facts : List Fact) (p : Fact → Prop) :
    (found : Option Fact) → Prop
  | some fact => fact ∈ facts ∧ p fact ∧
      ∀ other ∈ facts, p other → ¬ beyond other.version fact.version
  | none => ∀ fact ∈ facts, ¬ p fact

/-- `found` is the fact with the property that has the greatest version. -/
abbrev Latest : List Fact → (Fact → Prop) → Option Fact → Prop :=
  Foremost fun v w => w.compare v = .lt

/-- `found` is the fact with the property that has the least version. -/
abbrev Earliest : List Fact → (Fact → Prop) → Option Fact → Prop :=
  Foremost fun v w => v.compare w = .lt

namespace Foremost

variable {beyond : Version → Version → Prop} {facts facts' : List Fact} {p q : Fact → Prop}
  {found : Option Fact}

/-- Only the facts of the list count, not their order. -/
theorem of_mem_iff (hmem : ∀ fact, fact ∈ facts ↔ fact ∈ facts')
    (h : Foremost beyond facts p found) : Foremost beyond facts' p found := by
  cases found with
  | none => exact fun fact hfact => h fact ((hmem fact).2 hfact)
  | some fact =>
    obtain ⟨hfact, hp, hall⟩ := h
    exact ⟨(hmem fact).1 hfact, hp, fun other hother => hall other ((hmem other).2 hother)⟩

theorem eq_none_iff (h : Foremost beyond facts p found) :
    found = none ↔ ∀ fact ∈ facts, ¬ p fact := by
  cases found with
  | none => exact ⟨fun _ => h, fun _ => rfl⟩
  | some fact => exact ⟨nofun, fun hall => absurd h.2.1 (hall fact h.1)⟩

/-- Where more facts have the property, there is an extreme too, and the old one is not beyond
it. -/
theorem widen {status : Status} {o o' : Option Version} (hpq : ∀ fact, p fact → q fact)
    (h : Foremost beyond facts p (o.map (⟨·, status⟩)))
    (h' : Foremost beyond facts q (o'.map (⟨·, status⟩))) {v : Version} (hv : o = some v) :
    ∃ w, o' = some w ∧ ¬ beyond v w := by
  subst hv
  have hq := hpq _ h.2.1
  cases o' with
  | none => exact absurd hq (h' _ h.1)
  | some w => exact ⟨w, rfl, h'.2.2 _ h.1 hq⟩

/-- In a list that comes from beyond, the extreme is the first fact with the property. -/
theorem head?_filter (hasymm : ∀ {v w}, beyond v w → ¬ beyond w v) {accepts : Fact → Bool}
    (haccepts : ∀ fact, accepts fact = true ↔ p fact)
    (hsorted : facts.Pairwise fun a b => beyond a.version b.version) :
    Foremost beyond facts p (facts.filter accepts).head? := by
  cases hhead : (facts.filter accepts).head? with
  | none =>
    intro fact hfact hp
    rw [List.head?_eq_none_iff, List.filter_eq_nil_iff] at hhead
    exact hhead fact hfact ((haccepts fact).2 hp)
  | some fact =>
    obtain ⟨rest, hrest⟩ := List.head?_eq_some_iff.1 hhead
    have hmem := List.mem_filter.1 (List.mem_of_mem_head? hhead)
    refine ⟨hmem.1, (haccepts fact).1 hmem.2, fun other hother hp hbeyond => ?_⟩
    have hfilter : other ∈ facts.filter accepts :=
      List.mem_filter.2 ⟨hother, (haccepts other).2 hp⟩
    have hpairs := hsorted.filter accepts
    rw [hrest] at hfilter hpairs
    rcases List.mem_cons.1 hfilter with rfl | hlater
    · exact hasymm hbeyond hbeyond
    · exact hasymm (List.rel_of_pairwise_cons hpairs hlater) hbeyond

end Foremost

/-! ## Verdicts -/

namespace Fact

/-- The fact is such a turn, and the range reaches it. -/
abbrev IsTurn (turn : Turn) (range : VersionRange) (fact : Fact) : Prop :=
  fact.isTurn turn range = true

/-- The range reaches the fact, and the fact is worth reporting. -/
def IsReached (range : VersionRange) (fact : Fact) : Prop := ∃ turn, fact.IsTurn turn range

end Fact

section Turns

variable {facts : List Fact} (hasc : Feature.Ascending facts) (turn : Turn) (range : VersionRange)
include hasc

/-- The first turn of an ascending history is the earliest. -/
theorem earliest_turns :
    Earliest facts (Fact.IsTurn turn range) (Verdict.turns turn range facts).head? :=
  Foremost.head?_filter Version.compare_lt_asymm (fun _ => Iff.rfl) hasc

/-- The last turn of an ascending history is the latest. -/
theorem latest_turns :
    Latest facts (Fact.IsTurn turn range) (Verdict.turns turn range facts).getLast? := by
  rw [Verdict.turns, ← List.head?_reverse, ← List.filter_reverse]
  have hreverse : Latest facts.reverse (Fact.IsTurn turn range)
      (facts.reverse.filter (Fact.isTurn turn range)).head? :=
    Foremost.head?_filter Version.compare_lt_asymm (fun _ => Iff.rfl) (List.pairwise_reverse.2 hasc)
  exact hreverse.of_mem_iff fun fact => List.mem_reverse

end Turns

/-- A fact is its version and its status. -/
theorem map_mk_version {status : Status} {found : Option Fact}
    (h : ∀ fact, found = some fact → fact.status = status) :
    (found.map Fact.version).map (⟨·, status⟩) = found := by
  cases found with
  | none => rfl
  | some fact => rw [Option.map_some, Option.map_some, ← h fact rfl]

/-- A fact about some builds is its version and its option. -/
theorem map_bind_condition? {found : Option Fact}
    (h : ∀ fact, found = some fact → fact.condition?.isSome = true) :
    (found.bind Fact.condition?).map (fun c => ⟨c.1, .conditional c.2⟩) = found := by
  cases found with
  | none => rfl
  | some fact =>
    obtain ⟨c, hc⟩ := Option.isSome_iff_exists.1 (h fact rfl)
    rw [Option.bind_some, hc, Option.map_some, Fact.condition?_eq_some_iff.1 hc]

/-- The verdict names of the facts in reach the latest absence, the latest need of an option unless
there is an absence, the earliest deprecation and the earliest removal. -/
structure Verdict.Extremes (verdict : Verdict) (facts : List Fact) (range : VersionRange) :
    Prop where
  absent : Latest facts (Fact.IsTurn .absence range) (verdict.absentIn.map (⟨·, .absent⟩))
  conditional : verdict.absentIn = none →
    Latest facts (Fact.IsTurn .condition range)
      (verdict.conditionalIn.map fun c => ⟨c.1, .conditional c.2⟩)
  unconditional : verdict.absentIn ≠ none → verdict.conditionalIn = none
  deprecated : Earliest facts (Fact.IsTurn .deprecation range)
    (verdict.deprecatedIn.map (⟨·, .deprecated⟩))
  removed : Earliest facts (Fact.IsTurn .removal range) (verdict.removedIn.map (⟨·, .removed⟩))

namespace Feature

/-- What is read off an ascending history are its extremes. -/
theorem extremes_reading {f : Feature} (hasc : Ascending f.facts) (range : VersionRange) :
    (f.reading range).Extremes f.facts range where
  absent := by
    rw [absentIn_reading, map_mk_version fun fact hlast =>
      Verdict.status_of_mem_turns Turn.takes_absence (List.mem_of_getLast? hlast)]
    exact latest_turns hasc .absence range
  conditional habsent := by
    rw [conditionalIn_reading, habsent, Option.isSome_none, if_neg Bool.false_ne_true,
      map_bind_condition? fun fact hlast =>
        Fact.isSome_condition? (Verdict.mem_turns.1 (List.mem_of_getLast? hlast)).2]
    exact latest_turns hasc .condition range
  unconditional habsent := by
    rw [conditionalIn_reading, if_pos (Option.isSome_iff_ne_none.2 habsent)]
  deprecated := by
    rw [deprecatedIn_reading, map_mk_version fun fact hhead =>
      Verdict.status_of_mem_turns Turn.takes_deprecation (List.mem_of_mem_head? hhead)]
    exact earliest_turns hasc .deprecation range
  removed := by
    rw [removedIn_reading, map_mk_version fun fact hhead =>
      Verdict.status_of_mem_turns Turn.takes_removal (List.mem_of_mem_head? hhead)]
    exact earliest_turns hasc .removal range

theorem isEmpty_iff_of_extremes {verdict : Verdict} {facts : List Fact} {range : VersionRange}
    (h : verdict.Extremes facts range) :
    verdict.isEmpty = true ↔ ∀ fact ∈ facts, ¬ fact.IsReached range := by
  have habsent := h.absent.eq_none_iff
  have hdeprecated := h.deprecated.eq_none_iff
  have hremoved := h.removed.eq_none_iff
  have hconditional (hnone : verdict.absentIn = none) := (h.conditional hnone).eq_none_iff
  simp only [Option.map_eq_none_iff] at habsent hdeprecated hremoved hconditional
  simp only [Verdict.isEmpty, Bool.and_eq_true, Option.isNone_iff_eq_none, Fact.IsReached,
    not_exists]
  constructor
  · rintro ⟨⟨⟨ha, hc⟩, hd⟩, hr⟩ fact hfact turn
    cases turn with
    | absence => exact habsent.1 ha fact hfact
    | condition => exact (hconditional ha).1 hc fact hfact
    | deprecation => exact hdeprecated.1 hd fact hfact
    | removal => exact hremoved.1 hr fact hfact
  · intro hall
    have ha := habsent.2 fun fact hfact => hall fact hfact .absence
    exact ⟨⟨⟨ha, (hconditional ha).2 fun fact hfact => hall fact hfact .condition⟩,
      hdeprecated.2 fun fact hfact => hall fact hfact .deprecation⟩,
      hremoved.2 fun fact hfact => hall fact hfact .removal⟩

theorem verdict?_eq_none_iff (f : Feature) (range : VersionRange) :
    f.verdict? range = none ↔ (f.reading range).isEmpty = true := by
  rw [verdict?_eq]
  cases (f.reading range).isEmpty <;> simp

theorem isEmpty_of_verdict? {f : Feature} {range : VersionRange} {v : Verdict}
    (h : f.verdict? range = some v) : v.isEmpty = false := by
  rw [eq_reading_of_verdict? h, Bool.eq_false_iff, Ne, ← verdict?_eq_none_iff, h]
  exact nofun

/-- The history of an accepted feature has the facts of its description in ascending order. -/
theorem facts_of_ofEntries {name : String} {entries : List Entry} {f : Feature}
    (hf : ofEntries name entries = .ok f) :
    f.facts = sortFacts (entries.filterMap Entry.fact?) := by
  obtain ⟨-, -, -, -, rfl⟩ := ofDraft_eq_ok_iff.1 hf
  rw [Draft.facts_foldl_add, List.nil_append]

/-- Descriptions that record the same facts in any order give the same history. -/
theorem facts_eq_of_perm {name name' : String} {entries entries' : List Entry} {f f' : Feature}
    (hf : ofEntries name entries = .ok f) (hf' : ofEntries name' entries' = .ok f')
    (hperm : (entries'.filterMap Entry.fact?).Perm (entries.filterMap Entry.fact?)) :
    f'.facts = f.facts := by
  have hasc := facts_ascending hf
  rw [facts_of_ofEntries hf] at hasc ⊢
  rw [facts_of_ofEntries hf']
  exact sortFacts_eq_of_perm (hperm.trans (List.mergeSort_perm _ _).symm) hasc

/-- The verdict on an accepted feature names the extremes of its history: the latest absence that
the range reaches down to, the latest need of an option if there is no absence, and the earliest
deprecation and removal that the range reaches up to. There is no verdict if and only if the range
reaches none of these. The history has just the facts that were given, and neither their order nor
anything else in the description has a say. -/
theorem verdict?_foremost {name : String} {entries : List Entry} {f : Feature}
    (hf : ofEntries name entries = .ok f) (range : VersionRange) :
    f.facts.Perm (entries.filterMap Entry.fact?) ∧
      (∀ verdict, f.verdict? range = some verdict → verdict.Extremes f.facts range) ∧
      (f.verdict? range = none ↔ ∀ fact ∈ f.facts, ¬ fact.IsReached range) ∧
      ∀ name' entries' f', ofEntries name' entries' = .ok f' →
        (entries'.filterMap Entry.fact?).Perm (entries.filterMap Entry.fact?) →
        f'.verdict? range = f.verdict? range := by
  have hextremes := extremes_reading (facts_ascending hf) range
  refine ⟨?_, fun verdict hverdict => ?_, ?_, fun name' entries' f' hf' hperm => ?_⟩
  · rw [facts_of_ofEntries hf]
    exact List.mergeSort_perm _ _
  · rw [eq_reading_of_verdict? hverdict]
    exact hextremes
  · rw [verdict?_eq_none_iff, isEmpty_iff_of_extremes hextremes]
  · rw [verdict?, verdict?, facts_eq_of_perm hf hf' hperm]

/-- A history given in no order, and in order with an alternative and a description. From `5.4.2` up
to `5.5` the latest absence is that of `5.4`, which takes the place of the option, and the first
deprecation counts. From `5.5` up to `5.5.0` nothing is in reach. -/
theorem verdict?_foremost_unordered :
    let entries : List Entry :=
      [.fact "7.0" .deprecated, .fact "5.4" .absent, .fact "5.4.3" (.conditional "--with-x"),
        .fact "5.5.1" .deprecated, .fact "5.3" .absent]
    let entries' : List Entry :=
      [.alternative "g", .fact "5.3" .absent, .fact "5.4" .absent,
        .fact "5.4.3" (.conditional "--with-x"), .fact "5.5.1" .deprecated, .fact "7.0" .deprecated,
        .description "a function"]
    let facts : List Fact :=
      [⟨⟨5, 3, none⟩, .absent⟩, ⟨⟨5, 4, none⟩, .absent⟩,
        ⟨⟨5, 4, some 3⟩, .conditional "--with-x"⟩, ⟨⟨5, 5, some 1⟩, .deprecated⟩,
        ⟨⟨7, 0, none⟩, .deprecated⟩]
    let f : Feature := { name := "f", facts }
    let f' : Feature :=
      { name := "g", facts, alternative := some "g", description := some "a function" }
    let range : VersionRange := { low := some ⟨5, 4, some 2⟩, high := some ⟨5, 5, none⟩ }
    let verdict : Verdict :=
      { absentIn := some ⟨5, 4, none⟩, deprecatedIn := some ⟨5, 5, some 1⟩ }
    ofEntries "f" entries = .ok f ∧ ofEntries "g" entries' = .ok f' ∧
      verdict.Extremes facts range ∧ f'.verdict? range = some verdict ∧
      ∀ fact ∈ facts, ¬ fact.IsReached ⟨some ⟨5, 5, none⟩, some ⟨5, 5, some 0⟩⟩ := by
  intro entries entries' facts f f' range verdict
  have hf : ofEntries "f" entries = .ok f :=
    ofDraft_eq_ok_of_perm rfl (by decide) (by decide) (by decide) (by decide)
  have hf' : ofEntries "g" entries' = .ok f' :=
    ofDraft_eq_ok_of_perm rfl (by decide) (by decide) (by decide) (by decide)
  have hverdict : f.verdict? range = some verdict := by decide
  obtain ⟨-, hextremes, -, hsame⟩ := verdict?_foremost hf range
  refine ⟨hf, hf', hextremes verdict hverdict, ?_, ?_⟩
  · rw [hsame "g" entries' f' hf' (by decide), hverdict]
  · exact (verdict?_foremost hf _).2.2.1.1 (by decide)

end Feature

/-! ## Wider ranges -/

/-- A range is within another one if the first patch of its lower bound and the last patch of its
upper bound are. -/
theorem VersionRange.within_of_bounds {r s : VersionRange}
    (hlow : ∀ l', s.low = some l' → ∃ l, r.low = some l ∧ l'.compareLoose (l.withPatch 0) ≠ .gt)
    (hhigh : ∀ h', s.high = some h' →
      ∃ h, r.high = some h ∧ (h.withPatch 65535).compareLoose h' ≠ .gt) : r.Within s := by
  intro w _ hc
  rw [contains_iff, reachesDown_iff_low, reachesUp_iff_high] at hc ⊢
  constructor
  · intro l' hl'
    obtain ⟨l, hl, hle⟩ := hlow l' hl'
    exact Version.AtMost.trans_patched hle (hc.1 l hl).first_patch (l.withPatch_isPatched 0)
  · intro h' hh'
    obtain ⟨h, hh, hle⟩ := hhigh h' hh'
    exact (hc.2 h hh).last_patch.trans_patched hle (h.withPatch_isPatched 65535)

theorem Severity.le_trans {s t u : Severity} (hst : s.le t = true) (htu : t.le u = true) :
    s.le u = true := by
  cases s with
  | warning => rfl
  | error =>
    obtain rfl : t = .error := eq_of_beq hst
    exact htu

namespace Verdict

/-- The severity of a verdict is that of one of its parts. -/
theorem severity?_cases {v : Verdict} {s : Severity} (h : v.severity? = some s) :
    v.introductionSeverity? = some s ∨ v.withdrawalSeverity? = some s := by
  rw [severity?] at h
  cases hi : v.introductionSeverity? with
  | none =>
    rw [hi] at h
    exact Or.inr h
  | some a =>
    cases hw : v.withdrawalSeverity? with
    | none =>
      rw [hi, hw] at h
      exact Or.inl h
    | some b =>
      rw [hi, hw] at h
      -- the greater of two severities is the second one, or an error as the first
      cases a with
      | warning => exact Or.inr h
      | error => exact Or.inl h

theorem introduction_le_severity? {v : Verdict} {s : Severity}
    (h : v.introductionSeverity? = some s) : ∃ t, v.severity? = some t ∧ s.le t = true := by
  unfold severity?
  rw [h]
  cases v.withdrawalSeverity? with
  | none => exact ⟨s, rfl, Finding.le_refl s⟩
  | some b => exact ⟨s.max b, rfl, by cases s <;> rfl⟩

theorem withdrawal_le_severity? {v : Verdict} {s : Severity}
    (h : v.withdrawalSeverity? = some s) : ∃ t, v.severity? = some t ∧ s.le t = true := by
  unfold severity?
  rw [h]
  cases v.introductionSeverity? with
  | none => exact ⟨s, rfl, Finding.le_refl s⟩
  | some a => exact ⟨a.max s, rfl, by cases a <;> cases s <;> rfl⟩

/-- A verdict that reports more is at least as bad as a whole. -/
theorem ReportedBy.severity? {v w : Verdict} (h : v.ReportedBy w) {s : Severity}
    (hs : v.severity? = some s) : ∃ t, w.severity? = some t ∧ s.le t = true := by
  rcases severity?_cases hs with hi | hw
  · obtain ⟨a, ha, hsa⟩ := h.introductionSeverity? hi
    obtain ⟨t, ht, hat⟩ := introduction_le_severity? ha
    exact ⟨t, ht, Severity.le_trans hsa hat⟩
  · obtain ⟨a, ha, hsa⟩ := h.withdrawalSeverity? hw
    obtain ⟨t, ht, hat⟩ := withdrawal_le_severity? ha
    exact ⟨t, ht, Severity.le_trans hsa hat⟩

theorem introductionSeverity?_eq_none_iff {v : Verdict} :
    v.introductionSeverity? = none ↔ v.absentIn = none ∧ v.conditionalIn = none := by
  rw [introductionSeverity?]
  cases v.absentIn <;> cases v.conditionalIn <;> simp

theorem withdrawalSeverity?_eq_none_iff {v : Verdict} :
    v.withdrawalSeverity? = none ↔ v.deprecatedIn = none ∧ v.removedIn = none := by
  rw [withdrawalSeverity?]
  cases v.deprecatedIn <;> cases v.removedIn <;> simp

/-- A verdict with anything in it has a severity. -/
theorem exists_severity? {v : Verdict} (h : v.isEmpty = false) : ∃ s, v.severity? = some s := by
  cases hi : v.introductionSeverity? with
  | some s =>
    obtain ⟨t, ht, -⟩ := introduction_le_severity? hi
    exact ⟨t, ht⟩
  | none =>
    cases hw : v.withdrawalSeverity? with
    | some s =>
      obtain ⟨t, ht, -⟩ := withdrawal_le_severity? hw
      exact ⟨t, ht⟩
    | none =>
      obtain ⟨habsent, hconditional⟩ := introductionSeverity?_eq_none_iff.1 hi
      obtain ⟨hdeprecated, hremoved⟩ := withdrawalSeverity?_eq_none_iff.1 hw
      rw [isEmpty, habsent, hconditional, hdeprecated, hremoved] at h
      cases h

end Verdict

namespace Feature

/-- If a range has all patched versions of another one, then it has a verdict wherever the other one
has. The verdict is at least as bad; an absence is there too and is not earlier, and a deprecation
or a removal is there too and is not later. -/
theorem verdict?_of_within {name : String} {entries : List Entry} {f : Feature}
    (hf : ofEntries name entries = .ok f) {r s : VersionRange} (hr : r.Accepted) (h : r.Within s)
    {v : Verdict} (hv : f.verdict? r = some v) :
    ∃ w, f.verdict? s = some w ∧
      (∃ a b, v.severity? = some a ∧ w.severity? = some b ∧ a.le b = true) ∧
      (∀ a, v.absentIn = some a → ∃ b, w.absentIn = some b ∧ b.compare a ≠ .lt) ∧
      (∀ a, v.deprecatedIn = some a → ∃ b, w.deprecatedIn = some b ∧ b.compare a ≠ .gt) ∧
      ∀ a, v.removedIn = some a → ∃ b, w.removedIn = some b ∧ b.compare a ≠ .gt := by
  obtain ⟨w, hw, hreported⟩ := f.verdict?_mono h hr.valid hv
  have hextremes := extremes_reading (facts_ascending hf) r
  have hextremes' := extremes_reading (facts_ascending hf) s
  rw [← eq_reading_of_verdict? hv] at hextremes
  rw [← eq_reading_of_verdict? hw] at hextremes'
  refine ⟨w, hw, ?_, fun a ha => ?_, fun a ha => ?_, fun a ha => ?_⟩
  · obtain ⟨a, ha⟩ := Verdict.exists_severity? (isEmpty_of_verdict? hv)
    obtain ⟨b, hb, hab⟩ := hreported.severity? ha
    exact ⟨a, b, ha, hb, hab⟩
  · exact hextremes.absent.widen (fun _ => Fact.isTurn_mono h hr.valid)
      hextremes'.absent ha
  · simp only [Ne, Version.compare_eq_gt_iff]
    exact hextremes.deprecated.widen (fun _ => Fact.isTurn_mono h hr.valid)
      hextremes'.deprecated ha
  · simp only [Ne, Version.compare_eq_gt_iff]
    exact hextremes.removed.widen (fun _ => Fact.isTurn_mono h hr.valid)
      hextremes'.removed ha

/-- From `5.4` up to `7.0.3` there is an option to warn of and a deprecation. The range from `5.3.9`
up to `7.1` has these versions too, but reaches an absence, in the place of the option, and a
removal. -/
theorem verdict?_of_within_patched :
    let f : Feature :=
      { name := "f"
        facts := [⟨⟨5, 3, none⟩, .absent⟩, ⟨⟨5, 4, some 2⟩, .conditional "--with-x"⟩,
          ⟨⟨7, 0, some 3⟩, .deprecated⟩, ⟨⟨7, 1, some 4⟩, .removed⟩] }
    let r : VersionRange := ⟨some ⟨5, 4, none⟩, some ⟨7, 0, some 3⟩⟩
    let s : VersionRange := ⟨some ⟨5, 3, some 9⟩, some ⟨7, 1, none⟩⟩
    let v : Verdict :=
      { conditionalIn := some (⟨5, 4, some 2⟩, "--with-x"), deprecatedIn := some ⟨7, 0, some 3⟩ }
    ofEntries "f" [.fact "5.3" .absent, .fact "5.4.2" (.conditional "--with-x"),
        .fact "7.0.3" .deprecated, .fact "7.1.4" .removed] = .ok f ∧
      r.Accepted ∧ r.Within s ∧ f.verdict? r = some v ∧ v.severity? = some .warning ∧
      ∃ w, f.verdict? s = some w ∧
        (∃ a b, v.severity? = some a ∧ w.severity? = some b ∧ a.le b = true) ∧
        (∃ b, w.deprecatedIn = some b ∧ b.compare ⟨7, 0, some 3⟩ ≠ .gt) ∧
        w = { absentIn := some ⟨5, 3, none⟩, deprecatedIn := some ⟨7, 0, some 3⟩,
              removedIn := some ⟨7, 1, some 4⟩ } := by
  intro f r s v
  have hf : ofEntries "f" [.fact "5.3" .absent, .fact "5.4.2" (.conditional "--with-x"),
      .fact "7.0.3" .deprecated, .fact "7.1.4" .removed] = .ok f :=
    ofDraft_eq_ok_of_perm rfl (by decide) (by decide) (by decide) (by decide)
  have hr : r.Accepted := Or.inr ⟨"5.4-7.0.3", by decide⟩
  have h : r.Within s := by
    refine VersionRange.within_of_bounds ?_ ?_
    · rintro _ ⟨⟩
      exact ⟨_, rfl, by decide⟩
    · rintro _ ⟨⟩
      exact ⟨_, rfl, by decide⟩
  have hv : f.verdict? r = some v := by decide
  obtain ⟨w, hw, hseverity, -, hdeprecated, -⟩ := verdict?_of_within hf hr h hv
  refine ⟨hf, hr, h, hv, by decide, w, hw, hseverity, hdeprecated _ rfl, ?_⟩
  exact Option.some.inj (hw.symm.trans (by decide))

end Feature

end Vintage
