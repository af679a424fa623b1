import Vintage.Proofs.Histories
import Vintage.Proofs.Templates

/-!
# The order of the versions in a message

If a range reaches both a deprecation and a removal of a feature, the message names the version of
the deprecation first. Both are the first of their kind in the history, whatever the range is, so
the message follows the history if and only if the history has a deprecation before all removals.
A removal before all deprecations is accepted, and is then told the wrong way round.

Results:
* `VersionRange.reachesUp_of_lt`: a range that reaches up to a version reaches up to those before.
* `Feature.deprecatedIn_isFirst`, `Feature.removedIn_isFirst`: a verdict names the first deprecation
  and the first removal of the history.
* `Wording.withdrawal?_message`: the message for a feature that was deprecated and removed.
* `Feature.deprecated_before_removed_iff`: when the two versions stand in order.
-/

namespace Vintage

/-! ## First facts -/

/-- What is strictly before a version is loosely before whatever that version is loosely before. -/
theorem Version.AtMost.of_lt {v w h : Version} (hw : w.AtMost h) (hlt : v.compare w = .lt) :
    v.AtMost h := by
  rw [Version.atMost_iff] at *
  rw [Version.compare_eq_lt_iff] at hlt
  rcases hlt with hmajor | ⟨hmajor, hminor | ⟨hminor, hpatch⟩⟩
  · simp only [Version.key] at hmajor
    exact Or.inl (by omega)
  · simp only [Version.key] at hmajor hminor
    rcases hw with hw | ⟨hw, hw' | ⟨hw', -⟩⟩
    · exact Or.inl (by omega)
    · exact Or.inr ⟨by omega, Or.inl (by omega)⟩
    · exact Or.inr ⟨by omega, Or.inl (by omega)⟩
  · simp only [Version.key] at hmajor hminor hpatch
    rw [hmajor, hminor]
    refine hw.imp_right (And.imp_right (Or.imp_right (And.imp_right ?_)))
    intro hle p q hp hq
    -- a version without a patch counts as the first of its release, so `w` has one
    cases hwp : w.patch with
    | none =>
      rw [hwp] at hpatch
      exact absurd hpatch (Nat.not_lt_zero _)
    | some p' =>
      have hq' := hle p' q hwp hq
      rw [hp, hwp, Option.getD_some, Option.getD_some] at hpatch
      omega

theorem VersionRange.reachesUp_of_lt {range : VersionRange} {v w : Version}
    (h : range.reachesUp w = true) (hlt : v.compare w = .lt) : range.reachesUp v = true := by
  rw [reachesUp_iff_high] at *
  exact fun high hhigh => (h high hhigh).of_lt hlt

namespace Feature

/-- `v` is the first version of the facts that has the status. -/
structure IsFirst (facts : List Fact) (status : Status) (v : Version) : Prop where
  mem : ⟨v, status⟩ ∈ facts
  least : ∀ fact ∈ facts, fact.status = status → ¬ fact.version.compare v = .lt

/-- The first fact of a status that the range reaches up to is the first one at all: if the range
reached up to a later one only, it would reach up to the first one too. -/
theorem isFirst_of_head? {range : VersionRange} {turn : Turn} {status : Status}
    (htakes : ∀ s, turn.takes s = true ↔ s = status)
    (hreached : ∀ v, turn.isReached range v = range.reachesUp v) {facts : List Fact}
    (hasc : Ascending facts) {v : Version}
    (h : (Verdict.turns turn range facts).head?.map Fact.version = some v) :
    IsFirst facts status v := by
  have hturn {fact : Fact} : fact.isTurn turn range = true ↔
      fact.status = status ∧ range.reachesUp fact.version = true := by
    rw [Fact.isTurn_iff, htakes, hreached]
  obtain ⟨first, hhead, rfl⟩ := Option.map_eq_some_iff.1 h
  induction facts with
  | nil => cases hhead
  | cons a facts ih =>
    by_cases ha : a.isTurn turn range = true
    · rw [Verdict.turns, List.filter_cons_of_pos ha, List.head?_cons, Option.some.injEq] at hhead
      subst hhead
      obtain ⟨rfl, -⟩ := hturn.1 ha
      refine ⟨List.mem_cons_self, fun b hb _ => ?_⟩
      rcases List.mem_cons.1 hb with rfl | hb
      · simp [Version.compare_eq_lt_iff]
      · exact Version.compare_lt_asymm (List.rel_of_pairwise_cons hasc hb)
    · rw [Verdict.turns, List.filter_cons_of_neg ha] at hhead
      have hfirst := ih hasc.of_cons hhead (congrArg _ hhead)
      refine ⟨List.mem_cons_of_mem _ hfirst.mem, fun b hb hstatus => ?_⟩
      rcases List.mem_cons.1 hb with rfl | hb
      · have hreach := (hturn.1 (Verdict.mem_turns.1 (List.mem_of_mem_head? hhead)).2).2
        intro hlt
        exact ha (hturn.2 ⟨hstatus, VersionRange.reachesUp_of_lt hreach hlt⟩)
      · exact hfirst.least b hb hstatus

section Verdict

variable {name : String} {entries : List Entry} {f : Feature} (hf : ofEntries name entries = .ok f)
  {range : VersionRange} {verdict : Verdict} (hverdict : f.verdict? range = some verdict)
include hf hverdict

/-- A verdict names the first deprecation of the history, if the range reaches up to any. -/
theorem deprecatedIn_isFirst {d : Version} (h : verdict.deprecatedIn = some d) :
    IsFirst f.facts .deprecated d := by
  rw [eq_reading_of_verdict? hverdict, deprecatedIn_reading] at h
  exact isFirst_of_head? Turn.takes_deprecation (fun _ => rfl) (facts_ascending hf) h

/-- A verdict names the first removal of the history, if the range reaches up to any. -/
theorem removedIn_isFirst {r : Version} (h : verdict.removedIn = some r) :
    IsFirst f.facts .removed r := by
  rw [eq_reading_of_verdict? hverdict, removedIn_reading] at h
  exact isFirst_of_head? Turn.takes_removal (fun _ => rfl) (facts_ascending hf) h

end Verdict

/-- The history has a deprecation that is before all removals. -/
def DeprecatedFirst (f : Feature) : Prop :=
  ∃ a ∈ f.facts, a.status = .deprecated ∧
    ∀ b ∈ f.facts, b.status = .removed → a.version.compare b.version = .lt

/-- The first deprecation is before the first removal if it is before all of them. -/
theorem IsFirst.lt_iff {f : Feature} {d r : Version} (hd : IsFirst f.facts .deprecated d)
    (hr : IsFirst f.facts .removed r) : d.compare r = .lt ↔ f.DeprecatedFirst := by
  constructor
  · intro hlt
    refine ⟨⟨d, .deprecated⟩, hd.mem, rfl, fun b hb hstatus => ?_⟩
    exact Version.compare_lt_of_lt_of_not_lt hlt (hr.least b hb hstatus)
  · rintro ⟨a, ha, hstatus, hall⟩
    exact Version.compare_lt_of_not_lt_of_lt (hd.least a ha hstatus) (hall _ hr.mem rfl)

/-- The two versions are different: they are those of two facts. -/
theorem IsFirst.gt_iff {f : Feature} (hasc : Ascending f.facts) {d r : Version}
    (hd : IsFirst f.facts .deprecated d) (hr : IsFirst f.facts .removed r) :
    r.compare d = .lt ↔ ¬ f.DeprecatedFirst := by
  have happart : d.compare r = .lt ∨ r.compare d = .lt :=
    lt_or_gt_of_mem hasc hd.mem hr.mem (by simp)
  rw [← hd.lt_iff hr]
  constructor
  · exact Version.compare_lt_asymm
  · exact happart.resolve_left

end Feature

/-! ## Messages -/

namespace Wording

/-- The message for a feature that was deprecated and removed names the version of the deprecation
first. -/
theorem withdrawal?_message {w : Wording} {before after : String} (hw : w.Marked before after)
    {v : Verdict} {d r : Version} (hd : v.deprecatedIn = some d) (hr : v.removedIn = some r)
    (place : Place) (base display : String) (alternative : Option String) :
    ∃ finding, w.withdrawal? place base display alternative v = some finding ∧
      finding.message = before ++ display ++ after ++ " is deprecated since PHP " ++ d.text ++
        " and removed since PHP " ++ r.text ++
        (alternative.elim "" fun text => "; Use " ++ text ++ " instead") := by
  have hwithdrawal : v.isWithdrawal = true := by simp [Verdict.isWithdrawal, hr]
  rw [withdrawal?_eq_gone? hw, Verdict.gone?, if_pos hwithdrawal]
  have hlosses : v.losses =
      [("deprecated since PHP ", d.text), ("removed since PHP ", r.text)] := by
    simp [Verdict.losses, hd, hr]
  refine ⟨_, rfl, ?_⟩
  have hdeprecated : " is deprecated since PHP " = " is " ++ "deprecated since PHP " := by decide
  have hremoved : " and removed since PHP " = " and " ++ "removed since PHP " := by decide
  rw [hdeprecated, hremoved]
  simp only [hlosses, List.map_cons, List.map_nil, Text.joinWith, String.append_assoc]

end Wording

/-! ## Deprecation and removal -/

namespace Feature

/-- If a verdict on an accepted feature names a deprecation and a removal, the message names the
deprecation first. The version of the deprecation is before that of the removal if the history has a
deprecation before all removals, and after it if not. -/
theorem deprecated_before_removed_iff {name : String} {entries : List Entry} {f : Feature}
    (hf : ofEntries name entries = .ok f) {range : VersionRange} {verdict : Verdict}
    (hverdict : f.verdict? range = some verdict) {d r : Version}
    (hd : verdict.deprecatedIn = some d) (hr : verdict.removedIn = some r) :
    (d.compare r = .lt ↔ f.DeprecatedFirst) ∧ (r.compare d = .lt ↔ ¬ f.DeprecatedFirst) ∧
      ∀ (w : Wording) (before after : String), w.Marked before after →
        ∀ (place : Place) (base display : String) (alternative : Option String),
          ∃ finding, w.withdrawal? place base display alternative verdict = some finding ∧
            finding.message = before ++ display ++ after ++ " is deprecated since PHP " ++ d.text ++
              " and removed since PHP " ++ r.text ++
              (alternative.elim "" fun text => "; Use " ++ text ++ " instead") := by
  have hfirst := deprecatedIn_isFirst hf hverdict hd
  have hfirst' := removedIn_isFirst hf hverdict hr
  refine ⟨hfirst.lt_iff hfirst', hfirst.gt_iff (facts_ascending hf) hfirst', ?_⟩
  intro w before after hw place base display alternative
  exact Wording.withdrawal?_message hw hd hr place base display alternative

/-- A history with a second deprecation after the removal, its facts given in no order. -/
theorem deprecated_before_removed_iff_twice :
    let entries : List Entry :=
      [.fact "7.0" .deprecated, .fact "5.4" .removed, .fact "5.3.0" .deprecated]
    let f : Feature :=
      { name := "f"
        facts := [⟨⟨5, 3, some 0⟩, .deprecated⟩, ⟨⟨5, 4, none⟩, .removed⟩,
          ⟨⟨7, 0, none⟩, .deprecated⟩] }
    let d : Version := ⟨5, 3, some 0⟩
    let r : Version := ⟨5, 4, none⟩
    let verdict : Verdict := { deprecatedIn := some d, removedIn := some r }
    let w : Wording := ⟨"Function %s()"⟩
    ofEntries "f" entries = .ok f ∧ f.verdict? ⟨none, some ⟨5, 4, some 2⟩⟩ = some verdict ∧
      w.Marked "Function " "()" ∧ f.DeprecatedFirst ∧
      ∃ finding, w.withdrawal? ⟨0, 1, 1⟩ "f" "f" (some "g") verdict = some finding ∧
        finding.message = "Function " ++ "f" ++ "()" ++ " is deprecated since PHP " ++ d.text ++
          " and removed since PHP " ++ r.text ++ ("; Use " ++ "g" ++ " instead") := by
  intro entries f d r verdict w
  have hf : ofEntries "f" entries = .ok f :=
    ofDraft_eq_ok_of_perm rfl (by decide) (by decide) (by decide) (by decide)
  have hverdict : f.verdict? ⟨none, some ⟨5, 4, some 2⟩⟩ = some verdict := by decide
  have hw : w.Marked "Function " "()" :=
    ⟨by decide, Template.plain_of_not_mem (by simp), Template.plain_of_not_mem (by simp)⟩
  obtain ⟨hlt, -, hmessage⟩ := deprecated_before_removed_iff hf hverdict rfl rfl
  exact ⟨hf, hverdict, hw, hlt.1 (by decide), hmessage w _ _ hw ⟨0, 1, 1⟩ "f" "f" (some "g")⟩

/-- A deprecation after the removal is accepted. The message then names the later version first. -/
theorem deprecated_after_removed :
    let f : Feature :=
      { name := "f"
        facts := [⟨⟨5, 3, none⟩, .removed⟩, ⟨⟨5, 4, none⟩, .deprecated⟩] }
    let d : Version := ⟨5, 4, none⟩
    let r : Version := ⟨5, 3, none⟩
    let verdict : Verdict := { deprecatedIn := some d, removedIn := some r }
    ofEntries "f" [.fact "5.3" .removed, .fact "5.4" .deprecated] = .ok f ∧
      f.verdict? .all = some verdict ∧ ¬ d.compare r = .lt ∧
      ∃ finding, Wording.withdrawal? ⟨"%s"⟩ ⟨0, 1, 1⟩ "f" "f" none verdict = some finding ∧
        finding.message = "f" ++ " is deprecated since PHP " ++ "5.4" ++
          " and removed since PHP " ++ "5.3" := by
  intro f d r verdict
  have hf : ofEntries "f" [.fact "5.3" .removed, .fact "5.4" .deprecated] = .ok f :=
    ofDraft_eq_ok_of_perm rfl (by decide) (by decide) (by decide) (by decide)
  have hw : (Wording.mk "%s").Marked "" "" :=
    ⟨by decide, Template.plain_of_not_mem (by simp), Template.plain_of_not_mem (by simp)⟩
  have hd : d.text = "5.4" := by decide
  have hr : r.text = "5.3" := by decide
  obtain ⟨finding, hfinding, hmessage⟩ :=
    Wording.withdrawal?_message hw (v := verdict) rfl rfl ⟨0, 1, 1⟩ "f" "f" none
  refine ⟨hf, by decide, by decide, finding, hfinding, ?_⟩
  rw [hmessage, hd, hr]
  simp

end Feature

end Vintage
