import Mathlib.Data.List.Pairwise
import Vintage.Proofs.BlankItems
import Vintage.Proofs.Widening

/-!
# Accepted histories

The facts of a feature are accepted if no two of them are about the same version and the feature
does not return after a removal. They are then kept in strictly ascending order. What a range
reaches of a history is said by the facts alone, without their order.

Results:
* `Feature.ofDraft_eq_ok_iff`: the descriptions that are accepted, and the features they give.
* `Feature.facts_ascending`: the facts of an accepted feature ascend strictly.
* `Feature.hasTurn_iff`: what a range reaches of the history of an accepted feature.
* `Feature.absentIn_isSome`, `Feature.deprecatedIn_isSome`, `Feature.removedIn_isSome`: which turns
  of its history a verdict has.
-/

namespace Vintage

namespace Version

/-! ## The strict order -/

theorem compare_eq_lt_iff (v w : Version) :
    v.compare w = .lt ↔ v.key.1 < w.key.1 ∨ v.key.1 = w.key.1 ∧
      (v.key.2.1 < w.key.2.1 ∨ v.key.2.1 = w.key.2.1 ∧ v.key.2.2 < w.key.2.2) := by
  unfold compare
  rw [Ordering.then_eq_lt, Ordering.then_eq_lt, Nat.compare_eq_lt, Nat.compare_eq_lt,
    Nat.compare_eq_lt, Nat.compare_eq_eq, Nat.compare_eq_eq]

theorem compare_eq_gt_iff (v w : Version) : v.compare w = .gt ↔ w.compare v = .lt := by
  rw [compare_eq_lt_iff]
  unfold compare
  rw [Ordering.then_eq_gt, Ordering.then_eq_gt, Nat.compare_eq_gt, Nat.compare_eq_gt,
    Nat.compare_eq_gt, Nat.compare_eq_eq, Nat.compare_eq_eq]
  omega

theorem compare_lt_trans {u v w : Version} (huv : u.compare v = .lt) (hvw : v.compare w = .lt) :
    u.compare w = .lt := by
  rw [compare_eq_lt_iff] at *
  omega

theorem compare_lt_of_lt_of_not_lt {u v w : Version} (huv : u.compare v = .lt)
    (hwv : ¬ w.compare v = .lt) : u.compare w = .lt := by
  rw [compare_eq_lt_iff] at *
  omega

theorem compare_lt_of_not_lt_of_lt {u v w : Version} (hvu : ¬ v.compare u = .lt)
    (hvw : v.compare w = .lt) : u.compare w = .lt := by
  rw [compare_eq_lt_iff] at *
  omega

theorem compare_lt_asymm {v w : Version} (h : v.compare w = .lt) : ¬ w.compare v = .lt := by
  rw [compare_eq_lt_iff] at *
  omega

/-- Two versions that are not level stand one before the other. -/
theorem level_eq_false_iff (v w : Version) :
    v.level w = false ↔ v.compare w = .lt ∨ w.compare v = .lt := by
  rw [level, beq_eq_false_iff_ne, Ne, Prod.ext_iff, Prod.ext_iff, compare_eq_lt_iff,
    compare_eq_lt_iff]
  omega

theorem level_comm (v w : Version) : v.level w = w.level v := by
  rw [level, level, Bool.beq_comm]

end Version

namespace Feature

/-! ## Facts in order -/

theorem sortFacts_sorted (facts : List Fact) :
    (sortFacts facts).Pairwise fun a b => ¬ b.version.compare a.version = .lt := by
  have hle (a b : Fact) : (a.version.compare b.version != .gt) = true ↔
      ¬ b.version.compare a.version = .lt := by
    rw [bne_iff_ne, Ne, Version.compare_eq_gt_iff]
  have hsorted : (sortFacts facts).Pairwise fun a b =>
      (a.version.compare b.version != .gt) = true := by
    apply List.pairwise_mergeSort
    · intro a b c hab hbc
      rw [hle, Version.compare_eq_lt_iff] at *
      omega
    · intro a b
      rw [Bool.or_eq_true, hle, hle, Version.compare_eq_lt_iff, Version.compare_eq_lt_iff]
      omega
  exact hsorted.imp fun {a b} h => (hle a b).1 h

/-- The versions of the facts ascend strictly. -/
abbrev Ascending (facts : List Fact) : Prop :=
  facts.Pairwise fun a b => a.version.compare b.version = .lt

/-- Two facts of a history are about different versions. -/
theorem lt_or_gt_of_mem {facts : List Fact} (hasc : Ascending facts) {a b : Fact}
    (ha : a ∈ facts) (hb : b ∈ facts) (hne : a ≠ b) :
    a.version.compare b.version = .lt ∨ b.version.compare a.version = .lt := by
  have hsymm : Std.Symm fun a b : Fact =>
      a.version.compare b.version = .lt ∨ b.version.compare a.version = .lt :=
    ⟨fun _ _ => Or.symm⟩
  have hpairs : facts.Pairwise fun a b =>
      a.version.compare b.version = .lt ∨ b.version.compare a.version = .lt := hasc.imp Or.inl
  exact hpairs.forall ha hb hne

/-- Facts that are strictly ascending are what sorting gives, in whatever order they come. -/
theorem sortFacts_eq_of_perm {facts sorted : List Fact} (hperm : facts.Perm sorted)
    (hasc : Ascending sorted) : sortFacts facts = sorted := by
  have hsort : (sortFacts facts).Perm sorted := (List.mergeSort_perm facts _).trans hperm
  apply hsort.eq_of_pairwise _ (sortFacts_sorted facts)
  · exact hasc.imp Version.compare_lt_asymm
  · intro a b ha hb hab hba
    by_contra hne
    exact (lt_or_gt_of_mem hasc (hsort.subset ha) hb hne).elim hba hab

theorem duplicate?_cons_cons (a b : Fact) (rest : List Fact) :
    duplicate? (a :: b :: rest) = none ↔
      a.version.level b.version = false ∧ duplicate? (b :: rest) = none := by
  rw [duplicate?]
  cases a.version.level b.version <;> simp

/-- In a sorted list facts of one version are neighbours. -/
theorem duplicate?_eq_none_iff {facts : List Fact}
    (h : facts.Pairwise fun a b => ¬ b.version.compare a.version = .lt) :
    duplicate? facts = none ↔ Ascending facts := by
  induction facts with
  | nil => simp [duplicate?]
  | cons a facts ih =>
    cases facts with
    | nil => simp [duplicate?]
    | cons b rest =>
      rw [duplicate?_cons_cons, ih h.of_cons, Ascending, Ascending, List.pairwise_cons (a := a)]
      have hab : ¬ b.version.compare a.version = .lt :=
        List.rel_of_pairwise_cons h List.mem_cons_self
      rw [Version.level_eq_false_iff, or_iff_left hab]
      apply and_congr_left
      intro hrest
      constructor
      · intro hlt c hc
        rcases List.mem_cons.1 hc with rfl | hc
        · exact hlt
        · exact Version.compare_lt_trans hlt (List.rel_of_pairwise_cons hrest hc)
      · intro hall
        exact hall b List.mem_cons_self

/-- Sorting brings two facts of one version together, wherever they stood. -/
theorem duplicate?_sortFacts_eq_none_iff (facts : List Fact) :
    duplicate? (sortFacts facts) = none ↔
      facts.Pairwise fun a b => a.version.level b.version = false := by
  have hsymm : ∀ {a b : Fact},
      a.version.level b.version = false → b.version.level a.version = false := by
    intro a b hab
    rwa [Version.level_comm]
  have hperm : (sortFacts facts).Perm facts := List.mergeSort_perm facts _
  rw [duplicate?_eq_none_iff (sortFacts_sorted facts), ← hperm.pairwise_iff hsymm]
  constructor
  · intro h
    exact h.imp fun {a b} hlt => (Version.level_eq_false_iff _ _).2 (Or.inl hlt)
  · intro h
    exact (h.and (sortFacts_sorted facts)).imp fun {a b} hab =>
      ((Version.level_eq_false_iff _ _).1 hab.1).resolve_right hab.2

/-- A feature returns if it is available in a version after a removal. -/
theorem return?_eq_none_iff (facts : List Fact) :
    return? facts = none ↔
      facts.Pairwise fun a b => a.status = .removed → b.status.isAvailable = false := by
  unfold return?
  rw [Option.map_eq_none_iff, List.find?_eq_none]
  induction facts with
  | nil => simp
  | cons f facts ih =>
    rw [List.pairwise_cons]
    by_cases hf : f.status = .removed
    · rw [List.dropWhile_cons_of_neg (by simp [hf])]
      simp only [List.mem_cons, forall_eq_or_imp, Bool.not_eq_true]
      constructor
      · rintro ⟨-, hlater⟩
        refine ⟨fun b hb _ => hlater b hb, ?_⟩
        exact List.pairwise_of_forall_mem_list fun _ _ b hb _ => hlater b hb
      · rintro ⟨hlater, -⟩
        exact ⟨by rw [hf]; rfl, fun b hb => hlater b hb hf⟩
    · rw [List.dropWhile_cons_of_pos (by simpa using hf), ih]
      exact ⟨fun h => ⟨fun _ _ hr => absurd hr hf, h⟩, And.right⟩

/-! ## Descriptions -/

/-- The fact that an entry records. -/
def Entry.fact? : Entry → Option Fact
  | .fact text status =>
    match Version.parse text with
    | .ok version => some { version, status }
    | .error _ => none
  | _ => none

theorem Entry.fact?_eq_some_iff {e : Entry} {fact : Fact} :
    e.fact? = some fact ↔
      ∃ text, e = .fact text fact.status ∧ Version.parse text = .ok fact.version := by
  cases e with
  | fact text status =>
    constructor
    · intro h
      simp only [fact?] at h
      split at h
      · rename_i v hv
        cases h
        exact ⟨text, rfl, hv⟩
      · cases h
    · rintro ⟨_, ⟨⟩, htext⟩
      simp only [fact?, htext]
  | _ => simp [fact?]

namespace Draft

theorem facts_add (d : Draft) (e : Entry) :
    (d.add e).feature.facts = d.feature.facts ++ e.fact?.toList := by
  cases e with
  | fact text status =>
    simp only [add, Entry.fact?]
    cases hparse : Version.parse text with
    | ok v => rfl
    | error e => exact (List.append_nil _).symm
  | note key value =>
    simp only [add, addNote, Entry.fact?, Option.toList_none, List.append_nil]
    split
    · rfl
    · split
      · rfl
      · split <;> rfl
  | alternative text => exact (List.append_nil _).symm
  | description text => exact (List.append_nil _).symm
  | noteKeys keys => exact (List.append_nil _).symm
  | valueCheck check => exact (List.append_nil _).symm

/-- A description has the facts that its entries record, in their order. -/
theorem facts_foldl_add (entries : List Entry) (d : Draft) :
    (entries.foldl add d).feature.facts = d.feature.facts ++ entries.filterMap Entry.fact? := by
  induction entries generalizing d with
  | nil => simp
  | cons e entries ih =>
    rw [List.foldl_cons, ih, facts_add, List.append_assoc]
    cases he : e.fact? with
    | none => rw [List.filterMap_cons_none he]; rfl
    | some f => rw [List.filterMap_cons_some he]; rfl

/-- Only a version that cannot be read or a remark is an error. -/
theorem error_add {e : Entry} (hnote : ∀ key value, e ≠ .note key value) (d : Draft) :
    (d.add e).error = none ↔ d.error = none ∧
      ∀ text status, e = .fact text status → ∃ v, Version.parse text = .ok v := by
  cases e with
  | fact text status =>
    simp only [add]
    split
    · rename_i v hv
      refine ⟨fun h => ⟨h, ?_⟩, And.left⟩
      rintro _ _ ⟨⟩
      exact ⟨v, hv⟩
    · rename_i e he
      constructor
      · intro h
        exact absurd h (by simp [fail])
      · rintro ⟨-, h⟩
        obtain ⟨v, hv⟩ := h text status rfl
        rw [he] at hv
        cases hv
  | note key value => exact absurd rfl (hnote key value)
  | alternative text => simp [add]
  | description text => simp [add]
  | noteKeys keys => simp [add]
  | valueCheck check => simp [add]

/-- In a description without remarks only a version that cannot be read is an error. -/
theorem error_foldl_add {entries : List Entry} (hnote : ∀ key value, .note key value ∉ entries)
    (d : Draft) :
    (entries.foldl add d).error = none ↔ d.error = none ∧
      ∀ text status, .fact text status ∈ entries → ∃ v, Version.parse text = .ok v := by
  induction entries generalizing d with
  | nil => simp
  | cons e entries ih =>
    have he : ∀ key value, e ≠ .note key value := by
      rintro key value rfl
      exact hnote key value List.mem_cons_self
    rw [List.foldl_cons, ih fun key value h => hnote key value (List.mem_cons_of_mem _ h),
      error_add he, and_assoc]
    simp only [List.mem_cons, or_imp, forall_and, eq_comm]

end Draft

/-- A description is accepted if nothing was wrong with its entries, it has a fact, no two facts are
about one version, and the feature does not return; its facts are then sorted. -/
theorem ofDraft_eq_ok_iff {d : Draft} {f : Feature} :
    ofDraft d = .ok f ↔ d.error = none ∧ d.feature.facts ≠ [] ∧
      (d.feature.facts.Pairwise fun a b => a.version.level b.version = false) ∧
      ((sortFacts d.feature.facts).Pairwise fun a b =>
        a.status = .removed → b.status.isAvailable = false) ∧
      f = { d.feature with facts := sortFacts d.feature.facts } := by
  rw [← duplicate?_sortFacts_eq_none_iff, ← return?_eq_none_iff]
  unfold ofDraft
  split
  · rename_i e he
    rw [he]
    exact ⟨nofun, nofun⟩
  · rename_i he
    rw [he]
    split
    · rename_i hempty
      rw [List.isEmpty_iff.1 hempty]
      exact ⟨nofun, fun h => absurd rfl h.2.1⟩
    · rename_i hne
      have hfacts : d.feature.facts ≠ [] := by simpa using hne
      simp only
      split
      · rename_i v hv
        rw [hv]
        exact ⟨nofun, nofun⟩
      · rename_i v hnone hv
        rw [hv]
        exact ⟨nofun, nofun⟩
      · rename_i hnone hnone'
        rw [Except.ok.injEq, eq_comm]
        exact ⟨fun h => ⟨trivial, hfacts, hnone, hnone', h⟩, fun h => h.2.2.2.2⟩

/-- A description without errors is accepted if its facts, put in order, ascend strictly and the
feature does not return. -/
theorem ofDraft_eq_ok_of_perm {d : Draft} {facts : List Fact} (herror : d.error = none)
    (hne : facts ≠ []) (hperm : d.feature.facts.Perm facts) (hasc : Ascending facts)
    (hreturn : facts.Pairwise fun a b => a.status = .removed → b.status.isAvailable = false) :
    ofDraft d = .ok { d.feature with facts } := by
  have hsort := sortFacts_eq_of_perm hperm hasc
  have hsorted := sortFacts_sorted d.feature.facts
  have hnone : duplicate? (sortFacts d.feature.facts) = none := by
    rw [duplicate?_eq_none_iff hsorted, hsort]
    exact hasc
  refine ofDraft_eq_ok_iff.2 ⟨herror, ?_, (duplicate?_sortFacts_eq_none_iff _).1 hnone, ?_, ?_⟩
  · rintro hnil
    rw [hnil] at hperm
    exact hne hperm.nil_eq.symm
  · rwa [hsort]
  · rw [hsort]

/-- A description without remarks, and without availability where there is a removal, is accepted
if its versions can be read, are different, and there is one. -/
theorem isOk_ofEntries_iff {name : String} {entries : List Entry}
    (hnote : ∀ key value, .note key value ∉ entries)
    (hreturn : ∀ a ∈ entries.filterMap Entry.fact?, ∀ b ∈ entries.filterMap Entry.fact?,
      a.status = .removed → b.status.isAvailable = false) :
    (∃ f, ofEntries name entries = .ok f) ↔
      (∀ text status, .fact text status ∈ entries → ∃ v, Version.parse text = .ok v) ∧
      entries.filterMap Entry.fact? ≠ [] ∧
      (entries.filterMap Entry.fact?).Pairwise fun a b => a.version.level b.version = false := by
  have hreturn' : (sortFacts (entries.filterMap Entry.fact?)).Pairwise fun a b =>
      a.status = .removed → b.status.isAvailable = false := by
    apply List.pairwise_of_forall_mem_list
    intro a ha b hb
    exact hreturn a (List.mem_mergeSort.1 ha) b (List.mem_mergeSort.1 hb)
  simp only [ofEntries, ofDraft_eq_ok_iff, Draft.facts_foldl_add, Draft.error_foldl_add hnote,
    List.nil_append, true_and, hreturn', exists_and_left, exists_eq, and_true]

/-- The facts of an accepted feature are those that its entries record. -/
theorem mem_facts_iff {name : String} {entries : List Entry} {f : Feature}
    (h : ofEntries name entries = .ok f) (fact : Fact) :
    fact ∈ f.facts ↔ ∃ text, .fact text fact.status ∈ entries ∧
      Version.parse text = .ok fact.version := by
  obtain ⟨-, -, -, -, rfl⟩ := ofDraft_eq_ok_iff.1 h
  simp only [sortFacts, List.mem_mergeSort, Draft.facts_foldl_add, List.nil_append,
    List.mem_filterMap, Entry.fact?_eq_some_iff]
  constructor
  · rintro ⟨_, he, text, rfl, htext⟩
    exact ⟨text, he, htext⟩
  · rintro ⟨text, he, htext⟩
    exact ⟨_, he, text, rfl, htext⟩

/-- The facts of an accepted feature ascend strictly. -/
theorem facts_ascending {name : String} {entries : List Entry} {f : Feature}
    (h : ofEntries name entries = .ok f) : Ascending f.facts := by
  obtain ⟨-, -, happart, -, rfl⟩ := ofDraft_eq_ok_iff.1 h
  rw [← duplicate?_sortFacts_eq_none_iff] at happart
  exact (duplicate?_eq_none_iff (sortFacts_sorted _)).1 happart

end Feature

/-! ## What a range reaches of a history -/

namespace Turn

theorem takes_absence (s : Status) : takes .absence s = true ↔ s = .absent := by
  cases s <;> simp [takes]

theorem takes_deprecation (s : Status) : takes .deprecation s = true ↔ s = .deprecated := by
  cases s <;> simp [takes]

theorem takes_removal (s : Status) : takes .removal s = true ↔ s = .removed := by
  cases s <;> simp [takes]

end Turn

theorem Verdict.status_of_mem_turns {turn : Turn} {status : Status}
    (htakes : ∀ s, turn.takes s = true ↔ s = status) {range : VersionRange} {facts : List Fact}
    {fact : Fact} (h : fact ∈ turns turn range facts) : fact.status = status :=
  (htakes _).1 (Fact.isTurn_iff.1 (mem_turns.1 h).2).1

namespace Feature

/-- The history has such a turn, and the range reaches it. -/
def HasTurn (f : Feature) (turn : Turn) (range : VersionRange) : Prop :=
  ∃ fact ∈ f.facts, fact.isTurn turn range = true

/-- The turns of an accepted feature are those its entries record. -/
theorem hasTurn_iff {name : String} {entries : List Entry} {f : Feature}
    (h : ofEntries name entries = .ok f) (turn : Turn) (range : VersionRange) :
    f.HasTurn turn range ↔ ∃ status text v, turn.takes status = true ∧ .fact text status ∈ entries ∧
      Version.parse text = .ok v ∧ turn.isReached range v = true := by
  constructor
  · rintro ⟨fact, hfact, hturn⟩
    obtain ⟨htakes, hreach⟩ := Fact.isTurn_iff.1 hturn
    obtain ⟨text, hmem, htext⟩ := (mem_facts_iff h fact).1 hfact
    exact ⟨fact.status, text, fact.version, htakes, hmem, htext, hreach⟩
  · rintro ⟨status, text, v, htakes, hmem, htext, hreach⟩
    exact ⟨⟨v, status⟩, (mem_facts_iff h _).2 ⟨text, hmem, htext⟩,
      Fact.isTurn_iff.2 ⟨htakes, hreach⟩⟩

theorem turns_ne_nil_iff {f : Feature} {turn : Turn} {range : VersionRange} :
    Verdict.turns turn range f.facts ≠ [] ↔ f.HasTurn turn range := by
  constructor
  · intro h
    obtain ⟨fact, hfact⟩ := List.exists_mem_of_ne_nil _ h
    exact ⟨fact, Verdict.mem_turns.1 hfact⟩
  · rintro ⟨fact, hfact⟩
    exact List.ne_nil_of_mem (Verdict.mem_turns.2 hfact)

/-- What a range reaches of the history, be it anything or nothing. -/
def reading (f : Feature) (range : VersionRange) : Verdict :=
  (f.facts.foldl (Verdict.add range) {}).settle

theorem verdict?_eq (f : Feature) (range : VersionRange) :
    f.verdict? range = if (f.reading range).isEmpty then none else some (f.reading range) := rfl

theorem eq_reading_of_verdict? {f : Feature} {range : VersionRange} {v : Verdict}
    (h : f.verdict? range = some v) : v = f.reading range := by
  rw [verdict?_eq] at h
  split at h
  · cases h
  · exact (Option.some.inj h).symm

variable (f : Feature) (range : VersionRange)

theorem absentIn_reading : (f.reading range).absentIn =
    (Verdict.turns .absence range f.facts).getLast?.map Fact.version := by
  rw [reading, Verdict.foldl_add, Option.or_none, Verdict.settle]
  split <;> rfl

theorem conditionalIn_reading : (f.reading range).conditionalIn =
    if (f.reading range).absentIn.isSome then none
    else (Verdict.turns .condition range f.facts).getLast?.bind Fact.condition? := by
  rw [absentIn_reading, reading, Verdict.foldl_add, Option.or_none, Option.or_none, Verdict.settle]
  split <;> rfl

theorem deprecatedIn_reading : (f.reading range).deprecatedIn =
    (Verdict.turns .deprecation range f.facts).head?.map Fact.version := by
  rw [reading, Verdict.foldl_add, Verdict.settle]
  split <;> rfl

theorem removedIn_reading : (f.reading range).removedIn =
    (Verdict.turns .removal range f.facts).head?.map Fact.version := by
  rw [reading, Verdict.foldl_add, Verdict.settle]
  split <;> rfl

theorem absentIn_isSome : (f.reading range).absentIn.isSome = true ↔ f.HasTurn .absence range := by
  rw [absentIn_reading, Option.isSome_map, List.getLast?_isSome, turns_ne_nil_iff]

theorem conditionalIn_isSome :
    (f.reading range).conditionalIn.isSome = true ↔
      ¬ f.HasTurn .absence range ∧ f.HasTurn .condition range := by
  rw [conditionalIn_reading, ← absentIn_isSome]
  split
  · rename_i h
    simp [h]
  · rename_i h
    rw [isSome_bind_condition?, turns_ne_nil_iff, and_iff_right h]

theorem deprecatedIn_isSome :
    (f.reading range).deprecatedIn.isSome = true ↔ f.HasTurn .deprecation range := by
  rw [deprecatedIn_reading, Option.isSome_map, List.isSome_head?, turns_ne_nil_iff]

theorem removedIn_isSome :
    (f.reading range).removedIn.isSome = true ↔ f.HasTurn .removal range := by
  rw [removedIn_reading, Option.isSome_map, List.isSome_head?, turns_ne_nil_iff]

theorem graded_eq_some_iff (worse mild : Bool) (s : Severity) :
    (if worse then some Severity.error else if mild then some .warning else none) = some s ↔
      worse = true ∧ s = .error ∨ ¬ worse = true ∧ mild = true ∧ s = .warning := by
  cases worse <;> cases mild <;> cases s <;> simp

/-- A feature that came too late is an error, one that needs an option a warning. -/
theorem introductionSeverity?_reading (s : Severity) :
    (f.reading range).introductionSeverity? = some s ↔
      f.HasTurn .absence range ∧ s = .error ∨
      ¬ f.HasTurn .absence range ∧ f.HasTurn .condition range ∧ s = .warning := by
  rw [Verdict.introductionSeverity?, graded_eq_some_iff, conditionalIn_isSome, absentIn_isSome,
    and_assoc, and_self_left]

/-- A feature that is removed is an error, one that is only deprecated a warning. -/
theorem withdrawalSeverity?_reading (s : Severity) :
    (f.reading range).withdrawalSeverity? = some s ↔
      f.HasTurn .removal range ∧ s = .error ∨
      ¬ f.HasTurn .removal range ∧ f.HasTurn .deprecation range ∧ s = .warning := by
  rw [Verdict.withdrawalSeverity?, graded_eq_some_iff, removedIn_isSome, deprecatedIn_isSome]

/-- A reading without anything in it has no severity. -/
theorem severity?_eq_none_of_isEmpty (h : (f.reading range).isEmpty = true) :
    (f.reading range).introductionSeverity? = none ∧
      (f.reading range).withdrawalSeverity? = none := by
  simp only [Verdict.isEmpty, Bool.and_eq_true, Option.isNone_iff_eq_none] at h
  obtain ⟨⟨⟨ha, hc⟩, hd⟩, hr⟩ := h
  unfold Verdict.introductionSeverity? Verdict.withdrawalSeverity?
  rw [ha, hc, hd, hr]
  exact ⟨rfl, rfl⟩

end Feature

end Vintage
