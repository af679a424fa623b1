import Vintage.Proofs.Reach

/-!
# What becomes of a description

The entries of a description are taken one after the other. Only the first fault is kept, and a
fault is found when its entry is taken: a key has to be declared before the remark that uses it. The
history is checked after all entries, on the sorted facts: neighbours for two facts of one version,
then everything after a removal. Since the facts are sorted, both checks are about all pairs of
them.

Results:
* `Feature.error_described_eq_some_iff`, `Feature.error_described_eq_none_iff`: the error that a
  draft keeps is that of the first faulty entry.
* `Feature.duplicate?_sortFacts_iff_clash`, `Feature.return?_sortFacts_iff_returns`: the two checks
  of a history, without its order.
* `Feature.ofDraft_record_of_perm`: the order of the facts does not count.
* `Feature.ofEntries_outcome`: what becomes of a description.
-/

namespace Vintage

theorem Version.compare_eq_eq_iff (v w : Version) : v.compare w = .eq ↔ v.level w = true := by
  rw [← Bool.not_eq_false, level_eq_false_iff, ← compare_eq_gt_iff v w]
  cases v.compare w <;> simp

namespace Feature

/-! ## Faulty entries -/

namespace Entry

/-- The entry records a fact, if its version can be read. -/
def isFact : Entry → Bool
  | .fact _ _ => true
  | _ => false

theorem fact?_eq_none {e : Entry} (h : e.isFact = false) : e.fact? = none := by
  cases e with
  | fact text status => cases h
  | _ => rfl

/-- The keys that the entry allows later remarks to have. -/
def declares : Entry → List String
  | .noteKeys keys => keys
  | _ => []

/-- What is wrong with an entry that comes after the entries `before`: its version cannot be read,
or it is a remark with a key that is not known by then. -/
def fault? (name : String) (before : List Entry) : Entry → Option FeatureError
  | .fact text _ =>
    match Version.parse text with
    | .ok _ => none
    | .error _ => some (.badVersion name text)
  | .note key _ =>
    if key ∈ ["alternative", "description"] ++ before.flatMap declares then none
    else some (.undeclaredNote name key)
  | _ => none

end Entry

/-- What is wrong with the entry at a position. -/
def faultAt? (name : String) (entries : List Entry) (i : Nat) : Option FeatureError :=
  entries[i]?.bind (Entry.fault? name (entries.take i))

/-- No entry is faulty. -/
def Faultless (name : String) (entries : List Entry) : Prop :=
  ∀ i, faultAt? name entries i = none

/-- `e` is what is wrong with the first faulty entry. -/
def FirstFault (name : String) (entries : List Entry) (e : FeatureError) : Prop :=
  ∃ i, faultAt? name entries i = some e ∧ ∀ j < i, faultAt? name entries j = none

section Faults

variable {name : String} {entries : List Entry} {e e' : FeatureError}

theorem faultAt?_append_of_lt {i : Nat} (hi : i < entries.length) (others : List Entry) :
    faultAt? name (entries ++ others) i = faultAt? name entries i := by
  rw [faultAt?, faultAt?, List.getElem?_append_left hi, List.take_append_of_le_length hi.le]

theorem faultAt?_length (entry : Entry) :
    faultAt? name (entries ++ [entry]) entries.length = entry.fault? name entries := by
  rw [faultAt?, List.getElem?_concat_length, List.take_left, Option.bind_some]

theorem lt_length_of_faultAt? {i : Nat} (h : faultAt? name entries i = some e) :
    i < entries.length := by
  obtain ⟨entry, hentry, -⟩ := Option.bind_eq_some_iff.1 h
  exact (List.getElem?_eq_some_iff.1 hentry).1

theorem FirstFault.not_faultless (h : FirstFault name entries e) : ¬ Faultless name entries := by
  obtain ⟨i, hi, -⟩ := h
  intro hnone
  rw [hnone i] at hi
  cases hi

theorem FirstFault.unique (h : FirstFault name entries e) (h' : FirstFault name entries e') :
    e = e' := by
  obtain ⟨i, hi, hfirst⟩ := h
  obtain ⟨i', hi', hfirst'⟩ := h'
  rcases Nat.lt_trichotomy i i' with hlt | rfl | hlt
  · rw [hfirst' i hlt] at hi
    cases hi
  · exact Option.some.inj (hi.symm.trans hi')
  · rw [hfirst i' hlt] at hi'
    cases hi'

theorem FirstFault.kind (h : FirstFault name entries e) :
    (∃ text, e = .badVersion name text) ∨ ∃ key, e = .undeclaredNote name key := by
  obtain ⟨i, hi, -⟩ := h
  obtain ⟨entry, -, hentry⟩ := Option.bind_eq_some_iff.1 hi
  unfold Entry.fault? at hentry
  split at hentry
  · split at hentry
    · cases hentry
    · cases hentry
      exact Or.inl ⟨_, rfl⟩
  · split at hentry
    · cases hentry
    · cases hentry
      exact Or.inr ⟨_, rfl⟩
  · cases hentry

theorem Faultless.concat (h : Faultless name entries) {entry : Entry}
    (hentry : entry.fault? name entries = none) : Faultless name (entries ++ [entry]) := by
  intro i
  rcases Nat.lt_trichotomy i entries.length with hlt | rfl | hlt
  · rw [faultAt?_append_of_lt hlt, h i]
  · rw [faultAt?_length, hentry]
  · rw [← Option.not_isSome_iff_eq_none, Option.isSome_iff_exists]
    rintro ⟨e, he⟩
    have hlength := lt_length_of_faultAt? he
    rw [List.length_append, List.length_singleton] at hlength
    omega

theorem FirstFault.append (h : FirstFault name entries e) (others : List Entry) :
    FirstFault name (entries ++ others) e := by
  obtain ⟨i, hi, hfirst⟩ := h
  have hlt := lt_length_of_faultAt? hi
  refine ⟨i, by rwa [faultAt?_append_of_lt hlt], fun j hj => ?_⟩
  rw [faultAt?_append_of_lt (hj.trans hlt), hfirst j hj]

theorem Faultless.firstFault (h : Faultless name entries) {entry : Entry}
    (hentry : entry.fault? name entries = some e) : FirstFault name (entries ++ [entry]) e := by
  refine ⟨entries.length, by rw [faultAt?_length, hentry], fun j hj => ?_⟩
  rw [faultAt?_append_of_lt hj, h j]

end Faults

/-! ## Drafts -/

namespace Draft

theorem noteKeys_add (d : Draft) (e : Entry) : (d.add e).noteKeys = d.noteKeys ++ e.declares := by
  cases e with
  | fact text status =>
    simp only [add, Entry.declares, List.append_nil]
    split <;> rfl
  | note key value =>
    simp only [add, addNote, Entry.declares, List.append_nil]
    repeat' split
    all_goals rfl
  | noteKeys keys => rfl
  | alternative text => exact (List.append_nil _).symm
  | description text => exact (List.append_nil _).symm
  | valueCheck check => exact (List.append_nil _).symm

theorem noteKeys_foldl_add (entries : List Entry) (d : Draft) :
    (entries.foldl add d).noteKeys = d.noteKeys ++ entries.flatMap Entry.declares := by
  induction entries generalizing d with
  | nil => simp
  | cons e entries ih => rw [List.foldl_cons, ih, noteKeys_add, List.append_assoc]; rfl

/-- An entry that is faulty where it stands is an error, unless there was one before. -/
theorem error_add_eq {d : Draft} {before : List Entry}
    (hkeys : d.noteKeys = before.flatMap Entry.declares) (e : Entry) :
    (d.add e).error = d.error.or (e.fault? d.feature.name before) := by
  cases e with
  | fact text status =>
    simp only [add, Entry.fault?]
    cases Version.parse text with
    | ok v => exact Option.or_none.symm
    | error _ => rfl
  | note key value =>
    simp only [add, addNote, Entry.fault?, ← hkeys, List.cons_append, List.nil_append,
      List.mem_cons]
    by_cases halternative : key = "alternative"
    · simp [halternative]
    by_cases hdescription : key = "description"
    · simp [hdescription]
    by_cases hkey : key ∈ d.noteKeys
    · simp [halternative, hdescription, hkey]
    · simp [halternative, hdescription, hkey, fail]
  | noteKeys keys => exact Option.or_none.symm
  | alternative text => exact Option.or_none.symm
  | description text => exact Option.or_none.symm
  | valueCheck check => exact Option.or_none.symm

end Draft

/-- The draft after all entries. -/
def described (name : String) (entries : List Entry) : Draft :=
  entries.foldl Draft.add { feature := { name, facts := [] } }

section Described

variable (name : String) (entries : List Entry)

theorem ofEntries_eq_ofDraft : ofEntries name entries = ofDraft (described name entries) := rfl

theorem name_described : (described name entries).feature.name = name :=
  Draft.name_foldl_add _ entries

theorem facts_described :
    (described name entries).feature.facts = entries.filterMap Entry.fact? :=
  (Draft.facts_foldl_add entries _).trans (List.nil_append _)

theorem error_described_concat (entry : Entry) :
    (described name (entries ++ [entry])).error =
      (described name entries).error.or (entry.fault? name entries) := by
  have hkeys : (described name entries).noteKeys = entries.flatMap Entry.declares :=
    (Draft.noteKeys_foldl_add entries _).trans (List.nil_append _)
  have hadd := Draft.error_add_eq hkeys entry
  rw [name_described] at hadd
  rw [← hadd, described, List.foldl_append]
  rfl

end Described

section Errors

variable {name : String} {entries : List Entry} {e : FeatureError}

theorem firstFault_or_faultless (name : String) (entries : List Entry) :
    (∃ e, (described name entries).error = some e ∧ FirstFault name entries e) ∨
      (described name entries).error = none ∧ Faultless name entries := by
  -- entries are taken from the left, so the last one is the one that is added to the others
  induction entries using List.reverseRecOn with
  | nil => exact Or.inr ⟨rfl, fun i => rfl⟩
  | append_singleton entries entry ih =>
    rw [error_described_concat]
    rcases ih with ⟨e, he, hfirst⟩ | ⟨hnone, hfaultless⟩
    · exact Or.inl ⟨e, by rw [he, Option.some_or], hfirst.append _⟩
    · rw [hnone, Option.none_or]
      cases hentry : entry.fault? name entries with
      | none => exact Or.inr ⟨rfl, hfaultless.concat hentry⟩
      | some e => exact Or.inl ⟨e, rfl, hfaultless.firstFault hentry⟩

theorem error_described_eq_some_iff :
    (described name entries).error = some e ↔ FirstFault name entries e := by
  rcases firstFault_or_faultless name entries with ⟨e', he', hfirst⟩ | ⟨hnone, hfaultless⟩
  · rw [he', Option.some.injEq]
    exact ⟨fun h => h ▸ hfirst, hfirst.unique⟩
  · rw [hnone]
    exact ⟨nofun, fun h => absurd hfaultless h.not_faultless⟩

theorem error_described_eq_none_iff :
    (described name entries).error = none ↔ Faultless name entries := by
  rcases firstFault_or_faultless name entries with ⟨e', he', hfirst⟩ | ⟨hnone, hfaultless⟩
  · rw [he']
    exact ⟨nofun, fun h => absurd h hfirst.not_faultless⟩
  · exact ⟨fun _ => hfaultless, fun _ => hnone⟩

end Errors

/-! ## Pairs of facts -/

/-- Two facts are about the same version. -/
def Clash (facts : List Fact) : Prop :=
  ∃ a b, [a, b].Sublist facts ∧ a.version.compare b.version = .eq

/-- The feature is present, if only in some builds, in a version after a removal. -/
def Returns (facts : List Fact) : Prop :=
  ∃ r ∈ facts, ∃ a ∈ facts, r.status = .removed ∧
    (a.status = .present ∨ ∃ option, a.status = .conditional option) ∧
    r.version.compare a.version = .lt

theorem isAvailable_iff {s : Status} :
    s.isAvailable = true ↔ s = .present ∨ ∃ option, s = .conditional option := by
  cases s <;> simp [Status.isAvailable]

theorem Clash.ne_nil {facts : List Fact} (h : Clash facts) : facts ≠ [] := by
  obtain ⟨a, b, hsub, -⟩ := h
  rintro rfl
  cases hsub

theorem Returns.ne_nil {facts : List Fact} (h : Returns facts) : facts ≠ [] := by
  obtain ⟨r, hr, -⟩ := h
  exact List.ne_nil_of_mem hr

theorem not_clash_iff (facts : List Fact) :
    ¬ Clash facts ↔ facts.Pairwise fun a b => a.version.level b.version = false := by
  rw [List.pairwise_iff_forall_sublist]
  simp only [Clash, Version.compare_eq_eq_iff, not_exists, not_and, Bool.not_eq_true]

theorem duplicate?_sortFacts_iff_clash (facts : List Fact) :
    duplicate? (sortFacts facts) = none ↔ ¬ Clash facts := by
  rw [duplicate?_sortFacts_eq_none_iff, not_clash_iff]

theorem ascending_sortFacts {facts : List Fact} (h : ¬ Clash facts) :
    Ascending (sortFacts facts) :=
  (duplicate?_eq_none_iff (sortFacts_sorted facts)).1 ((duplicate?_sortFacts_iff_clash facts).2 h)

/-- In an ascending list the later of two facts stands after the other. -/
theorem rel_of_lt {R : Fact → Fact → Prop} {facts : List Fact} (hasc : Ascending facts)
    (hR : facts.Pairwise R) {a b : Fact} (ha : a ∈ facts) (hb : b ∈ facts)
    (hlt : a.version.compare b.version = .lt) : R a b := by
  induction facts with
  | nil => cases ha
  | cons c facts ih =>
    rcases List.mem_cons.1 hb with rfl | hb'
    · rcases List.mem_cons.1 ha with rfl | ha'
      · exact absurd hlt (Version.compare_lt_asymm hlt)
      · exact absurd hlt (Version.compare_lt_asymm (List.rel_of_pairwise_cons hasc ha'))
    · rcases List.mem_cons.1 ha with rfl | ha'
      · exact List.rel_of_pairwise_cons hR hb'
      · exact ih hasc.of_cons hR.of_cons ha' hb'

theorem return?_sortFacts_iff_returns {facts : List Fact} (h : ¬ Clash facts) :
    return? (sortFacts facts) = none ↔ ¬ Returns facts := by
  have hmem (fact : Fact) : fact ∈ sortFacts facts ↔ fact ∈ facts := List.mem_mergeSort
  have hasc := ascending_sortFacts h
  rw [return?_eq_none_iff]
  constructor
  · rintro hpairs ⟨r, hr, a, ha, hremoved, havailable, hlt⟩
    have hunavailable := rel_of_lt hasc hpairs ((hmem r).2 hr) ((hmem a).2 ha) hlt hremoved
    rw [isAvailable_iff.2 havailable] at hunavailable
    cases hunavailable
  · intro hreturns
    refine hasc.imp_of_mem fun {r a} hr ha hlt hremoved => ?_
    rw [← Bool.not_eq_true]
    exact fun havailable =>
      hreturns ⟨r, (hmem r).1 hr, a, (hmem a).1 ha, hremoved, isAvailable_iff.1 havailable, hlt⟩

/-! ## The order of the facts -/

/-- Sorting the same facts gives the same places of the order. -/
theorem map_key_sortFacts_of_perm {facts facts' : List Fact} (hperm : facts'.Perm facts) :
    (sortFacts facts').map (·.version.key) = (sortFacts facts).map (·.version.key) := by
  -- facts of one version keep their order, so the sorted lists themselves need not be equal
  have hsort : (sortFacts facts').Perm (sortFacts facts) :=
    (List.mergeSort_perm facts' _).trans (hperm.trans (List.mergeSort_perm facts _).symm)
  have hsorted (facts : List Fact) : ((sortFacts facts).map (·.version.key)).Pairwise fun k l =>
      ¬ (l.1 < k.1 ∨ l.1 = k.1 ∧ (l.2.1 < k.2.1 ∨ l.2.1 = k.2.1 ∧ l.2.2 < k.2.2)) := by
    rw [List.pairwise_map]
    refine (sortFacts_sorted facts).imp fun {a b} hab => ?_
    rwa [Version.compare_eq_lt_iff] at hab
  apply (hsort.map _).eq_of_pairwise _ (hsorted facts') (hsorted facts)
  intro k l _ _ hkl hlk
  rw [Prod.ext_iff, Prod.ext_iff]
  omega

/-- Which version is the duplicate is decided by the places of the order. -/
theorem map_key_duplicate? {facts facts' : List Fact}
    (h : facts'.map (·.version.key) = facts.map (·.version.key)) :
    (duplicate? facts').map Version.key = (duplicate? facts).map Version.key := by
  induction facts generalizing facts' with
  | nil =>
    rw [List.map_nil, List.map_eq_nil_iff] at h
    rw [h]
  | cons a facts ih =>
    obtain ⟨a', rest', rfl, ha, hrest⟩ := List.map_eq_cons_iff.1 h
    cases facts with
    | nil =>
      rw [List.map_nil, List.map_eq_nil_iff] at hrest
      rw [hrest, duplicate?, duplicate?] <;> simp
    | cons b facts =>
      obtain ⟨b', facts', rfl, hb, -⟩ := List.map_eq_cons_iff.1 hrest
      have hlevel : a'.version.level b'.version = a.version.level b.version := by
        rw [Version.level, Version.level, ha, hb]
      rw [duplicate?, duplicate?, hlevel]
      split
      · simpa using hb
      · exact ih hrest

/-! ## Checking a history -/

section OfDraft

variable {d : Draft} (herror : d.error = none) (hne : d.feature.facts ≠ [])

theorem ofDraft_of_error {e : FeatureError} (h : d.error = some e) : ofDraft d = .error e := by
  rw [ofDraft, h]

include herror

theorem ofDraft_of_nil (h : d.feature.facts = []) :
    ofDraft d = .error (.noFacts d.feature.name) := by
  rw [ofDraft, herror, h]
  rfl

include hne

theorem ofDraft_of_duplicate {v : Version}
    (h : duplicate? (sortFacts d.feature.facts) = some v) :
    ofDraft d = .error (.duplicateVersion d.feature.name v) := by
  simp only [ofDraft, herror, List.isEmpty_iff, hne, if_false, h]

theorem ofDraft_of_return {v : Version} (h : duplicate? (sortFacts d.feature.facts) = none)
    (hv : return? (sortFacts d.feature.facts) = some v) :
    ofDraft d = .error (.returnsAfterRemoval d.feature.name v) := by
  simp only [ofDraft, herror, List.isEmpty_iff, hne, if_false, h, hv]

theorem ofDraft_of_none (h : duplicate? (sortFacts d.feature.facts) = none)
    (hnone : return? (sortFacts d.feature.facts) = none) :
    ofDraft d = .ok { d.feature with facts := sortFacts d.feature.facts } := by
  simp only [ofDraft, herror, List.isEmpty_iff, hne, if_false, h, hnone]

end OfDraft

/-- The five things that can become of a description. -/
inductive Outcome (name : String) (entries : List Entry) : Except FeatureError Feature → Prop
  | fault {e : FeatureError} (hfirst : FirstFault name entries e) : Outcome name entries (.error e)
  | noFacts (hfaultless : Faultless name entries) (hnil : entries.filterMap Entry.fact? = []) :
      Outcome name entries (.error (.noFacts name))
  | clash (hfaultless : Faultless name entries) (hclash : Clash (entries.filterMap Entry.fact?))
      (v : Version) : Outcome name entries (.error (.duplicateVersion name v))
  | returns (hfaultless : Faultless name entries)
      (hapart : ¬ Clash (entries.filterMap Entry.fact?))
      (hreturns : Returns (entries.filterMap Entry.fact?)) (v : Version) :
      Outcome name entries (.error (.returnsAfterRemoval name v))
  | accepted (hfaultless : Faultless name entries) (hne : entries.filterMap Entry.fact? ≠ [])
      (hapart : ¬ Clash (entries.filterMap Entry.fact?))
      (hstays : ¬ Returns (entries.filterMap Entry.fact?)) (f : Feature) :
      Outcome name entries (.ok f)

theorem outcome_ofEntries (name : String) (entries : List Entry) :
    Outcome name entries (ofEntries name entries) := by
  have hname := name_described name entries
  have hfacts := facts_described name entries
  rw [ofEntries_eq_ofDraft]
  cases herror : (described name entries).error with
  | some e =>
    rw [ofDraft_of_error herror]
    exact .fault (error_described_eq_some_iff.1 herror)
  | none =>
    have hfaultless := error_described_eq_none_iff.1 herror
    by_cases hnil : (described name entries).feature.facts = []
    · rw [ofDraft_of_nil herror hnil, hname]
      exact .noFacts hfaultless (hfacts ▸ hnil)
    have hclash := duplicate?_sortFacts_iff_clash (described name entries).feature.facts
    cases hduplicate : duplicate? (sortFacts (described name entries).feature.facts) with
    | some v =>
      rw [ofDraft_of_duplicate herror hnil hduplicate, hname]
      rw [hduplicate, hfacts] at hclash
      exact .clash hfaultless (by simpa using hclash) v
    | none =>
      have hapart := hclash.1 hduplicate
      have hreturns := return?_sortFacts_iff_returns hapart
      cases hreturn : return? (sortFacts (described name entries).feature.facts) with
      | some v =>
        rw [ofDraft_of_return herror hnil hduplicate hreturn, hname]
        rw [hreturn, hfacts] at hreturns
        exact .returns hfaultless (hfacts ▸ hapart) (by simpa using hreturns) v
      | none =>
        rw [ofDraft_of_none herror hnil hduplicate hreturn]
        exact .accepted hfaultless (hfacts ▸ hnil) (hfacts ▸ hapart)
          (hfacts ▸ hreturns.1 hreturn) _

/-- The conditions of the outcomes exclude each other, so each decides its outcome. -/
theorem Outcome.decided {name : String} {entries : List Entry}
    {result : Except FeatureError Feature} (h : Outcome name entries result) :
    let facts := entries.filterMap Entry.fact?
    (result = .error (.noFacts name) ↔ Faultless name entries ∧ facts = []) ∧
    ((∃ v, result = .error (.duplicateVersion name v)) ↔
      Faultless name entries ∧ Clash facts) ∧
    ((∃ v, result = .error (.returnsAfterRemoval name v)) ↔
      Faultless name entries ∧ ¬ Clash facts ∧ Returns facts) ∧
    ((∃ f, result = .ok f) ↔
      Faultless name entries ∧ facts ≠ [] ∧ ¬ Clash facts ∧ ¬ Returns facts) := by
  intro facts
  cases h with
  | fault hfirst =>
    have hfaulty := hfirst.not_faultless
    obtain ⟨text, rfl⟩ | ⟨key, rfl⟩ := hfirst.kind
    · simp [hfaulty]
    · simp [hfaulty]
  | noFacts hfaultless hnil =>
    have hapart : ¬ Clash [] := fun h => h.ne_nil rfl
    have hstays : ¬ Returns [] := fun h => h.ne_nil rfl
    simp [facts, hfaultless, hnil, hapart, hstays]
  | clash hfaultless hclash v => simp [facts, hfaultless, hclash, hclash.ne_nil]
  | returns hfaultless hapart hreturns v =>
    simp [facts, hfaultless, hapart, hreturns, hreturns.ne_nil]
  | accepted hfaultless hne hapart hstays f => simp [facts, hfaultless, hne, hapart, hstays]

/-! ## The order of the entries -/

namespace Draft

/-- The draft with further facts. -/
def record (d : Draft) (facts : List Fact) : Draft :=
  { d with feature.facts := d.feature.facts ++ facts }

/-- An entry that is no fact does not look at the facts. -/
theorem add_record {e : Entry} (he : e.isFact = false) (d : Draft) (facts : List Fact) :
    (d.record facts).add e = (d.add e).record facts := by
  cases e with
  | fact text status => cases he
  | note key value =>
    simp only [add, addNote, apply_ite (record · facts)]
    rfl
  | _ => rfl

/-- If all versions can be read, the facts can be recorded after all other entries. -/
theorem foldl_add_record {entries : List Entry}
    (hread : ∀ text status, .fact text status ∈ entries → ∃ v, Version.parse text = .ok v)
    (d : Draft) (facts : List Fact) :
    entries.foldl add (d.record facts) =
      ((entries.filter (!·.isFact)).foldl add d).record
        (facts ++ entries.filterMap Entry.fact?) := by
  induction entries generalizing d facts with
  | nil => simp
  | cons e entries ih =>
    have hread' : ∀ text status, .fact text status ∈ entries → ∃ v, Version.parse text = .ok v :=
      fun text status h => hread text status (List.mem_cons_of_mem _ h)
    cases he : e.isFact with
    | true =>
      cases e with
      | fact text status =>
        obtain ⟨v, hv⟩ := hread text status List.mem_cons_self
        have hfact : (Entry.fact text status).fact? = some ⟨v, status⟩ :=
          Entry.fact?_eq_some_iff.2 ⟨text, rfl, hv⟩
        have hadd : (d.record facts).add (.fact text status) =
            d.record (facts ++ [⟨v, status⟩]) := by
          simp only [add, hv, record, List.append_assoc]
        rw [List.foldl_cons, hadd, ih hread', List.filterMap_cons_some hfact,
          List.filter_cons_of_neg (by simp [he]), List.append_assoc, List.singleton_append]
      | _ => cases he
    | false =>
      rw [List.foldl_cons, add_record he, ih hread',
        List.filterMap_cons_none (Entry.fact?_eq_none he),
        List.filter_cons_of_pos (by simp [he]), List.foldl_cons]

end Draft

/-- The order in which facts are recorded does not count, but for how a version is written that two
facts are about. -/
theorem ofDraft_record_of_perm (d : Draft) {facts facts' : List Fact}
    (hd : d.feature.facts = []) (hperm : facts'.Perm facts) :
    ofDraft (d.record facts') = ofDraft (d.record facts) ∨
      ∃ v' v, v'.level v = true ∧
        ofDraft (d.record facts') = .error (.duplicateVersion d.feature.name v') ∧
        ofDraft (d.record facts) = .error (.duplicateVersion d.feature.name v) := by
  have hfacts (facts : List Fact) : (d.record facts).feature.facts = facts := by
    rw [Draft.record, hd, List.nil_append]
  cases herror : d.error with
  | some e =>
    left
    rw [ofDraft_of_error (d := d.record facts') herror,
      ofDraft_of_error (d := d.record facts) herror]
  | none =>
    by_cases hnil : facts = []
    · left
      rw [hnil] at hperm ⊢
      rw [hperm.eq_nil]
    have hnil' : facts' ≠ [] := fun h => hnil (h ▸ hperm).nil_eq.symm
    have hkeys := map_key_duplicate? (map_key_sortFacts_of_perm hperm)
    cases hduplicate : duplicate? (sortFacts facts) with
    | some v =>
      right
      rw [hduplicate] at hkeys
      obtain ⟨v', hduplicate', hkey⟩ := Option.map_eq_some_iff.1 hkeys
      refine ⟨v', v, beq_iff_eq.2 hkey, ?_, ?_⟩
      · exact ofDraft_of_duplicate (d := d.record facts') herror (by rwa [hfacts])
          (by rwa [hfacts])
      · exact ofDraft_of_duplicate (d := d.record facts) herror (by rwa [hfacts])
          (by rwa [hfacts])
    | none =>
      -- without two facts of one version there is one way to sort them
      left
      have hasc := (duplicate?_eq_none_iff (sortFacts_sorted facts)).1 hduplicate
      have hsort : sortFacts facts' = sortFacts facts :=
        sortFacts_eq_of_perm (hperm.trans (List.mergeSort_perm facts _).symm) hasc
      simp only [ofDraft, hfacts, hsort, List.isEmpty_iff, hnil, hnil', if_false]
      rfl

/-- If all versions can be read, the facts may stand anywhere among the other entries. -/
theorem ofEntries_of_perm {name : String} {entries entries' : List Entry}
    (hperm : entries'.Perm entries)
    (hothers : entries'.filter (!·.isFact) = entries.filter (!·.isFact))
    (hread : ∀ text status, .fact text status ∈ entries → ∃ v, Version.parse text = .ok v) :
    ofEntries name entries' = ofEntries name entries ∨
      ∃ v' v, v'.level v = true ∧
        ofEntries name entries' = .error (.duplicateVersion name v') ∧
        ofEntries name entries = .error (.duplicateVersion name v) := by
  have hread' : ∀ text status, .fact text status ∈ entries' → ∃ v, Version.parse text = .ok v :=
    fun text status h => hread text status (hperm.subset h)
  have hrecord {entries : List Entry}
      (hread : ∀ text status, .fact text status ∈ entries → ∃ v, Version.parse text = .ok v) :
      described name entries =
        (described name (entries.filter (!·.isFact))).record (entries.filterMap Entry.fact?) :=
    Draft.foldl_add_record hread { feature := { name, facts := [] } } []
  have hfacts : (described name (entries.filter (!·.isFact))).feature.facts = [] := by
    rw [facts_described, List.filterMap_eq_nil_iff]
    intro e he
    exact Entry.fact?_eq_none (by simpa using (List.mem_filter.1 he).2)
  have hsame := ofDraft_record_of_perm _ hfacts (hperm.filterMap Entry.fact?)
  rw [name_described] at hsame
  rw [ofEntries_eq_ofDraft, ofEntries_eq_ofDraft, hrecord hread, hrecord hread', hothers]
  exact hsame

/-- What becomes of a description: the first faulty entry is reported, then the lack of facts, then
two facts about one version, then a return after a removal. What is left is accepted, with just its
facts in ascending order. If all versions can be read, the facts may come in any order. -/
theorem ofEntries_outcome (name : String) (entries : List Entry) :
    let facts := entries.filterMap Entry.fact?
    (∀ e, FirstFault name entries e → ofEntries name entries = .error e) ∧
    (ofEntries name entries = .error (.noFacts name) ↔ Faultless name entries ∧ facts = []) ∧
    ((∃ v, ofEntries name entries = .error (.duplicateVersion name v)) ↔
      Faultless name entries ∧ Clash facts) ∧
    ((∃ v, ofEntries name entries = .error (.returnsAfterRemoval name v)) ↔
      Faultless name entries ∧ ¬ Clash facts ∧ Returns facts) ∧
    ((∃ f, ofEntries name entries = .ok f) ↔
      Faultless name entries ∧ facts ≠ [] ∧ ¬ Clash facts ∧ ¬ Returns facts) ∧
    (∀ f, ofEntries name entries = .ok f →
      f.name = name ∧ Ascending f.facts ∧ f.facts.Perm facts) ∧
    ∀ entries' : List Entry, entries'.Perm entries →
      entries'.filter (!·.isFact) = entries.filter (!·.isFact) →
      (∀ text status, .fact text status ∈ entries → ∃ v, Version.parse text = .ok v) →
      ofEntries name entries' = ofEntries name entries ∨
        ∃ v' v, v'.level v = true ∧
          ofEntries name entries' = .error (.duplicateVersion name v') ∧
          ofEntries name entries = .error (.duplicateVersion name v) := by
  obtain ⟨hempty, hclash, hreturns, haccepted⟩ := (outcome_ofEntries name entries).decided
  refine ⟨fun e he => ofDraft_of_error (error_described_eq_some_iff.2 he), hempty, hclash,
    hreturns, haccepted, fun f hf => ?_, ?_⟩
  · refine ⟨name_of_ofEntries hf, facts_ascending hf, ?_⟩
    rw [facts_of_ofEntries hf]
    exact List.mergeSort_perm _ _
  · intro entries' hperm hothers hread
    exact ofEntries_of_perm hperm hothers hread

/-- A key is declared too late; one version is written in two ways; a feature comes back in some
builds; a history is given backwards. -/
theorem ofEntries_outcome_orders :
    let late : List Entry := [.note "since" "5", .noteKeys ["since"], .fact "five" .present]
    let twice : List Entry := [.fact "5.3" .present, .alternative "g", .fact "5.3.0" .removed]
    let back : List Entry := [.fact "7.0.1" (.conditional "--with-f"), .fact "5.3" .removed]
    let backwards : List Entry :=
      [.fact "7.0" .removed, .noteKeys ["since"], .fact "5.3" .present, .note "since" "5"]
    let forwards : List Entry :=
      [.noteKeys ["since"], .note "since" "5", .fact "5.3" .present, .fact "7.0" .removed]
    ofEntries "f" late = .error (.undeclaredNote "f" "since") ∧
      (∃ v, ofEntries "f" twice = .error (.duplicateVersion "f" v)) ∧
      (∃ v, ofEntries "f" back = .error (.returnsAfterRemoval "f" v)) ∧
      ∃ f, ofEntries "f" backwards = .ok f ∧ ofEntries "f" forwards = .ok f ∧
        Ascending f.facts ∧
        f.facts.Perm [⟨⟨7, 0, none⟩, .removed⟩, ⟨⟨5, 3, none⟩, .present⟩] := by
  intro late twice back backwards forwards
  have hlate : FirstFault "f" late (.undeclaredNote "f" "since") :=
    error_described_eq_some_iff.1 (by decide)
  have htwice : Faultless "f" twice ∧ Clash (twice.filterMap Entry.fact?) :=
    ⟨error_described_eq_none_iff.1 (by decide), ⟨⟨5, 3, none⟩, .present⟩,
      ⟨⟨5, 3, some 0⟩, .removed⟩, by decide, by decide⟩
  have hback : Faultless "f" back ∧ ¬ Clash (back.filterMap Entry.fact?) ∧
      Returns (back.filterMap Entry.fact?) :=
    ⟨error_described_eq_none_iff.1 (by decide), (not_clash_iff _).2 (by decide),
      ⟨⟨5, 3, none⟩, .removed⟩, by decide, ⟨⟨7, 0, some 1⟩, .conditional "--with-f"⟩, by decide,
      rfl, Or.inr ⟨_, rfl⟩, by decide⟩
  have hstays : ¬ Returns (backwards.filterMap Entry.fact?) := by
    have hpairs : ∀ r ∈ backwards.filterMap Entry.fact?, ∀ a ∈ backwards.filterMap Entry.fact?,
        r.status = .removed → a.status.isAvailable = true →
          ¬ r.version.compare a.version = .lt := by
      decide
    rintro ⟨r, hr, a, ha, hremoved, havailable, hlt⟩
    exact hpairs r hr a ha hremoved (isAvailable_iff.2 havailable) hlt
  have hread : ∀ text status, Entry.fact text status ∈ backwards →
      ∃ v, Version.parse text = .ok v := by
    intro text status h
    simp only [backwards, List.mem_cons, Entry.fact.injEq, reduceCtorEq, List.not_mem_nil,
      or_false, false_or] at h
    rcases h with ⟨rfl, -⟩ | ⟨rfl, -⟩
    · exact ⟨⟨7, 0, none⟩, by decide⟩
    · exact ⟨⟨5, 3, none⟩, by decide⟩
  obtain ⟨hfault, -⟩ := ofEntries_outcome "f" late
  obtain ⟨-, -, hclash, -⟩ := ofEntries_outcome "f" twice
  obtain ⟨-, -, -, hreturns, -⟩ := ofEntries_outcome "f" back
  obtain ⟨-, -, -, -, haccepted, hsorted, horder⟩ := ofEntries_outcome "f" backwards
  obtain ⟨f, hf⟩ := haccepted.2 ⟨error_described_eq_none_iff.1 (by decide), by decide,
    (not_clash_iff _).2 (by decide), hstays⟩
  refine ⟨hfault _ hlate, hclash.2 htwice, hreturns.2 hback, f, hf, ?_, (hsorted f hf).2⟩
  rcases horder forwards (by decide) (by decide) hread with hsame | ⟨_, _, -, -, hduplicate⟩
  · exact hsame.trans hf
  · rw [hf] at hduplicate
    cases hduplicate

end Feature

end Vintage
