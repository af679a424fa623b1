import Mathlib.Data.List.Nodup
import Vintage.Catalogue

/-!
# Looking features up

A catalogue is a map from keys to features, in which a later feature of a key takes the place of an
earlier one. A look-up by prefix goes through the entries and keeps the longest key that the text
starts with. Two such keys of one length are equal, so the order of the entries has no say in it.

Results:
* `Catalogue.findPrefix?_eq_some_iff`: a look-up by prefix is a look-up of the longest key.
* `Catalogue.find?_congr`, `Catalogue.findPrefix?_congr`: look-ups depend on the map alone.
* `Catalogue.atKey_ofFeatures`, `Catalogue.Lists.atKey`: the map of a list of features, and of any
  list of its entries.
* `Catalogue.lookups_last`: what is found, by the features and whatever the order of the entries.
-/

namespace Vintage

/-! ## Longest prefixes -/

/-- The text starts with `k`. -/
def Starts (k text : String) : Prop := k.toList <+: text.toList

theorem Starts.length_le {k text : String} (h : Starts k text) : k.length ≤ text.length := by
  rw [← String.length_toList, ← String.length_toList]
  exact List.IsPrefix.length_le h

/-- A text starts with one text of each length at most. -/
theorem Starts.eq_of_length {k k' text : String} (h : Starts k text) (h' : Starts k' text)
    (hlength : k.length = k'.length) : k = k' := by
  rw [← String.length_toList, ← String.length_toList] at hlength
  have hstarts := List.prefix_of_prefix_length_le h h' (Nat.le_of_eq hlength)
  exact String.toList_inj.1 (hstarts.eq_of_length hlength)

/-- `x` is the last element of the list that has the property. -/
def LastWith {α : Type} (p : α → Prop) (xs : List α) (x : α) : Prop :=
  ∃ before after, xs = before ++ x :: after ∧ p x ∧ ∀ y ∈ after, ¬ p y

namespace LastWith

variable {α : Type} {p q : α → Prop} {xs : List α} {x : α}

theorem mem (h : LastWith p xs x) : x ∈ xs := by
  obtain ⟨before, after, rfl, -, -⟩ := h
  exact List.mem_append_right _ List.mem_cons_self

theorem prop (h : LastWith p xs x) : p x := by
  obtain ⟨-, -, -, hx, -⟩ := h
  exact hx

theorem not_nil : ¬ LastWith p [] x := fun h => List.not_mem_nil h.mem

theorem cons_iff {a : α} :
    LastWith p (a :: xs) x ↔ LastWith p xs x ∨ x = a ∧ p a ∧ ∀ y ∈ xs, ¬ p y := by
  constructor
  · rintro ⟨before, after, hxs, hx, hnone⟩
    cases before with
    | nil =>
      obtain ⟨rfl, rfl⟩ := List.cons.inj hxs
      exact Or.inr ⟨rfl, hx, hnone⟩
    | cons b before => exact Or.inl ⟨before, after, (List.cons.inj hxs).2, hx, hnone⟩
  · rintro (⟨before, after, rfl, hx, hnone⟩ | ⟨rfl, hx, hnone⟩)
    · exact ⟨a :: before, after, rfl, hx, hnone⟩
    · exact ⟨[], xs, rfl, hx, hnone⟩

theorem imp_of_mem (hpq : ∀ y ∈ xs, p y ↔ q y) (h : LastWith p xs x) : LastWith q xs x := by
  obtain ⟨before, after, rfl, hx, hnone⟩ := h
  have hafter := List.forall_mem_cons.1 fun y hy => hpq y (List.mem_append_right _ hy)
  exact ⟨before, after, rfl, hafter.1.1 hx, fun y hy hq => hnone y hy ((hafter.2 y hy).2 hq)⟩

theorem congr (hpq : ∀ y ∈ xs, p y ↔ q y) : LastWith p xs x ↔ LastWith q xs x :=
  ⟨imp_of_mem hpq, imp_of_mem fun y hy => (hpq y hy).symm⟩

theorem of_filter {keep : α → Bool} (h : LastWith p (xs.filter keep) x) :
    LastWith (fun y => keep y = true ∧ p y) xs x := by
  obtain ⟨before, after, hfilter, hx, hnone⟩ := h
  obtain ⟨front, back, rfl, -, hback⟩ := List.filter_eq_append_iff.1 hfilter
  obtain ⟨skipped, rest, rfl, -, hkeep, rfl⟩ := List.filter_eq_cons_iff.1 hback
  refine ⟨front ++ skipped, rest, by rw [List.append_assoc], ⟨hkeep, hx⟩, ?_⟩
  rintro y hy ⟨hkept, hp⟩
  exact hnone y (List.mem_filter.2 ⟨hy, hkept⟩) hp

end LastWith

namespace Catalogue

/-- The longer of two entries is at least as long as both. -/
theorem length_le_longer_iff (a b : String × Feature) (n : Nat) :
    (longer a b).1.length ≤ n ↔ a.1.length ≤ n ∧ b.1.length ≤ n := by
  unfold longer
  split <;> omega

/-- Going through entries and keeping the longer one finds the last of the longest. -/
theorem foldl_longer_last (e : String × Feature) (rest : List (String × Feature)) :
    LastWith (fun x => ∀ y ∈ e :: rest, y.1.length ≤ x.1.length) (e :: rest)
      (rest.foldl longer e) := by
  induction rest generalizing e with
  | nil => exact ⟨[], [], rfl, by simp, by simp⟩
  | cons next rest ih =>
    have hlongest (x : String × Feature) :
        (∀ y ∈ longer e next :: rest, y.1.length ≤ x.1.length) ↔
          ∀ y ∈ e :: next :: rest, y.1.length ≤ x.1.length := by
      simp only [List.forall_mem_cons, length_le_longer_iff, and_assoc]
    have hlast := (LastWith.congr fun x _ => hlongest x).1 (ih (longer e next))
    rw [LastWith.cons_iff] at hlast
    rw [List.foldl_cons, LastWith.cons_iff, LastWith.cons_iff]
    rcases hlast with hlater | ⟨hfirst, hx, hnone⟩
    · exact Or.inl (Or.inl hlater)
    · rw [hfirst]
      by_cases hlt : next.1.length < e.1.length
      · rw [longer, if_pos hlt] at hx ⊢
        refine Or.inr ⟨rfl, hx, List.forall_mem_cons.2 ⟨?_, hnone⟩⟩
        intro hnext
        exact Nat.not_le_of_lt hlt (hnext e List.mem_cons_self)
      · rw [longer, if_neg hlt] at hx ⊢
        exact Or.inl (Or.inr ⟨rfl, hx, hnone⟩)

/-! ## The map of a catalogue -/

/-- The feature that the catalogue has at a key. -/
def atKey (c : Catalogue) (k : String) : Option Feature := c.entries.reverse.lookup k

theorem find?_eq_atKey (c : Catalogue) (name : String) : c.find? name = c.atKey (keyOf name) := rfl

/-- At a key there is the feature of the last entry that has it. -/
theorem atKey_eq_some_iff {c : Catalogue} {k : String} {f : Feature} :
    c.atKey k = some f ↔ LastWith (fun e => e.1 = k) c.entries (k, f) := by
  rw [atKey, List.lookup_eq_some_iff]
  constructor
  · rintro ⟨after, before, hentries, hnone⟩
    refine ⟨before.reverse, after.reverse, ?_, rfl, fun e he => ?_⟩
    · rw [← List.reverse_inj, hentries]
      simp
    · exact Ne.symm (bne_iff_ne.1 (hnone e (List.mem_reverse.1 he)))
  · rintro ⟨before, after, hentries, -, hnone⟩
    refine ⟨after.reverse, before.reverse, by simp [hentries], fun e he => ?_⟩
    exact bne_iff_ne.2 (Ne.symm (hnone e (List.mem_reverse.1 he)))

theorem atKey_ne_none_iff {c : Catalogue} {k : String} :
    c.atKey k ≠ none ↔ ∃ e ∈ c.entries, e.1 = k := by
  rw [← Option.isSome_iff_ne_none, atKey, List.lookup_isSome_iff]
  simp only [List.mem_reverse, beq_iff_eq, eq_comm (a := k)]

/-- `k` is the longest key of the catalogue that the text starts with. -/
structure IsLongestKey (c : Catalogue) (text k : String) : Prop where
  present : c.atKey k ≠ none
  starts : Starts k text
  longest : ∀ k', c.atKey k' ≠ none → Starts k' text → k'.length ≤ k.length

theorem IsLongestKey.unique {c : Catalogue} {text k k' : String} (h : c.IsLongestKey text k)
    (h' : c.IsLongestKey text k') : k = k' := by
  have hle := h'.longest k h.present h.starts
  have hge := h.longest k' h'.present h'.starts
  exact h.starts.eq_of_length h'.starts (Nat.le_antisymm hle hge)

theorem findPrefix?_eq_none_iff {c : Catalogue} {name : String} :
    c.findPrefix? name = none ↔ ∀ k, c.atKey k ≠ none → ¬ Starts k (keyOf name) := by
  have hempty : c.findPrefix? name = none ↔
      c.entries.filter (fun e => e.1.toList.isPrefixOf (keyOf name).toList) = [] := by
    unfold findPrefix?
    simp only
    split
    · rename_i hnil
      exact ⟨fun _ => hnil, fun _ => rfl⟩
    · rename_i hcons
      rw [hcons]
      exact ⟨nofun, nofun⟩
  rw [hempty, List.filter_eq_nil_iff]
  simp only [atKey_ne_none_iff, List.isPrefixOf_iff_prefix]
  constructor
  · rintro h _ ⟨e, he, rfl⟩
    exact h e he
  · exact fun h e he => h e.1 ⟨e, he, rfl⟩

theorem exists_of_findPrefix? {c : Catalogue} {name : String} {f : Feature}
    (h : c.findPrefix? name = some f) :
    ∃ k, c.IsLongestKey (keyOf name) k ∧ c.atKey k = some f := by
  unfold findPrefix? at h
  simp only at h
  split at h
  · cases h
  · rename_i e rest hfilter
    cases h
    have hlast := foldl_longer_last e rest
    rw [← hfilter] at hlast
    generalize rest.foldl longer e = x at hlast
    have hkeep := hlast.of_filter
    obtain ⟨hstarts, hlongest⟩ := hkeep.prop
    simp only [List.mem_filter, List.isPrefixOf_iff_prefix] at hkeep hstarts hlongest
    have hmem := hkeep.mem
    -- an entry is one of the longest if and only if it has the key of the last of them
    have hkey : LastWith (fun y => y.1 = x.1) c.entries x := by
      refine hkeep.imp_of_mem fun y hy => ⟨?_, fun hyx => ?_⟩
      · rintro ⟨hy', hall⟩
        have hle := hlongest y ⟨hy, hy'⟩
        exact Starts.eq_of_length hy' hstarts (Nat.le_antisymm hle (hall x ⟨hmem, hstarts⟩))
      · rw [hyx]
        exact ⟨hstarts, hlongest⟩
    have hat : c.atKey x.1 = some x.2 := atKey_eq_some_iff.2 hkey
    refine ⟨x.1, ⟨by rw [hat]; exact Option.some_ne_none _, hstarts, ?_⟩, hat⟩
    intro k' hk' hstarts'
    obtain ⟨e', he', rfl⟩ := atKey_ne_none_iff.1 hk'
    exact hlongest e' ⟨he', hstarts'⟩

/-- A look-up by prefix finds what the catalogue has at the longest key that the text starts
with. -/
theorem findPrefix?_eq_some_iff {c : Catalogue} {name : String} {f : Feature} :
    c.findPrefix? name = some f ↔ ∃ k, c.IsLongestKey (keyOf name) k ∧ c.atKey k = some f := by
  refine ⟨exists_of_findPrefix?, ?_⟩
  rintro ⟨k, hk, hat⟩
  cases hfind : c.findPrefix? name with
  | none => exact absurd hk.starts (findPrefix?_eq_none_iff.1 hfind k hk.present)
  | some g =>
    obtain ⟨k', hk', hat'⟩ := exists_of_findPrefix? hfind
    rw [hk'.unique hk, hat] at hat'
    exact hat'.symm

section Congr

variable {c c' : Catalogue} (h : ∀ k, c.atKey k = c'.atKey k) (name : String)
include h

theorem find?_congr : c.find? name = c'.find? name := h (keyOf name)

theorem findPrefix?_congr : c.findPrefix? name = c'.findPrefix? name := by
  have hlongest (k : String) : c.IsLongestKey (keyOf name) k ↔ c'.IsLongestKey (keyOf name) k := by
    constructor
    · rintro ⟨hpresent, hstarts, hlongest⟩
      exact ⟨h k ▸ hpresent, hstarts, fun k' hk' => hlongest k' (h k' ▸ hk')⟩
    · rintro ⟨hpresent, hstarts, hlongest⟩
      exact ⟨h k ▸ hpresent, hstarts, fun k' hk' => hlongest k' (h k' ▸ hk')⟩
  apply Option.ext
  intro f
  simp only [findPrefix?_eq_some_iff, hlongest, h]

end Congr

/-- What is found at a name is found by prefix too: no longer key starts the name. -/
theorem findPrefix?_of_find? {c : Catalogue} {name : String} {f : Feature}
    (h : c.find? name = some f) : c.findPrefix? name = some f := by
  rw [find?_eq_atKey] at h
  refine findPrefix?_eq_some_iff.2 ⟨keyOf name, ⟨?_, List.prefix_refl _, ?_⟩, h⟩
  · rw [h]
    exact Option.some_ne_none f
  · exact fun k' _ hstarts => hstarts.length_le

/-! ## Features and entries -/

theorem atKey_ofFeatures {features : List Feature} {k : String} {f : Feature} :
    (ofFeatures features).atKey k = some f ↔
      LastWith (fun g => Text.lower g.name = k) features f := by
  rw [atKey_eq_some_iff, ofFeatures]
  constructor
  · rintro ⟨before, after, hentries, -, hnone⟩
    obtain ⟨front, back, rfl, -, hback⟩ := List.map_eq_append_iff.1 hentries
    obtain ⟨g, rest, rfl, hg, rfl⟩ := List.map_eq_cons_iff.1 hback
    obtain ⟨hname, rfl⟩ := Prod.mk.inj hg
    exact ⟨front, rest, rfl, hname, fun y hy => hnone _ (List.mem_map_of_mem hy)⟩
  · rintro ⟨before, after, rfl, hname, hnone⟩
    refine ⟨_, _, by rw [List.map_append, List.map_cons, hname], rfl, fun e he => ?_⟩
    obtain ⟨g, hg, rfl⟩ := List.mem_map.1 he
    exact hnone g hg

/-- The entries of the map from the names of features, in lower case, to the last feature of each
name; they come in any order. -/
structure Lists (order : List (String × Feature)) (features : List Feature) : Prop where
  nodup : (order.map Prod.fst).Nodup
  mem_iff : ∀ k f, (k, f) ∈ order ↔ LastWith (fun g => Text.lower g.name = k) features f

/-- Where each key has one entry, that entry is what is found at the key. -/
theorem atKey_eq_some_iff_mem {order : List (String × Feature)} (h : (order.map Prod.fst).Nodup)
    {k : String} {f : Feature} : (mk order).atKey k = some f ↔ (k, f) ∈ order := by
  rw [atKey_eq_some_iff]
  refine ⟨LastWith.mem, fun hmem => ?_⟩
  obtain ⟨before, after, rfl⟩ := List.append_of_mem hmem
  refine ⟨before, after, rfl, rfl, fun e he hek => ?_⟩
  rw [List.map_append, List.map_cons] at h
  have hafter := (List.nodup_cons.1 (List.nodup_append.1 h).2.1).1
  exact hafter (List.mem_map.2 ⟨e, he, hek⟩)

theorem Lists.atKey {order : List (String × Feature)} {features : List Feature}
    (h : Lists order features) (k : String) :
    (Catalogue.mk order).atKey k = (ofFeatures features).atKey k := by
  apply Option.ext
  intro f
  rw [atKey_eq_some_iff_mem h.nodup, h.mem_iff, atKey_ofFeatures]

theorem atKey_ofFeatures_ne_none_iff {features : List Feature} {k : String} :
    (ofFeatures features).atKey k ≠ none ↔ ∃ g ∈ features, Text.lower g.name = k := by
  simp [atKey_ne_none_iff, ofFeatures]

/-! ## What is found -/

/-- The name of the feature, in lower case, starts the text, and no longer name of a feature
does. -/
def LongestNamed (features : List Feature) (text : String) (f : Feature) : Prop :=
  Starts (Text.lower f.name) text ∧ ∀ g ∈ features, Starts (Text.lower g.name) text →
    (Text.lower g.name).length ≤ (Text.lower f.name).length

theorem LongestNamed.isLongestKey {features : List Feature} {text : String} {f : Feature}
    (h : LongestNamed features text f) (hf : f ∈ features) :
    (ofFeatures features).IsLongestKey text (Text.lower f.name) where
  present := atKey_ofFeatures_ne_none_iff.2 ⟨f, hf, rfl⟩
  starts := h.1
  longest k hk hstarts := by
    obtain ⟨g, hg, rfl⟩ := atKey_ofFeatures_ne_none_iff.1 hk
    exact h.2 g hg hstarts

theorem IsLongestKey.longestNamed_iff {features : List Feature} {text k : String}
    (h : (ofFeatures features).IsLongestKey text k) {f : Feature} (hf : f ∈ features) :
    LongestNamed features text f ↔ Text.lower f.name = k := by
  constructor
  · exact fun hlongest => (hlongest.isLongestKey hf).unique h
  · rintro rfl
    refine ⟨h.starts, fun g hg hstarts => ?_⟩
    exact h.longest _ (atKey_ofFeatures_ne_none_iff.2 ⟨g, hg, rfl⟩) hstarts

theorem findPrefix?_ofFeatures {features : List Feature} {name : String} {f : Feature} :
    (ofFeatures features).findPrefix? name = some f ↔
      LastWith (LongestNamed features (keyOf name)) features f := by
  rw [findPrefix?_eq_some_iff]
  constructor
  · rintro ⟨k, hk, hat⟩
    exact (LastWith.congr fun g hg => hk.longestNamed_iff hg).2 (atKey_ofFeatures.1 hat)
  · intro h
    have hk := h.prop.isLongestKey h.mem
    exact ⟨_, hk, atKey_ofFeatures.2 ((LastWith.congr fun g hg => hk.longestNamed_iff hg).1 h)⟩

/-- A look-up finds the last feature of the name, with backslashes before the name looked up and the
case of ASCII letters ignored. A look-up by prefix finds the last feature with the longest name that
starts the name looked up; that is the feature of the name, if there is one. The order in which the
map of names to features is gone through does not matter. -/
theorem lookups_last (features : List Feature) (name : String) :
    let c := ofFeatures features
    (∀ f, c.find? name = some f ↔
      LastWith (fun g => Text.lower g.name = keyOf name) features f) ∧
    (c.find? name = none ↔ ∀ g ∈ features, Text.lower g.name ≠ keyOf name) ∧
    (∀ f, c.findPrefix? name = some f ↔
      LastWith (LongestNamed features (keyOf name)) features f) ∧
    (c.findPrefix? name = none ↔ ∀ g ∈ features, ¬ Starts (Text.lower g.name) (keyOf name)) ∧
    (∀ f, c.find? name = some f → c.findPrefix? name = some f) ∧
    ∀ order, Lists order features →
      (mk order).find? name = c.find? name ∧ (mk order).findPrefix? name = c.findPrefix? name := by
  intro c
  refine ⟨fun f => atKey_ofFeatures, ?_, fun f => findPrefix?_ofFeatures, ?_,
    fun f => findPrefix?_of_find?, fun order h => ?_⟩
  · rw [find?_eq_atKey, ← not_iff_not, ← Ne, atKey_ofFeatures_ne_none_iff]
    simp
  · rw [findPrefix?_eq_none_iff]
    simp only [c, atKey_ofFeatures_ne_none_iff]
    constructor
    · exact fun h g hg => h _ ⟨g, hg, rfl⟩
    · rintro h _ ⟨g, hg, rfl⟩
      exact h g hg
  · exact ⟨find?_congr h.atKey name, findPrefix?_congr h.atKey name⟩

/-- Two features of one name and one with a longer name. The map has the second and the third, and
may be gone through from the longer name to the shorter one. -/
theorem lookups_last_mysql :
    let f : Feature := { name := "mysql_", facts := [⟨⟨5, 5, none⟩, .deprecated⟩] }
    let g : Feature := { name := "MySQL_", facts := [⟨⟨7, 0, none⟩, .removed⟩] }
    let h : Feature := { name := "mysqli_embedded_", facts := [⟨⟨7, 4, none⟩, .removed⟩] }
    let order := [("mysqli_embedded_", h), ("mysql_", g)]
    Lists order [f, g, h] ∧
      (mk order).findPrefix? "\\MYSQL_Query" = some g ∧
      (mk order).find? "\\MYSQL_Query" = none := by
  intro f g h order
  have hf : Text.lower f.name = "mysql_" := by decide
  have hg : Text.lower g.name = "mysql_" := by decide
  have hh : Text.lower h.name = "mysqli_embedded_" := by decide
  have horder : Lists order [f, g, h] := by
    refine ⟨by decide, fun k x => ?_⟩
    simp only [order, LastWith.cons_iff, LastWith.not_nil, List.mem_cons, List.not_mem_nil,
      Prod.mk.injEq, or_false, false_or, forall_eq_or_imp, forall_eq, hf, hg, hh]
    constructor
    · rintro (⟨rfl, rfl⟩ | ⟨rfl, rfl⟩) <;> simp
    · rintro ((⟨rfl, rfl, -⟩ | ⟨rfl, rfl, -⟩) | ⟨-, rfl, hne, -⟩)
      · exact Or.inl ⟨rfl, rfl⟩
      · exact Or.inr ⟨rfl, rfl⟩
      · exact absurd rfl hne
  have hkey : keyOf "\\MYSQL_Query" = "mysql_query" := by decide
  have hstarts : Starts "mysql_" "mysql_query" := ⟨"query".toList, by decide⟩
  have hlonger : ¬ Starts "mysqli_embedded_" "mysql_query" :=
    fun hstarts => absurd hstarts.length_le (by decide)
  obtain ⟨-, hnone, hlongest, -, -, hany⟩ := lookups_last [f, g, h] "\\MYSQL_Query"
  obtain ⟨hsame, hsame'⟩ := hany order horder
  refine ⟨horder, ?_, ?_⟩
  · rw [hsame', hlongest, hkey]
    refine ⟨[f], [h], rfl, ⟨by rw [hg]; exact hstarts, ?_⟩, ?_⟩
    · simp [hf, hg, hh, hlonger]
    · simp [LongestNamed, hh, hlonger]
  · rw [hsame, hnone]
    decide

end Catalogue

end Vintage
