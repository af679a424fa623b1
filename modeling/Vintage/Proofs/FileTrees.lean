import Mathlib.Data.List.Infix
import Vintage.FileTree

/-!
# Files below a directory

A tree of files lists what is at which place. Everything in it has a proper name, and nothing is
below a file. The files that the tree lists below a directory are then those that paths lead to: a
path to the directory with names behind it leads to a file if and only if the tree has a file at
these names below the directory.

Results:
* `FileTree.foldlM_step_eq_ok_iff`: where names lead from a place.
* `FileTree.resolve_join`: where a path with names behind it leads.
* `FileTree.mem_filesBelow_iff`: the files below a directory, by their paths.
-/

namespace Vintage

/-! ## Names -/

/-- A proper name is a step of its own. -/
theorem IsFileName.ofPiece? {name : String} (h : IsFileName name) :
    Path.Component.ofPiece? name = some (.normal name) := by
  obtain ⟨hempty, hdot, hdots, -⟩ := h
  simp [Path.Component.ofPiece?, hempty, hdot, hdots]

/-- Names go behind the pieces of a path; a slash at the end of the path gives way to them. -/
theorem Path.join_cases (path : Path) (names : List String) :
    (∃ base, path.pieces = base ++ [""] ∧
        path.join ⟨false, names⟩ = ⟨path.absolute, base ++ names⟩) ∨
      path.join ⟨false, names⟩ = ⟨path.absolute, path.pieces ++ names⟩ := by
  unfold Path.join
  rw [if_neg Bool.false_ne_true]
  split
  · rename_i hlast
    obtain ⟨base, hpieces⟩ := List.getLast?_eq_some_iff.1 hlast
    rw [hpieces, List.dropLast_concat]
    exact Or.inl ⟨base, rfl, rfl⟩
  · exact Or.inr rfl

namespace FileTree

/-- The path leads to a file. -/
def isFile (tree : FileTree) (origin : FilePlace) (path : Path) : Bool :=
  match tree.find origin path with
  | .ok node => node.isFile
  | .error _ => false

/-- The path leads to a directory. -/
def isDirectory (tree : FileTree) (origin : FilePlace) (path : Path) : Bool :=
  match tree.find origin path with
  | .ok node => !node.isFile
  | .error _ => false

theorem above_iff {a b : FilePlace} : a.above b = true ↔ ∃ names, names ≠ [] ∧ b = a ++ names := by
  rw [FilePlace.above, Bool.and_eq_true, decide_eq_true_eq, List.isPrefixOf_iff_prefix]
  constructor
  · rintro ⟨hlt, names, rfl⟩
    refine ⟨names, ?_, rfl⟩
    rintro rfl
    simp at hlt
  · rintro ⟨names, hne, rfl⟩
    have := List.length_pos_of_ne_nil hne
    exact ⟨by simp only [List.length_append]; omega, List.prefix_append a names⟩

variable {tree : FileTree} {origin place : FilePlace} {path : Path} {names : FilePlace}

theorem find_eq_ok_iff {node : Node} :
    tree.find origin path = .ok node ↔
      ∃ place, tree.resolve origin path = .ok place ∧ tree.node? place = some node := by
  unfold find
  cases tree.resolve origin path with
  | error e => simp
  | ok place => cases hnode : tree.node? place <;> simp [hnode]

theorem isFile_iff :
    tree.isFile origin path = true ↔ ∃ bytes, tree.find origin path = .ok (.file bytes) := by
  unfold isFile
  cases tree.find origin path with
  | error e => simp
  | ok node => cases node <;> simp [Node.isFile]

/-! ## Nodes -/

/-- What is at a place is what the tree lists there; without that, at most a directory. -/
theorem node?_cases (tree : FileTree) (place : FilePlace) :
    (∃ e ∈ tree.entries, e.1 = place ∧ tree.node? place = some e.2) ∨
      (∀ e ∈ tree.entries, e.1 ≠ place) ∧ tree.node? place =
        if place.isEmpty || tree.entries.any (fun e => place.above e.1) then some .directory
        else none := by
  unfold node?
  cases hfind : tree.entries.find? fun e => e.1 == place with
  | some e =>
    have hplace := List.find?_some hfind
    exact Or.inl ⟨e, List.mem_of_find?_eq_some hfind, eq_of_beq hplace, rfl⟩
  | none =>
    refine Or.inr ⟨?_, rfl⟩
    rintro e he rfl
    exact absurd (beq_self_eq_true e.1) (List.find?_eq_none.1 hfind e he)

theorem mem_entries_of_node? {bytes : ByteArray} (h : tree.node? place = some (.file bytes)) :
    (place, .file bytes) ∈ tree.entries := by
  rcases node?_cases tree place with ⟨e, he, rfl, hnode⟩ | ⟨-, hnode⟩
  · rw [hnode] at h
    rwa [← Option.some.inj h]
  · rw [hnode] at h
    split at h <;> cases h

/-- What the tree lists as a file is one. -/
theorem node?_of_mem {bytes : ByteArray}
    (hmem : (place, .file bytes) ∈ tree.entries) :
    ∃ bytes, tree.node? place = some (.file bytes) := by
  rcases node?_cases tree place with ⟨⟨_, node⟩, he, rfl, hnode⟩ | ⟨hnone, -⟩
  · have hfile : node.isFile = true := (tree.files _ hmem rfl _ he).2 rfl
    cases node with
    | file bytes => exact ⟨bytes, hnode⟩
    | directory => cases hfile
  · exact absurd rfl (hnone _ hmem)

/-- What has something below is a directory. -/
theorem node?_of_above {node : Node} (hne : names ≠ [])
    (hmem : (place ++ names, node) ∈ tree.entries) : tree.node? place = some .directory := by
  have habove : place.above (place ++ names) = true := above_iff.2 ⟨names, hne, rfl⟩
  rcases node?_cases tree place with ⟨⟨_, node⟩, he, rfl, hnode⟩ | ⟨-, hnode⟩
  · cases node with
    | directory => exact hnode
    | file bytes =>
      have hnothing := (tree.files _ he rfl _ hmem).1
      rw [habove] at hnothing
      cases hnothing
  · have hany : tree.entries.any (fun e => place.above e.1) = true :=
      List.any_eq_true.2 ⟨_, hmem, habove⟩
    rw [hnode, hany, Bool.or_true, if_pos rfl]

/-! ## Following names -/

/-- A step along a proper name leads to this name below the place, if that is a directory. -/
theorem step_eq_ok_iff {name : String} {next : FilePlace} (hname : IsFileName name) :
    tree.step place name = .ok next ↔
      tree.node? place = some .directory ∧ next = place ++ [name] := by
  unfold step
  cases tree.node? place with
  | none => simp
  | some node => cases node <;> simp [hname.ofPiece?, eq_comm]

theorem bind_eq_ok_iff {α β : Type} {x : Except FileError α} {f : α → Except FileError β} {b : β} :
    (x >>= f) = .ok b ↔ ∃ a, x = .ok a ∧ f a = .ok b := by
  cases x with
  | error e => simp [bind, Except.bind]
  | ok a => simp [bind, Except.bind]

/-- Names lead to where they stand below the place, if everything on the way is a directory. -/
theorem foldlM_step_eq_ok_iff (hnames : ∀ name ∈ names, IsFileName name) {next : FilePlace} :
    names.foldlM tree.step place = .ok next ↔ next = place ++ names ∧
      ∀ run, run <+: names → run ≠ names → tree.node? (place ++ run) = some .directory := by
  induction names generalizing place with
  | nil =>
    simp [pure, Except.pure, eq_comm]
  | cons name names ih =>
    obtain ⟨hname, hnames⟩ := List.forall_mem_cons.1 hnames
    rw [List.foldlM_cons, bind_eq_ok_iff]
    simp only [step_eq_ok_iff hname, ih hnames]
    constructor
    · rintro ⟨_, ⟨hplace, rfl⟩, rfl, hway⟩
      refine ⟨List.append_assoc place [name] names, ?_⟩
      intro run hrun hne
      rcases List.prefix_cons_iff.1 hrun with rfl | ⟨rest, rfl, hrest⟩
      · rwa [List.append_nil]
      · rw [← List.singleton_append, ← List.append_assoc]
        exact hway rest hrest fun hsame => hne (congrArg (name :: ·) hsame)
    · rintro ⟨rfl, hway⟩
      refine ⟨place ++ [name], ⟨?_, rfl⟩, (List.append_assoc place [name] names).symm, ?_⟩
      · have hplace := hway [] List.nil_prefix (List.cons_ne_nil name names).symm
        rwa [List.append_nil] at hplace
      · intro run hrun hne
        rw [List.append_assoc]
        exact hway (name :: run) (List.cons_prefix_cons.2 ⟨rfl, hrun⟩)
          fun hsame => hne (List.cons.inj hsame).2

/-- An empty piece, as a slash at the end makes one, is no step. -/
theorem eq_of_step_empty {next : FilePlace} (h : tree.step place "" = .ok next) : next = place := by
  unfold step at h
  cases hnode : tree.node? place with
  | none =>
    rw [hnode] at h
    cases h
  | some node =>
    rw [hnode] at h
    cases node with
    | file bytes => cases h
    | directory => exact (Except.ok.inj h).symm

theorem resolve_append (hne : names ≠ []) (hnames : ∀ name ∈ names, IsFileName name)
    (absolute : Bool) (base : List String) :
    tree.resolve origin ⟨absolute, base ++ names⟩ =
      base.foldlM tree.step (if absolute then [] else origin) >>= names.foldlM tree.step := by
  have hguard : (!absolute && base ++ names == [""]) = false := by
    rw [Bool.and_eq_false_iff, beq_eq_false_iff_ne]
    refine Or.inr fun hempty => ?_
    obtain ⟨name, hname⟩ := List.exists_mem_of_ne_nil names hne
    have hmem : name ∈ base ++ names := List.mem_append_right base hname
    rw [hempty, List.mem_singleton] at hmem
    exact (hnames name hname).1 hmem
  unfold resolve
  rw [hguard, if_neg Bool.false_ne_true, List.foldlM_append]

/-- A path to a directory with names behind it leads to where the names lead from the directory. -/
theorem resolve_join (hpath : tree.resolve origin path = .ok place) (hne : names ≠ [])
    (hnames : ∀ name ∈ names, IsFileName name) :
    tree.resolve origin (path.join ⟨false, names⟩) = names.foldlM tree.step place := by
  have hpieces : path.pieces.foldlM tree.step (if path.absolute then [] else origin) = .ok place := by
    unfold resolve at hpath
    split at hpath
    · cases hpath
    · exact hpath
  rcases Path.join_cases path names with ⟨base, hbase, hjoin⟩ | hjoin
  · rw [hbase, List.foldlM_append, bind_eq_ok_iff] at hpieces
    obtain ⟨before, hbefore, hlast⟩ := hpieces
    rw [List.foldlM_cons, bind_eq_ok_iff] at hlast
    obtain ⟨last, hstep, hlast⟩ := hlast
    obtain rfl : last = place := Except.ok.inj hlast
    rw [hjoin, resolve_append hne hnames, hbefore, eq_of_step_empty hstep]
    rfl
  · rw [hjoin, resolve_append hne hnames, hpieces]
    rfl

/-! ## Files below a directory -/

theorem mem_filesBelow :
    names ∈ tree.filesBelow place ↔
      names ≠ [] ∧ ∃ bytes, (place ++ names, .file bytes) ∈ tree.entries := by
  unfold filesBelow
  rw [List.mem_filterMap]
  constructor
  · rintro ⟨⟨whole, node⟩, hmem, hnames⟩
    cases node with
    | directory => cases hnames
    | file bytes =>
      obtain ⟨habove, hdrop⟩ := Option.ite_none_right_eq_some.1 hnames
      obtain ⟨rest, hne, rfl⟩ := above_iff.1 habove
      rw [List.drop_left, Option.some.injEq] at hdrop
      exact hdrop ▸ ⟨hne, bytes, hmem⟩
  · rintro ⟨hne, bytes, hmem⟩
    have habove : place.above (place ++ names) = true := above_iff.2 ⟨names, hne, rfl⟩
    refine ⟨_, hmem, ?_⟩
    show (if place.above (place ++ names) then some ((place ++ names).drop place.length)
      else none) = some names
    rw [if_pos habove, List.drop_left]

/-- A file is below a directory if and only if a path to the directory with the names of the file
behind it leads to a file. -/
theorem mem_filesBelow_iff (hpath : tree.resolve origin path = .ok place) :
    names ∈ tree.filesBelow place ↔ names ≠ [] ∧ (∀ name ∈ names, IsFileName name) ∧
      tree.isFile origin (path.join ⟨false, names⟩) = true := by
  rw [mem_filesBelow, isFile_iff]
  constructor
  · rintro ⟨hne, bytes, hmem⟩
    have hnames : ∀ name ∈ names, IsFileName name :=
      fun name hname => tree.names _ hmem name (List.mem_append_right place hname)
    have hway : ∀ run, run <+: names → run ≠ names →
        tree.node? (place ++ run) = some .directory := by
      rintro run ⟨rest, rfl⟩ hrun
      have hrest : rest ≠ [] := by
        rintro rfl
        exact hrun (List.append_nil run).symm
      rw [← List.append_assoc] at hmem
      exact node?_of_above hrest hmem
    obtain ⟨bytes, hnode⟩ := node?_of_mem hmem
    refine ⟨hne, hnames, bytes, find_eq_ok_iff.2 ⟨place ++ names, ?_, hnode⟩⟩
    rw [resolve_join hpath hne hnames]
    exact (foldlM_step_eq_ok_iff hnames).2 ⟨rfl, hway⟩
  · rintro ⟨hne, hnames, bytes, hfind⟩
    obtain ⟨next, hnext, hnode⟩ := find_eq_ok_iff.1 hfind
    rw [resolve_join hpath hne hnames, foldlM_step_eq_ok_iff hnames] at hnext
    obtain ⟨rfl, -⟩ := hnext
    exact ⟨hne, bytes, mem_entries_of_node? hnode⟩

end FileTree

end Vintage
