import Mathlib.Data.List.TakeWhile
import Vintage.Proofs.FileTrees
import Vintage.Proofs.LetterCase
import Vintage.Proofs.PathOrder

/-!
# The files that paths stand for

A path to a file stands for the file, whatever its name. A path to a directory stands for the files
below it that have the name of a PHP file and are not left out. Whether a file is left out depends
on the names that lead to it from this directory and on nothing above; so a file can be left out
below one directory and be found below another, or be named by itself. Files that are found on
several ways are collected once, in the order of their paths.

Results:
* `Collection.isPhpName_iff`: the names of PHP files.
* `Settings.excludesBy_iff`: the files that are left out.
* `Collection.mem_filesOf?_iff`: the files that one path stands for.
* `Collection.ofPaths_exact`: the files that paths stand for, and the paths that lead nowhere.
-/

namespace Vintage

/-! ## Names of PHP files -/

namespace Path

theorem forall_bne_dot {cs : List Char} (h : '.' ∉ cs) : ∀ c ∈ cs.reverse, (c != '.') = true := by
  intro c hc
  rw [bne_iff_ne]
  rintro rfl
  exact h (List.mem_reverse.1 hc)

theorem extension?_of_not_mem {name : String} (h : '.' ∉ name.toList) : extension? name = none := by
  unfold extension?
  simp only [List.dropWhile_eq_nil_iff.2 (forall_bne_dot h)]

/-- The extension is what stands behind the last dot, if something stands before it. -/
theorem extension?_append {stem ext : String} (hext : '.' ∉ ext.toList) :
    extension? (stem ++ "." ++ ext) =
      if stem = "" ∨ stem ++ "." ++ ext = ".." then none else some ext := by
  have hback : (stem ++ "." ++ ext).toList.reverse =
      ext.toList.reverse ++ '.' :: stem.toList.reverse := by
    simp
  have hplain := forall_bne_dot hext
  unfold extension?
  simp only [hback, List.dropWhile_append_of_pos hplain, List.takeWhile_append_of_pos hplain]
  rw [List.dropWhile_cons_of_neg (by decide), List.takeWhile_cons_of_neg (by decide)]
  by_cases hstem : stem = ""
  · subst hstem
    rfl
  · have hbefore : stem.toList.reverse ≠ [] := by simpa using hstem
    split
    · rename_i hnil
      cases hnil
    · rename_i hdot
      exact absurd (List.cons.inj hdot).2 hbefore
    · simp only [List.append_nil, List.reverse_reverse, String.ofList_toList, hstem, false_or]

theorem exists_of_extension? {name ext : String} (h : extension? name = some ext) :
    ∃ stem, stem ≠ "" ∧ name = stem ++ "." ++ ext := by
  have hdot : '.' ∈ name.toList.reverse := by
    by_contra hdot
    rw [extension?_of_not_mem fun hmem => hdot (List.mem_reverse.2 hmem)] at h
    cases h
  obtain ⟨after, before, hback, hafter⟩ := List.eq_append_cons_of_mem hdot
  have hname : name = String.ofList before.reverse ++ "." ++ String.ofList after.reverse := by
    rw [← String.toList_inj, ← List.reverse_inj, hback]
    simp
  rw [hname, extension?_append (by simpa using hafter), Option.ite_none_left_eq_some] at h
  obtain ⟨hstem, hext⟩ := h
  exact ⟨_, fun hempty => hstem (Or.inl hempty), Option.some.inj hext ▸ hname⟩

end Path

namespace Collection

/-- The name ends with a dot and one of the extensions of PHP files, in capital letters or small
ones. The dot is not at its start. -/
def HasPhpExtension (name : String) : Prop :=
  ∃ stem ext : String, stem ≠ "" ∧ name = stem ++ "." ++ ext ∧
    Text.lower ext ∈ ["php", "inc", "phtml"]

/-- An extension of PHP files is not empty and has no dot in it. -/
theorem ne_empty_of_lower_mem {ext : String} (h : Text.lower ext ∈ ["php", "inc", "phtml"]) :
    ext ≠ "" ∧ '.' ∉ ext.toList := by
  constructor
  · rintro rfl
    revert h
    decide
  · intro hdot
    have hlower : '.' ∈ (Text.lower ext).toList := by
      rw [Text.toList_lower]
      exact List.mem_map.2 ⟨'.', hdot, by decide⟩
    have hnone : ∀ s ∈ ["php", "inc", "phtml"], '.' ∉ s.toList := by decide
    exact hnone _ h hlower

theorem isPhpName_iff (name : String) : isPhpName name = true ↔ HasPhpExtension name := by
  have hsame (ext : String) :
      extensions.any (Text.sameLetters ext) = true ↔ Text.lower ext ∈ ["php", "inc", "phtml"] := by
    have hlower : extensions.map Text.lower = ["php", "inc", "phtml"] := by decide
    rw [← hlower, List.any_eq_true, List.mem_map]
    simp only [Text.sameLetters_iff]
    exact exists_congr fun known => and_congr_right fun _ => eq_comm
  rw [isPhpName, Option.any_eq_true]
  constructor
  · rintro ⟨ext, hext, hphp⟩
    obtain ⟨stem, hstem, hname⟩ := Path.exists_of_extension? hext
    exact ⟨stem, ext, hstem, hname, (hsame ext).1 hphp⟩
  · rintro ⟨stem, ext, hstem, rfl, hphp⟩
    obtain ⟨hext, hdot⟩ := ne_empty_of_lower_mem hphp
    have hdots : stem ++ "." ++ ext ≠ ".." := by
      intro hname
      have hlength := congrArg (fun s => s.toList.length) hname
      have hstem' : stem.toList ≠ [] := by simpa using hstem
      have hext' : ext.toList ≠ [] := by simpa using hext
      have := List.length_pos_of_ne_nil hstem'
      have := List.length_pos_of_ne_nil hext'
      simp only [String.toList_append, List.length_append] at hlength
      change stem.toList.length + 1 + ext.toList.length = 2 at hlength
      omega
    refine ⟨ext, ?_, (hsame ext).2 hphp⟩
    rw [Path.extension?_append hdot, if_neg (by simp [hstem, hdots])]

end Collection

/-! ## Files that are left out -/

namespace Path

variable {names : FilePlace}

theorem components_names (hnames : ∀ name ∈ names, IsFileName name) :
    (Path.mk false names).components = names.map Component.normal := by
  have hpieces : names.filterMap Component.ofPiece? = names.map Component.normal := by
    rw [← List.filterMap_eq_map]
    refine List.filterMap_congr ?_
    intro name hname
    rw [(hnames name hname).ofPiece?, Function.comp_apply]
  unfold components
  split
  · cases ‹_›
  · rename_i hdot
    have hmem : "." ∈ names := List.mem_of_mem_head? (congrArg List.head? hdot)
    exact absurd rfl (hnames "." hmem).2.1
  · exact hpieces

theorem directories_names (hnames : ∀ name ∈ names, IsFileName name) :
    (Path.mk false names).directories.map Component.text = names.dropLast := by
  have htext : Component.text ∘ Component.normal = id := rfl
  unfold directories
  rw [components_names hnames, List.getLast?_map]
  split
  · rename_i hroot
    obtain ⟨name, -, hname⟩ := Option.map_eq_some_iff.1 hroot
    cases hname
  · rw [← List.map_dropLast, List.map_map, htext, List.map_id]

theorem fileName?_names (hnames : ∀ name ∈ names, IsFileName name) :
    (Path.mk false names).fileName? = names.getLast? := by
  unfold fileName?
  rw [components_names hnames, List.getLast?_map]
  cases names.getLast? <;> rfl

end Path

namespace Settings

/-- The file with the given names below a directory is left out. `covers` says which texts a pattern
is for. -/
inductive LeavesOut (covers : String → String → Bool) (s : Settings) (names : FilePlace) : Prop
  /-- it belongs to a package of other people -/
  | dependency {name : String} (hs : s.includeDependencies = false) (hmem : name ∈ names.dropLast)
      (hname : name = "vendor" ∨ name = "node_modules")
  /-- a pattern for directories covers the name of a directory on the way -/
  | directory {pattern name : String} (hpattern : pattern ++ "/" ∈ s.exclude)
      (hmem : name ∈ names.dropLast) (hcovers : covers pattern name = true)
  /-- a pattern for directories covers the way to one of them -/
  | way {pattern : String} {run : FilePlace} (hpattern : pattern ++ "/" ∈ s.exclude)
      (hne : run ≠ []) (hrun : run <+: names.dropLast)
      (hcovers : covers pattern (Text.joinWith "/" run) = true)
  /-- any other pattern covers the whole path -/
  | path {pattern : String} (hpattern : pattern ∈ s.exclude)
      (hother : ∀ shorter, pattern ≠ shorter ++ "/")
      (hcovers : covers pattern (Text.joinWith "/" names) = true)
  /-- any other pattern covers the name of the file -/
  | file {pattern name : String} (hpattern : pattern ∈ s.exclude)
      (hother : ∀ shorter, pattern ≠ shorter ++ "/") (hname : names.getLast? = some name)
      (hcovers : covers pattern name = true)

theorem mem_leading {α : Type} {run xs : List α} : run ∈ leading xs ↔ run ≠ [] ∧ run <+: xs := by
  induction xs generalizing run with
  | nil => simp [leading]
  | cons x xs ih =>
    rw [leading, List.mem_cons, List.mem_map, List.prefix_cons_iff]
    constructor
    · rintro (rfl | ⟨rest, hrest, rfl⟩)
      · exact ⟨List.cons_ne_nil x [], Or.inr ⟨[], rfl, List.nil_prefix⟩⟩
      · exact ⟨List.cons_ne_nil x rest, Or.inr ⟨rest, rfl, (ih.1 hrest).2⟩⟩
    · rintro ⟨hne, rfl | ⟨rest, rfl, hrest⟩⟩
      · exact absurd rfl hne
      · by_cases hnil : rest = []
        · exact Or.inl (congrArg (x :: ·) hnil)
        · exact Or.inr ⟨rest, ih.2 ⟨hnil, hrest⟩, rfl⟩

theorem dropSlash?_eq_some_iff {text shorter : String} :
    dropSlash? text = some shorter ↔ text = shorter ++ "/" := by
  have htext : text = shorter ++ "/" ↔ text.toList.reverse = '/' :: shorter.toList.reverse := by
    rw [← String.toList_inj, ← List.reverse_inj]
    simp
  rw [htext]
  unfold dropSlash?
  split
  · rename_i rest hrest
    rw [hrest, Option.some.injEq, ← String.toList_inj, String.toList_ofList, List.cons.injEq,
      List.reverse_eq_iff]
    exact (and_iff_right rfl).symm
  · rename_i hother
    constructor
    · intro hnone
      cases hnone
    · intro hslash
      exact absurd hslash (hother _)

section Patterns

variable (covers : String → String → Bool) (path : Path) (directories : List String)

/-- A pattern with a slash at its end is for directories. -/
theorem patternCovers_slash (shorter : String) :
    patternCovers covers path directories (shorter ++ "/") = true ↔
      (∃ name ∈ directories, covers shorter name = true) ∨
        ∃ run, (run ≠ [] ∧ run <+: directories) ∧ covers shorter (Text.joinWith "/" run) = true := by
  unfold patternCovers
  rw [dropSlash?_eq_some_iff.2 rfl]
  simp only [Bool.or_eq_true, List.any_eq_true, mem_leading]

/-- Any other pattern is for files. -/
theorem patternCovers_other {pattern : String} (h : ∀ shorter, pattern ≠ shorter ++ "/") :
    patternCovers covers path directories pattern = true ↔
      covers pattern path.text = true ∨
        ∃ name, path.fileName? = some name ∧ covers pattern name = true := by
  have hpattern : dropSlash? pattern = none := by
    rw [Option.eq_none_iff_forall_ne_some]
    intro shorter hshorter
    exact h shorter (dropSlash?_eq_some_iff.1 hshorter)
  unfold patternCovers
  rw [hpattern]
  simp only [Bool.or_eq_true, Option.any_eq_true]

end Patterns

theorem excludesBy_iff {names : FilePlace} (hnames : ∀ name ∈ names, IsFileName name)
    (covers : String → String → Bool) (s : Settings) :
    s.excludesBy covers ⟨false, names⟩ = true ↔ s.LeavesOut covers names := by
  have htext : (Path.mk false names).text = Text.joinWith "/" names := by
    rw [Path.text, if_neg Bool.false_ne_true, String.empty_append]
  have hdependency (name : String) : dependencyDirectories.contains name = true ↔
      name = "vendor" ∨ name = "node_modules" := by
    simp [dependencyDirectories]
  unfold excludesBy
  simp only [Path.directories_names hnames, Bool.or_eq_true, Bool.and_eq_true, Bool.not_eq_true',
    List.any_eq_true, hdependency]
  constructor
  · rintro (⟨hs, name, hmem, hname⟩ | ⟨pattern, hpattern, hcovers⟩)
    · exact .dependency hs hmem hname
    · by_cases hslash : ∃ shorter, pattern = shorter ++ "/"
      · obtain ⟨shorter, rfl⟩ := hslash
        rcases (patternCovers_slash covers _ _ shorter).1 hcovers with
          ⟨name, hmem, hname⟩ | ⟨run, ⟨hne, hrun⟩, hcovers⟩
        · exact .directory hpattern hmem hname
        · exact .way hpattern hne hrun hcovers
      · have hother := not_exists.1 hslash
        rw [patternCovers_other covers _ _ hother, htext, Path.fileName?_names hnames] at hcovers
        rcases hcovers with hcovers | ⟨name, hname, hcovers⟩
        · exact .path hpattern hother hcovers
        · exact .file hpattern hother hname hcovers
  · intro h
    cases h with
    | dependency hs hmem hname => exact Or.inl ⟨hs, _, hmem, hname⟩
    | directory hpattern hmem hcovers =>
      exact Or.inr ⟨_, hpattern, (patternCovers_slash covers _ _ _).2 (Or.inl ⟨_, hmem, hcovers⟩)⟩
    | way hpattern hne hrun hcovers =>
      exact Or.inr ⟨_, hpattern,
        (patternCovers_slash covers _ _ _).2 (Or.inr ⟨_, ⟨hne, hrun⟩, hcovers⟩)⟩
    | path hpattern hother hcovers =>
      refine Or.inr ⟨_, hpattern, (patternCovers_other covers _ _ hother).2 (Or.inl ?_)⟩
      rwa [htext]
    | file hpattern hother hname hcovers =>
      refine Or.inr ⟨_, hpattern, (patternCovers_other covers _ _ hother).2 (Or.inr ⟨_, ?_, hcovers⟩)⟩
      rwa [Path.fileName?_names hnames]

end Settings

/-! ## Files of one path -/

namespace Collection

/-- The path stands for the file: it leads to it, or to a directory that has it below, at the given
names. -/
inductive StandsFor (tree : FileTree) (origin : FilePlace) (excluded : Path → Bool) :
    (path file : Path) → Prop
  | named {path : Path} (hfile : tree.isFile origin path = true) :
      StandsFor tree origin excluded path path
  | below {path : Path} {names : FilePlace} {name : String}
      (hdirectory : tree.isDirectory origin path = true)
      (hnames : ∀ name ∈ names, IsFileName name) (hlast : names.getLast? = some name)
      (hfile : tree.isFile origin (path.join ⟨false, names⟩) = true)
      (hphp : HasPhpExtension name) (hkept : excluded ⟨false, names⟩ = false) :
      StandsFor tree origin excluded path (path.join ⟨false, names⟩)

variable {tree : FileTree} {origin : FilePlace} {excluded : Path → Bool} {path file : Path}

/-- A path leads to a file, to a directory, or nowhere. -/
theorem filesOf?_cases (tree : FileTree) (origin : FilePlace) (excluded : Path → Bool) (path : Path) :
    (tree.isFile origin path = true ∧ tree.isDirectory origin path = false ∧
        filesOf? tree origin excluded path = some [path]) ∨
      (tree.isFile origin path = false ∧ tree.isDirectory origin path = true ∧
        ∃ place, tree.resolve origin path = .ok place ∧
          filesOf? tree origin excluded path = some (filesIn tree excluded path place)) ∨
      (tree.isFile origin path = false ∧ tree.isDirectory origin path = false ∧
        filesOf? tree origin excluded path = none) := by
  unfold FileTree.isFile FileTree.isDirectory FileTree.find filesOf?
  cases tree.resolve origin path with
  | error e => exact Or.inr (Or.inr ⟨rfl, rfl, rfl⟩)
  | ok place =>
    cases hnode : tree.node? place with
    | none => simp [hnode]
    | some node => cases node <;> simp [hnode, Node.isFile]

theorem isNone_filesOf? :
    (filesOf? tree origin excluded path).isNone =
      (!tree.isFile origin path && !tree.isDirectory origin path) := by
  rcases filesOf?_cases tree origin excluded path with
    ⟨hfile, hdirectory, hfiles⟩ | ⟨hfile, hdirectory, place, -, hfiles⟩ | ⟨hfile, hdirectory, hfiles⟩
  all_goals rw [hfile, hdirectory, hfiles]; rfl

theorem mem_filesIn {place : FilePlace} :
    file ∈ filesIn tree excluded path place ↔ ∃ names ∈ tree.filesBelow place,
      (∃ name, names.getLast? = some name ∧ HasPhpExtension name) ∧ excluded ⟨false, names⟩ = false ∧
        path.join ⟨false, names⟩ = file := by
  unfold filesIn
  simp only [List.mem_filterMap, Option.ite_none_right_eq_some, Bool.and_eq_true, Option.any_eq_true,
    Bool.not_eq_true', isPhpName_iff, Option.some.injEq, and_assoc]

/-- The files of a path are those that it stands for. -/
theorem mem_filesOf?_iff :
    file ∈ (filesOf? tree origin excluded path).getD [] ↔
      StandsFor tree origin excluded path file := by
  constructor
  · intro h
    rcases filesOf?_cases tree origin excluded path with
      ⟨hfile, -, hfiles⟩ | ⟨-, hdirectory, place, hplace, hfiles⟩ | ⟨-, -, hfiles⟩
    · rw [hfiles] at h
      obtain rfl := List.mem_singleton.1 h
      exact .named hfile
    · rw [hfiles, Option.getD_some, mem_filesIn] at h
      obtain ⟨names, hbelow, ⟨name, hlast, hphp⟩, hkept, rfl⟩ := h
      obtain ⟨-, hnames, hfile⟩ := (FileTree.mem_filesBelow_iff hplace).1 hbelow
      exact .below hdirectory hnames hlast hfile hphp hkept
    · rw [hfiles] at h
      cases h
  · intro h
    cases h with
    | named hfile =>
      rcases filesOf?_cases tree origin excluded path with
        ⟨-, -, hfiles⟩ | ⟨hnot, -⟩ | ⟨hnot, -⟩
      · rw [hfiles]
        exact List.mem_singleton.2 rfl
      all_goals
        rw [hfile] at hnot
        cases hnot
    | @below names name hdirectory hnames hlast hfile hphp hkept =>
      rcases filesOf?_cases tree origin excluded path with
        ⟨-, hnot, -⟩ | ⟨-, -, place, hplace, hfiles⟩ | ⟨-, hnot, -⟩
      · rw [hdirectory] at hnot
        cases hnot
      · have hne : names ≠ [] := by
          rintro rfl
          cases hlast
        rw [hfiles, Option.getD_some, mem_filesIn]
        exact ⟨names, (FileTree.mem_filesBelow_iff hplace).2 ⟨hne, hnames, hfile⟩,
          ⟨name, hlast, hphp⟩, hkept, rfl⟩
      · rw [hdirectory] at hnot
        cases hnot

/-! ## Files of all paths -/

section Files

variable {paths others : List Path}

theorem exists_standsFor (h : file ∈ (ofPaths tree origin excluded paths).files) :
    ∃ path ∈ paths, StandsFor tree origin excluded path file := by
  obtain ⟨path, hpath, hfile⟩ := List.mem_flatMap.1 (mem_of_mem_sorted h)
  exact ⟨path, hpath, mem_filesOf?_iff.1 hfile⟩

theorem exists_mem_files (hpath : path ∈ paths)
    (h : StandsFor tree origin excluded path file) :
    ∃ same ∈ (ofPaths tree origin excluded paths).files, same.components = file.components :=
  exists_mem_sorted (List.mem_flatMap.2 ⟨path, hpath, mem_filesOf?_iff.2 h⟩)

/-- The same paths in another order stand for the same files. -/
theorem map_components_files_of_perm (h : others.Perm paths) :
    (ofPaths tree origin excluded others).files.map Path.components =
      (ofPaths tree origin excluded paths).files.map Path.components := by
  have hpart {paths others : List Path} (h : ∀ path ∈ paths, path ∈ others)
      {c : List Path.Component}
      (hc : c ∈ (ofPaths tree origin excluded paths).files.map Path.components) :
      c ∈ (ofPaths tree origin excluded others).files.map Path.components := by
    obtain ⟨file, hfile, rfl⟩ := List.mem_map.1 hc
    obtain ⟨path, hpath, hstands⟩ := exists_standsFor hfile
    exact List.mem_map.2 (exists_mem_files (h path hpath) hstands)
  refine Path.map_components_eq_of_pairwise (pairwise_sorted _) (pairwise_sorted _) fun c => ?_
  exact ⟨hpart fun path => h.mem_iff.1, hpart fun path => h.mem_iff.2⟩

end Files

/-- The files that paths stand for are collected in a strictly ascending order: each of them, perhaps
in another way of writing it, and no others. The paths that lead neither to a file nor to a directory
are set apart, in the order given. Another order of the paths makes no difference for the files. What
is left out below a directory is decided by the names that lead there from the directory, whatever
texts patterns cover. -/
theorem ofPaths_exact (tree : FileTree) (origin : FilePlace)
    (covers : String → String → Bool) (s : Settings) (paths : List Path) :
    let excluded := s.excludesBy covers
    let found := ofPaths tree origin excluded paths
    found.files.Pairwise (fun p q => p.compare q = .lt) ∧
      (∀ file ∈ found.files, ∃ path ∈ paths, StandsFor tree origin excluded path file) ∧
      (∀ path ∈ paths, ∀ file, StandsFor tree origin excluded path file →
        ∃ same ∈ found.files, same.components = file.components) ∧
      found.missing =
        paths.filter (fun path => !tree.isFile origin path && !tree.isDirectory origin path) ∧
      (∀ others, others.Perm paths →
        (ofPaths tree origin excluded others).files.map Path.components =
          found.files.map Path.components) ∧
      ∀ names : FilePlace, (∀ name ∈ names, IsFileName name) →
        (excluded ⟨false, names⟩ = true ↔ s.LeavesOut covers names) := by
  intro excluded found
  refine ⟨pairwise_sorted _, fun file => exists_standsFor, ?_, ?_, ?_, ?_⟩
  · intro path hpath file
    exact exists_mem_files hpath
  · exact List.filter_congr fun path _ => isNone_filesOf?
  · intro others
    exact map_components_files_of_perm
  · intro names hnames
    exact Settings.excludesBy_iff hnames covers s

/-- A file is left out below one directory and found below another one. -/
theorem ofPaths_exact_overlapping :
    let tree : FileTree :=
      { entries := [(["app", "vendor", "a.php"], .file .empty),
          (["app", "src", "b.PHP"], .file .empty), (["app", "notes.txt"], .file .empty)] }
    let s : Settings := { exclude := ["tests/", "*.inc"] }
    let paths := ["app", "gone", "app/vendor/", "app/notes.txt"].map Path.ofText
    let found := ofPaths tree [] s.excludes paths
    found.files.Pairwise (fun p q => p.compare q = .lt) ∧
      s.LeavesOut Wildcard.coversText ["vendor", "a.php"] ∧
      (∃ same ∈ found.files, same.components = (Path.ofText "app/vendor/a.php").components) ∧
      (∃ same ∈ found.files, same.components = (Path.ofText "app/notes.txt").components) ∧
      found.missing = [Path.ofText "gone"] := by
  intro tree s paths found
  obtain ⟨hascending, -, hfound, hmissing, -, hout⟩ :=
    ofPaths_exact tree [] Wildcard.coversText s paths
  have hbelow : StandsFor tree [] s.excludes (Path.ofText "app/vendor/")
      ((Path.ofText "app/vendor/").join ⟨false, ["a.php"]⟩) :=
    .below (by decide +kernel) (by decide) rfl (by decide +kernel)
      ⟨"a", "php", by decide, by decide, by decide⟩ (by decide +kernel)
  refine ⟨hascending, (hout _ (by decide)).1 (by decide +kernel), ?_, ?_, ?_⟩
  · obtain ⟨same, hsame, hcomponents⟩ := hfound _ (by decide +kernel) _ hbelow
    exact ⟨same, hsame, hcomponents.trans (by decide +kernel)⟩
  · exact hfound (Path.ofText "app/notes.txt") (by decide +kernel) _ (.named (by decide +kernel))
  · exact hmissing.trans (by decide +kernel)

end Collection

end Vintage
