import Mathlib.Data.List.Sort
import SkinLint.Project.Targets
import SkinLint.Proofs.Except
import SkinLint.Proofs.Path.Normal
import SkinLint.Proofs.Path.Order

/-!
# The files an operation works on

The targets are sorted by what is shown of them, and a target is left out when its path is that of
the one before. Below an absolute root different files are shown differently, so that each of the
selected files comes out once, whatever the order of the given paths.
-/
namespace SkinLint.Project

def Target.Before (a b : Target) : Prop := a.display.compare b.display = .lt

instance : Std.Irrefl Target.Before :=
  ⟨fun _ h => Std.OrientedCmp.not_isLE_of_lt h Std.ReflCmp.isLE_rfl⟩

instance : Std.Antisymm Target.Before :=
  ⟨fun _ _ hab hba => absurd (by rw [hba]; rfl) (Std.OrientedCmp.not_isLE_of_lt hab)⟩

section Order

theorem pairwise_inOrder (targets : List Target) :
    (inOrder targets).Pairwise fun a b => a.display.le b.display := by
  have htotal (a b : Target) : a.display.le b.display || b.display.le a.display := by
    simpa using Path.le_total a.display b.display
  have htrans (a b c : Target) (hab : a.display.le b.display) (hbc : b.display.le c.display) :
      a.display.le c.display := Path.le_trans hab hbc
  exact List.pairwise_mergeSort htrans htotal targets

theorem mem_inOrder {targets : List Target} {target : Target} :
    target ∈ inOrder targets ↔ target ∈ targets :=
  List.mem_mergeSort

theorem dropRepeats_sublist (last : Option Path) (targets : List Target) :
    (dropRepeats last targets).Sublist targets := by
  fun_induction dropRepeats last targets with
  | case1 => exact .slnil
  | case2 last target rest hsame ih => exact ih.cons target
  | case3 last target rest hsame ih => exact ih.cons_cons target

/-- Only repetitions are left out. -/
theorem exists_same_dropRepeats {last : Option Path} {targets : List Target} {target : Target}
    (h : target ∈ targets) :
    (∃ path ∈ last, target.path.same path) ∨
      ∃ kept ∈ dropRepeats last targets, target.path.same kept.path := by
  fun_induction dropRepeats last targets with
  | case1 => cases h
  | case2 last other rest hsame ih =>
    obtain rfl | h := List.mem_cons.1 h
    · cases last with
      | none => cases hsame
      | some path => exact .inl ⟨path, rfl, hsame⟩
    · exact ih h
  | case3 last other rest hsame ih =>
    right
    obtain rfl | h := List.mem_cons.1 h
    · exact ⟨target, List.mem_cons_self, Path.same_iff.2 rfl⟩
    · obtain ⟨path, ⟨⟩, hpath⟩ | ⟨kept, hkept, hsame⟩ := ih h
      · exact ⟨other, List.mem_cons_self, hpath⟩
      · exact ⟨kept, List.mem_cons_of_mem _ hkept, hsame⟩

/-- What is kept behind a target is shown behind it. -/
theorem before_of_mem_dropRepeats {first : Target} {rest : List Target}
    (horder : (first :: rest).Pairwise fun a b => a.display.le b.display)
    (hshown : ∀ a ∈ first :: rest, ∀ b ∈ first :: rest,
      a.display.components = b.display.components → a.path.same b.path) {kept : Target}
    (h : kept ∈ dropRepeats (some first.path) rest) : first.Before kept := by
  induction rest generalizing first with
  | nil => cases h
  | cons next rest ih =>
    have hle := (List.pairwise_cons.1 horder).1
    unfold dropRepeats at h
    split at h
    next =>
      refine ih (horder.sublist (by simp)) (fun a ha b hb => ?_) h
      exact hshown a (by grind) b (by grind)
    next hdiffers =>
      have hnext : first.Before next := by
        refine Path.lt_of_le_of_ne (hle next List.mem_cons_self) fun heq => hdiffers ?_
        exact hshown next (by simp) first (by simp) heq.symm
      obtain rfl | h := List.mem_cons.1 h
      · exact hnext
      · have := ih (List.pairwise_cons.1 horder).2
          (fun a ha b hb => hshown a (by grind) b (by grind)) h
        exact Std.TransCmp.lt_trans hnext this

/-- If what is shown tells the files apart, no two targets are shown alike. -/
theorem pairwise_before_dropRepeats {last : Option Path} {targets : List Target}
    (horder : targets.Pairwise fun a b => a.display.le b.display)
    (hshown : ∀ a ∈ targets, ∀ b ∈ targets,
      a.display.components = b.display.components → a.path.same b.path) :
    (dropRepeats last targets).Pairwise Target.Before := by
  fun_induction dropRepeats last targets with
  | case1 => exact .nil
  | case2 last target rest hsame ih =>
    exact ih (List.pairwise_cons.1 horder).2 fun a ha b hb => hshown a (by grind) b (by grind)
  | case3 last target rest hsame ih =>
    refine List.pairwise_cons.2 ⟨fun kept hkept => before_of_mem_dropRepeats horder hshown hkept, ?_⟩
    exact ih (List.pairwise_cons.1 horder).2 fun a ha b hb => hshown a (by grind) b (by grind)

end Order

section Selection

def givenPaths (paths : List Path) : List Path := if paths = [] then [.empty] else paths

def namesAt (t : FileTree) (root p : Path) : Names := t.start root ++ (root.absoluteFrom p).names

/-- What is shown of a file: its path below the root, if it is there. -/
def shownAs (t : FileTree) (root : Path) (names : Names) : Path :=
  if t.start root ++ root.names <+: names then
    ⟨Text.joinWith ['/'] (names.drop (t.start root ++ root.names).length)⟩
  else names.path

/-- The files that are selected: those that are named, and those in scope below a folder. -/
def Selected (project : ProjectSettings) (t : FileTree) (paths : List Path) (names : Names) :
    Prop :=
  t.HasFile names ∧ ∃ p ∈ givenPaths paths, namesAt t project.root p = names ∨
    namesAt t project.root p <+: names ∧ project.inScope (shownAs t project.root names)

theorem names_absoluteFrom_empty (root : Path) : (root.absoluteFrom .empty).names = root.names := by
  have hrelative : Path.empty.isAbsolute = false := rfl
  have hnames : Path.empty.names = [] := rfl
  unfold Path.absoluteFrom
  rw [hrelative, if_neg (by simp), Path.names_join hrelative (by decide), hnames, List.append_nil]

/-- The root and the empty path seen from it have one normal form. -/
theorem clean_absoluteFrom_empty (root : Path) : (root.absoluteFrom .empty).clean = root.clean := by
  have hrelative : Path.empty.isAbsolute = false := rfl
  cases hroot : root.isAbsolute with
  | true =>
    rw [Path.clean_of_isAbsolute (Path.isAbsolute_absoluteFrom hroot .empty),
      Path.clean_of_isAbsolute hroot, names_absoluteFrom_empty]
  | false =>
    have habsolute : (root.absoluteFrom .empty).isAbsolute = false := by
      simp [Path.absoluteFrom, hrelative, Path.isAbsolute_join_of_relative, hroot]
    rw [Path.clean_of_relative habsolute, Path.clean_of_relative hroot, names_absoluteFrom_empty]

theorem startingPoints_eq (root : Path) (paths : List Path) :
    startingPoints root paths = (givenPaths paths).map fun p => (root.absoluteFrom p).clean := by
  unfold startingPoints givenPaths
  cases paths with
  | nil => simp [clean_absoluteFrom_empty]
  | cons p paths => simp

end Selection

theorem exists_targetsAt_iff {project : ProjectSettings} {t : FileTree} {p : Path} :
    (∃ found, targetsAt project t p = .ok found) ↔ t.contains p := by
  unfold targetsAt FileTree.contains FileTree.isFile FileTree.isFolder
  cases t.look p with
  | error e => simp [Except.isOk, Except.toBool]
  | ok e => cases e <;> simp [Except.isOk, Except.toBool]

section Walking

variable {project : ProjectSettings} {t : FileTree} (hwf : t.WellFormed) {p : Path} {names : Names}
  (hp : p.Spells names)
include hwf hp

theorem mem_walk_iff (hfolder : t.entry? (t.start p ++ names) = some .folder) {path : Path} :
    path ∈ walk t p ↔ ∃ below, below ≠ [] ∧ t.HasFile (t.start p ++ names ++ below) ∧
      path = p.join ⟨Text.joinWith ['/'] below⟩ := by
  have hne (below : Names) (hfile : t.HasFile (t.start p ++ names ++ below)) : below ≠ [] := by
    rintro rfl
    obtain ⟨contents, x, he⟩ := hfile
    rw [List.append_nil, hfolder] at he
    cases he
  unfold walk
  simp only [hwf.locate_of_spells hp hfolder, List.mem_mergeSort, List.mem_map,
    hwf.mem_filesBelow_iff]
  constructor
  · rintro ⟨below, ⟨-, hfile⟩, rfl⟩
    exact ⟨below, hne below hfile, hfile, rfl⟩
  · rintro ⟨below, hbelow, hfile, rfl⟩
    exact ⟨below, ⟨by simp [hbelow], hfile⟩, rfl⟩

theorem targetsAt_of_file (h : t.HasFile (t.start p ++ names)) :
    targetsAt project t p = .ok [Target.of project.root.clean p] := by
  simp [targetsAt, (hwf.isFile_iff_of_spells hp).2 h]

theorem targetsAt_of_folder (h : t.entry? (t.start p ++ names) = some .folder) :
    targetsAt project t p = .ok (((walk t p).map (Target.of project.root.clean)).filter
      fun found => project.inScope found.display) := by
  have hfile : t.isFile p = false := by
    rw [Bool.eq_false_iff, Ne, hwf.isFile_iff_of_spells hp]
    rintro ⟨contents, x, he⟩
    rw [h] at he
    cases he
  simp [targetsAt, hfile, (hwf.isFolder_iff_of_spells hp).2 h]

theorem mem_targetsAt_iff {found : List Target} (hfound : targetsAt project t p = .ok found)
    {target : Target} : target ∈ found ↔ ∃ below, t.HasFile (t.start p ++ names ++ below) ∧
      (below = [] ∧ target = Target.of project.root.clean p ∨
        below ≠ [] ∧ target = Target.of project.root.clean (p.join ⟨Text.joinWith ['/'] below⟩) ∧
          project.inScope target.display) := by
  cases he : t.entry? (t.start p ++ names) with
  | none =>
    have hmissing : ¬t.contains p := by
      rw [hwf.contains_iff_of_spells hp, he]
      simp
    exact absurd (exists_targetsAt_iff.1 ⟨found, hfound⟩) hmissing
  | some e =>
    cases e with
    | file contents x =>
      have hfile : t.HasFile (t.start p ++ names) := ⟨contents, x, he⟩
      rw [targetsAt_of_file hwf hp hfile] at hfound
      obtain rfl := Except.ok.inj hfound
      rw [List.mem_singleton]
      constructor
      · rintro rfl
        exact ⟨[], by rwa [List.append_nil], .inl ⟨rfl, rfl⟩⟩
      · rintro ⟨below, ⟨_, _, he'⟩, ⟨-, rfl⟩ | ⟨hne, -⟩⟩
        · rfl
        · exact absurd (hwf.eq_nil_of_file hfile he') hne
    | folder =>
      rw [targetsAt_of_folder hwf hp he] at hfound
      obtain rfl := Except.ok.inj hfound
      simp only [List.mem_filter, List.mem_map, mem_walk_iff hwf hp he]
      constructor
      · rintro ⟨⟨_, ⟨below, hne, hfile, rfl⟩, rfl⟩, hscope⟩
        exact ⟨below, hfile, .inr ⟨hne, rfl, hscope⟩⟩
      · rintro ⟨below, hfile, ⟨rfl, -⟩ | ⟨hne, rfl, hscope⟩⟩
        · obtain ⟨_, _, he'⟩ := hfile
          rw [List.append_nil, he] at he'
          cases he'
        · exact ⟨⟨_, ⟨below, hne, hfile, rfl⟩, rfl⟩, hscope⟩

end Walking

section Given

variable {project : ProjectSettings} {t : FileTree} {paths : List Path}

theorem targets_eq_ok_iff {found : List Target} : targets project t paths = .ok found ↔
    ∃ each, (startingPoints project.root paths).mapM (targetsAt project t) = .ok each ∧
      found = dropRepeats none (inOrder each.flatten) := by
  unfold targets
  cases (startingPoints project.root paths).mapM (targetsAt project t) <;> simp [eq_comm]

theorem exists_targets_iff : (∃ found, targets project t paths = .ok found) ↔
    ∀ p ∈ givenPaths paths, t.contains (project.root.absoluteFrom p).clean := by
  simp only [targets_eq_ok_iff, startingPoints_eq]
  constructor
  · rintro ⟨_, each, heach, -⟩ p hp
    exact exists_targetsAt_iff.1 (exists_ok_of_mapM heach (List.mem_map_of_mem hp))
  · intro hthere
    have hok : ∀ start ∈ (givenPaths paths).map fun p => (project.root.absoluteFrom p).clean,
        ∃ found, targetsAt project t start = .ok found := by
      intro start hstart
      obtain ⟨p, hp, rfl⟩ := List.mem_map.1 hstart
      exact exists_targetsAt_iff.2 (hthere p hp)
    obtain ⟨each, heach⟩ := exists_mapM_eq_ok hok
    exact ⟨_, each, heach, rfl⟩

theorem exists_unordered {found : List Target} (hfound : targets project t paths = .ok found) :
    ∃ unordered, found = dropRepeats none (inOrder unordered) ∧
      ∀ target, target ∈ unordered ↔ ∃ p ∈ givenPaths paths, ∃ each,
        targetsAt project t (project.root.absoluteFrom p).clean = .ok each ∧ target ∈ each := by
  obtain ⟨each, heach, rfl⟩ := targets_eq_ok_iff.1 hfound
  refine ⟨_, rfl, fun target => ?_⟩
  rw [startingPoints_eq] at heach
  rw [mem_flatten_of_mapM heach]
  simp only [List.mem_map, exists_exists_and_eq_and]

theorem exists_kept {unordered : List Target} {target : Target} (h : target ∈ unordered) :
    ∃ kept ∈ dropRepeats none (inOrder unordered), target.path.same kept.path := by
  obtain ⟨path, hnone, -⟩ | hkept := @exists_same_dropRepeats none _ _ (mem_inOrder.2 h)
  · cases hnone
  · exact hkept

theorem mem_of_kept {unordered : List Target} {target : Target}
    (h : target ∈ dropRepeats none (inOrder unordered)) : target ∈ unordered :=
  mem_inOrder.1 ((dropRepeats_sublist _ _).subset h)

end Given

section Absolute

variable {project : ProjectSettings} {t : FileTree} (hwf : t.WellFormed)
  (hroot : project.root.isAbsolute)

def fileTarget (project : ProjectSettings) (t : FileTree) (names : Names) : Target :=
  ⟨names.path, shownAs t project.root names⟩

include hroot

theorem start_root : t.start project.root = [] := by
  simp [FileTree.start, hroot]

theorem plain_namesAt (p : Path) : (namesAt t project.root p).Plain := by
  rw [namesAt, start_root hroot]
  exact Path.plain_names _

theorem clean_absoluteFrom (p : Path) :
    (project.root.absoluteFrom p).clean = (namesAt t project.root p).path := by
  rw [Path.clean_of_isAbsolute (Path.isAbsolute_absoluteFrom hroot p), namesAt, start_root hroot,
    List.nil_append]

theorem target_of_path {names : Names} (h : names.Plain) :
    Target.of project.root.clean names.path = fileTarget project t names := by
  have hrootPlain := project.root.plain_names
  unfold Target.of fileTarget Path.below? shownAs
  rw [Path.clean_of_isAbsolute hroot, components_path hrootPlain, components_path h,
    start_root hroot, List.nil_append]
  by_cases hbelow : project.root.names <+: names
  · have hstarts : (.root :: project.root.names.map Component.name).isPrefixOf
        (.root :: names.map .name) := by
      simpa [map_name_isPrefix_iff] using hbelow
    rw [if_pos hstarts, if_pos hbelow]
    simp [Path.slashed, ← List.map_drop, Component.text, Function.comp_def]
  · have hstarts : ¬(.root :: project.root.names.map Component.name).isPrefixOf
        (.root :: names.map .name) := by
      simpa [map_name_isPrefix_iff] using hbelow
    rw [if_neg hstarts, if_neg hbelow]

theorem components_shownAs {names : Names} (h : names.Plain) :
    (shownAs t project.root names).components =
      if project.root.names <+: names then
        (names.drop project.root.names.length).map .name
      else .root :: names.map .name := by
  unfold shownAs
  rw [start_root hroot, List.nil_append]
  split
  next hbelow =>
    obtain ⟨below, rfl⟩ := hbelow
    rw [List.drop_left]
    exact components_joinWith h.of_append_right
  next => exact components_path h

theorem eq_of_components_shownAs {names names' : Names} (h : names.Plain) (h' : names'.Plain)
    (heq : (shownAs t project.root names).components =
      (shownAs t project.root names').components) : names = names' := by
  rw [components_shownAs hroot h, components_shownAs hroot h'] at heq
  -- A path below the root has no root in front, and all other paths have one.
  have hmixed (below other : Names) : below.map Component.name ≠ .root :: other.map .name :=
    map_name_ne_cons below (fun name => by simp) _
  by_cases hbelow : project.root.names <+: names <;>
    by_cases hbelow' : project.root.names <+: names'
  · rw [if_pos hbelow, if_pos hbelow', map_name_inj] at heq
    rw [← List.prefix_iff_eq_append.1 hbelow, ← List.prefix_iff_eq_append.1 hbelow', heq]
  · rw [if_pos hbelow, if_neg hbelow'] at heq
    exact absurd heq (hmixed _ _)
  · rw [if_neg hbelow, if_pos hbelow'] at heq
    exact absurd heq.symm (hmixed _ _)
  · rw [if_neg hbelow, if_neg hbelow'] at heq
    exact map_name_inj.1 (List.cons.inj heq).2

include hwf

/-- The targets at an absolute path are the files that it selects. -/
theorem mem_targetsAt_path_iff {start : Names} (hstart : start.Plain) {found : List Target}
    (hfound : targetsAt project t start.path = .ok found) {target : Target} :
    target ∈ found ↔ ∃ names, t.HasFile names ∧
      (start = names ∨ start <+: names ∧ project.inScope (shownAs t project.root names)) ∧
      target = fileTarget project t names := by
  have hbase : t.start start.path = [] := rfl
  rw [mem_targetsAt_iff hwf (spells_path hstart) hfound, hbase, List.nil_append]
  have hjoin (below : Names) (hfile : t.HasFile (start ++ below)) (hne : below ≠ []) :
      Target.of project.root.clean (start.path.join ⟨Text.joinWith ['/'] below⟩) =
        fileTarget project t (start ++ below) := by
    obtain ⟨_, _, he⟩ := hfile
    have hplain := hwf.plain he
    rw [join_path hstart hplain.of_append_right hne, target_of_path hroot hplain]
  constructor
  · rintro ⟨below, hfile, ⟨rfl, rfl⟩ | ⟨hne, rfl, hscope⟩⟩
    · rw [List.append_nil] at hfile
      exact ⟨start, hfile, .inl rfl, target_of_path hroot hstart⟩
    · rw [hjoin below hfile hne] at hscope
      exact ⟨_, hfile, .inr ⟨List.prefix_append _ _, hscope⟩, hjoin below hfile hne⟩
  · rintro ⟨names, hfile, hselected, rfl⟩
    have hbelow : start <+: names := hselected.elim (fun heq => heq ▸ List.prefix_rfl) And.left
    obtain ⟨below, rfl⟩ := hbelow
    by_cases hnil : below = []
    · subst hnil
      exact ⟨[], hfile, .inl ⟨rfl, by rw [List.append_nil, target_of_path hroot hstart]⟩⟩
    · obtain heq | ⟨-, hscope⟩ := hselected
      · exact absurd (List.self_eq_append_right.1 heq) hnil
      · exact ⟨below, hfile, .inr ⟨hnil, (hjoin below hfile hnil).symm, hscope⟩⟩

variable {paths : List Path} {found : List Target} (hfound : targets project t paths = .ok found)
include hfound

theorem exists_unordered_selected : ∃ unordered, found = dropRepeats none (inOrder unordered) ∧
    ∀ target, target ∈ unordered ↔
      ∃ names, Selected project t paths names ∧ target = fileTarget project t names := by
  obtain ⟨unordered, rfl, hunordered⟩ := exists_unordered hfound
  refine ⟨unordered, rfl, fun target => (hunordered target).trans ?_⟩
  simp only [clean_absoluteFrom (t := t) hroot]
  constructor
  · rintro ⟨p, hp, each, heach, htarget⟩
    obtain ⟨names, hfile, hselected, rfl⟩ :=
      (mem_targetsAt_path_iff hwf hroot (plain_namesAt hroot p) heach).1 htarget
    exact ⟨names, ⟨hfile, p, hp, hselected⟩, rfl⟩
  · rintro ⟨names, ⟨hfile, p, hp, hselected⟩, rfl⟩
    have hthere := exists_targets_iff.1 ⟨_, hfound⟩ p hp
    rw [clean_absoluteFrom (t := t) hroot] at hthere
    obtain ⟨each, heach⟩ := exists_targetsAt_iff.2 hthere
    refine ⟨p, hp, each, heach, ?_⟩
    exact (mem_targetsAt_path_iff hwf hroot (plain_namesAt hroot p) heach).2
      ⟨names, hfile, hselected, rfl⟩

theorem mem_targets_iff {target : Target} : target ∈ found ↔
    ∃ names, Selected project t paths names ∧ target = fileTarget project t names := by
  obtain ⟨unordered, rfl, hunordered⟩ := exists_unordered_selected hwf hroot hfound
  constructor
  · exact fun htarget => (hunordered target).1 (mem_of_kept htarget)
  · intro htarget
    obtain ⟨kept, hkept, hsame⟩ := exists_kept ((hunordered target).2 htarget)
    obtain ⟨names, ⟨⟨_, _, he⟩, -⟩, rfl⟩ := htarget
    obtain ⟨names', ⟨⟨_, _, he'⟩, -⟩, rfl⟩ := (hunordered kept).1 (mem_of_kept hkept)
    rw [Path.same_iff, fileTarget, fileTarget, components_path (hwf.plain he),
      components_path (hwf.plain he')] at hsame
    rwa [map_name_inj.1 (List.cons.inj hsame).2]

theorem pairwise_before_targets : found.Pairwise Target.Before := by
  obtain ⟨unordered, rfl, hunordered⟩ := exists_unordered_selected hwf hroot hfound
  refine pairwise_before_dropRepeats (pairwise_inOrder unordered) fun a ha b hb heq => ?_
  obtain ⟨names, ⟨⟨_, _, he⟩, -⟩, rfl⟩ := (hunordered a).1 (mem_inOrder.1 ha)
  obtain ⟨names', ⟨⟨_, _, he'⟩, -⟩, rfl⟩ := (hunordered b).1 (mem_inOrder.1 hb)
  rw [eq_of_components_shownAs hroot (hwf.plain he) (hwf.plain he') heq,
    Path.same_iff]

theorem pairwise_located_targets :
    found.Pairwise fun a b => t.locate a.path ≠ t.locate b.path := by
  have hlocate (names : Names) (hfile : t.HasFile names) :
      t.locate (fileTarget project t names).path = .ok names := by
    obtain ⟨_, _, he⟩ := hfile
    exact hwf.locate_path he
  refine (pairwise_before_targets hwf hroot hfound).imp_of_mem fun {a b} ha hb hlt hsame => ?_
  obtain ⟨names, ⟨hfile, -⟩, rfl⟩ := (mem_targets_iff hwf hroot hfound).1 ha
  obtain ⟨names', ⟨hfile', -⟩, rfl⟩ := (mem_targets_iff hwf hroot hfound).1 hb
  rw [hlocate names hfile, hlocate names' hfile'] at hsame
  obtain rfl := Except.ok.inj hsame
  exact irrefl _ hlt

end Absolute

theorem mem_givenPaths_congr {paths paths' : List Path} (h : ∀ p, p ∈ paths' ↔ p ∈ paths) (p : Path) :
    p ∈ givenPaths paths' ↔ p ∈ givenPaths paths := by
  have hnil : paths' = [] ↔ paths = [] := by
    simp only [List.eq_nil_iff_forall_not_mem, h]
  unfold givenPaths
  by_cases hempty : paths = [] <;> simp [hnil, hempty, h]

/-- Nothing but a missing path keeps targets from being found. -/
theorem eq_pathNotFound_of_targets {project : ProjectSettings} {t : FileTree} {paths : List Path}
    {e : Error} (h : targets project t paths = .error e) : ∃ path, e = .pathNotFound path := by
  unfold targets at h
  split at h
  next e' heach =>
    obtain rfl := Except.error.inj h
    obtain ⟨start, -, hstart⟩ := exists_error_of_mapM heach
    unfold targetsAt at hstart
    dsimp only at hstart
    split_ifs at hstart
    exact ⟨start, (Except.error.inj hstart).symm⟩
  next => cases h

/-- Below an absolute root the targets are the selected files: those that are named and those in
scope below folders that are named, each once, in the order of what is shown of them. Neither the
order of the given paths matters nor that some are given again. A given path that leads nowhere is
reported as not found. -/
theorem targets_are_selected_files {project : ProjectSettings} {t : FileTree} (hwf : t.WellFormed)
    (hroot : project.root.isAbsolute) (paths : List Path) :
    ((∀ p ∈ givenPaths paths, t.contains (project.root.absoluteFrom p).normalize) →
      ∃ found, targets project t paths = .ok found ∧ found.Pairwise Target.Before ∧
        (∀ target, target ∈ found ↔ ∃ names, Selected project t paths names ∧
          target = ⟨names.path, shownAs t project.root names⟩) ∧
        ∀ paths', (∀ p, p ∈ paths' ↔ p ∈ paths) → targets project t paths' = .ok found) ∧
    ((∃ p ∈ givenPaths paths, ¬t.contains (project.root.absoluteFrom p).normalize) →
      ∃ path, targets project t paths = .error (.pathNotFound path)) := by
  have hnormal (p : Path) :
      (project.root.absoluteFrom p).normalize = (project.root.absoluteFrom p).clean := by
    have habsolute := Path.isAbsolute_absoluteFrom hroot p
    rw [Path.normalize_of_isAbsolute habsolute, Path.clean_of_isAbsolute habsolute]
  simp only [hnormal]
  refine ⟨fun hthere => ?_, fun ⟨p, hp, hmissing⟩ => ?_⟩
  · obtain ⟨found, hfound⟩ := exists_targets_iff.2 hthere
    refine ⟨found, hfound, pairwise_before_targets hwf hroot hfound,
      fun target => mem_targets_iff hwf hroot hfound, fun paths' hsame => ?_⟩
    have hgiven := mem_givenPaths_congr hsame
    have hthere' : ∀ p ∈ givenPaths paths', t.contains (project.root.absoluteFrom p).clean :=
      fun p hp => hthere p ((hgiven p).1 hp)
    obtain ⟨found', hfound'⟩ := exists_targets_iff.2 hthere'
    have heq : found' = found := by
      refine (pairwise_before_targets hwf hroot hfound').eq_of_mem_iff
        (pairwise_before_targets hwf hroot hfound) fun target => ?_
      rw [mem_targets_iff hwf hroot hfound', mem_targets_iff hwf hroot hfound]
      simp only [Selected, hgiven]
    rw [hfound', heq]
  · cases hfound : targets project t paths with
    | ok found => exact absurd (exists_targets_iff.1 ⟨found, hfound⟩ p hp) hmissing
    | error e =>
      obtain ⟨path, rfl⟩ := eq_pathNotFound_of_targets hfound
      exact ⟨path, rfl⟩

/-- A folder, a file below it by a detour, and a file outside the root. -/
theorem targets_are_selected_files_by_detour :
    ∃ (t : FileTree) (found : List Target),
      targets (Config.defaults (.ofString "/p")).project t
        [.ofString "s", .ofString "s/../s/b.ini", .ofString "../q/c.txt"] = .ok found ∧
      targets (Config.defaults (.ofString "/p")).project t
        [.ofString "../q/c.txt", .ofString "s/../s/b.ini", .ofString "s", .ofString "s"] =
          .ok found ∧
      found.Pairwise Target.Before ∧
      ⟨.ofString "/p/s/b.ini", .ofString "s/b.ini"⟩ ∈ found ∧
      ⟨.ofString "/q/c.txt", .ofString "/q/c.txt"⟩ ∈ found := by
  let project := (Config.defaults (.ofString "/p")).project
  let paths : List Path := [.ofString "s", .ofString "s/../s/b.ini", .ofString "../q/c.txt"]
  let t : FileTree :=
    { entries := [([['p']], .folder), ([['p'], "a.ini".toList], .file [] false),
        ([['p'], ['s']], .folder), ([['p'], ['s'], "b.ini".toList], .file [] false),
        ([['p'], ['s'], "n.txt".toList], .file [] false), ([['q']], .folder),
        ([['q'], "c.txt".toList], .file [] false)]
      workingFolder := [['q']] }
  have hwf : t.WellFormed := by decide +kernel
  have hroot : project.root.isAbsolute := by decide +kernel
  have hthere : ∀ p ∈ givenPaths paths, t.contains (project.root.absoluteFrom p).normalize := by
    decide +kernel
  obtain ⟨found, hfound, horder, hmem, hagain⟩ :=
    (targets_are_selected_files hwf hroot paths).1 hthere
  have hbelow : Selected project t paths [['p'], ['s'], "b.ini".toList] :=
    ⟨⟨[], false, rfl⟩, .ofString "s/../s/b.ini", by simp [givenPaths, paths], .inl (by decide +kernel)⟩
  have houtside : Selected project t paths [['q'], "c.txt".toList] :=
    ⟨⟨[], false, rfl⟩, .ofString "../q/c.txt", by simp [givenPaths, paths], .inl (by decide +kernel)⟩
  refine ⟨t, found, hfound, hagain _ fun p => ?_, horder, ?_, ?_⟩
  · simp [paths, or_left_comm, or_comm]
  · exact (hmem _).2 ⟨_, hbelow, by decide +kernel⟩
  · exact (hmem _).2 ⟨_, houtside, by decide +kernel⟩

end SkinLint.Project
