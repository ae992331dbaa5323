import Mathlib.Data.Set.Card
import SkinLint.Project.Check
import SkinLint.Proofs.Project.Targets

/-!
# Files below a relative root

Seen from the working folder a file has one path, except that a walk of the working folder itself
puts a dot in front. A file that is found by such a walk and below another given path has two paths
that are not the same, and comes out once for each.
-/
namespace SkinLint

def Path.LeadsDown (p : Path) : Prop := p.isAbsolute = false ∧ .up ∉ p.components

namespace Project

def foundPath (folder below : Names) : Path :=
  if folder = [] then below.dottedPath else Names.relativePath (folder ++ below)

section Spelling

variable {folder below : Names}

theorem components_foundPath (h : Names.Plain (folder ++ below)) :
    (foundPath folder below).components =
      (if folder = [] then [Component.here] else []) ++
        (folder ++ below).map Component.name := by
  unfold foundPath
  split
  next hnil =>
    subst hnil
    exact components_dottedPath h
  next hne =>
    rw [components_relativePath h, if_neg (by simp [hne]), List.nil_append]

theorem spells_foundPath (h : Names.Plain (folder ++ below)) :
    (foundPath folder below).Spells (folder ++ below) := by
  unfold foundPath
  split
  next hnil =>
    subst hnil
    exact spells_dottedPath h
  next => exact spells_relativePath h

theorem isAbsolute_foundPath (h : Names.Plain (folder ++ below)) :
    (foundPath folder below).isAbsolute = false := by
  unfold foundPath
  split
  next => rfl
  next => exact isAbsolute_relativePath h

/-- Where a file is found from is told by the dot in front of its path. -/
theorem same_foundPath_iff {folder' below' : Names} (h : Names.Plain (folder ++ below))
    (h' : Names.Plain (folder' ++ below')) :
    (foundPath folder below).same (foundPath folder' below') ↔
      (folder = [] ↔ folder' = []) ∧ folder ++ below = folder' ++ below' := by
  have hmixed (names names' : Names) : names.map Component.name ≠ .here :: names'.map .name :=
    map_name_ne_cons names (fun name => by simp) _
  rw [Path.same_iff, components_foundPath h, components_foundPath h']
  by_cases hnil : folder = [] <;> by_cases hnil' : folder' = []
  · simp [hnil, hnil', map_name_inj]
  · simpa [hnil, hnil'] using (hmixed (folder' ++ below') below).symm
  · simpa [hnil, hnil'] using hmixed (folder ++ below) below'
  · simp only [hnil, hnil', map_name_inj, if_false, List.nil_append, true_and]

end Spelling

def Reaches (project : ProjectSettings) (t : FileTree) (p : Path) (below : Names) : Prop :=
  t.HasFile (namesAt t project.root p ++ below) ∧
    (below = [] ∨ project.inScope (shownAs t project.root (namesAt t project.root p ++ below)))

theorem selected_iff {project : ProjectSettings} {t : FileTree} {paths : List Path} {names : Names} :
    Selected project t paths names ↔ ∃ p ∈ givenPaths paths, ∃ below,
      Reaches project t p below ∧ names = namesAt t project.root p ++ below := by
  constructor
  · rintro ⟨hfile, p, hp, rfl | ⟨⟨below, rfl⟩, hscope⟩⟩
    · exact ⟨p, hp, [], ⟨by rwa [List.append_nil], .inl rfl⟩, (List.append_nil _).symm⟩
    · exact ⟨p, hp, below, ⟨hfile, .inr hscope⟩, rfl⟩
  · rintro ⟨p, hp, below, ⟨hfile, rfl | hscope⟩, rfl⟩
    · exact ⟨hfile, p, hp, .inl (List.append_nil _).symm⟩
    · exact ⟨hfile, p, hp, .inr ⟨List.prefix_append _ _, hscope⟩⟩

/-- The working folder is the root and is walked, and another given path leads to one of the files
that are in scope there. -/
def FoundTwice (project : ProjectSettings) (t : FileTree) (paths : List Path) : Prop :=
  project.root.names = [] ∧ (∃ p ∈ givenPaths paths, p.names = []) ∧
    ∃ q ∈ givenPaths paths, q.names ≠ [] ∧ ∃ names, t.HasFile names ∧
      namesAt t project.root q <+: names ∧ project.inScope (shownAs t project.root names)

def targetBelow (project : ProjectSettings) (t : FileTree) (p : Path) (below : Names) : Target :=
  ⟨foundPath (project.root.names ++ p.names) below,
    shownAs t project.root (namesAt t project.root p ++ below)⟩

section Relative

variable {project : ProjectSettings} {t : FileTree} (hroot : project.root.isAbsolute = false)
  {p : Path} (hp : p.LeadsDown)
include hroot hp

theorem namesAt_relative :
    namesAt t project.root p = t.workingFolder ++ (project.root.names ++ p.names) := by
  have hstart : t.start project.root = t.workingFolder := by simp [FileTree.start, hroot]
  rw [namesAt, hstart, Path.absoluteFrom, hp.1, if_neg (by simp), Path.names_join hp.1 hp.2]

theorem clean_absoluteFrom_relative :
    (project.root.absoluteFrom p).clean = Names.relativePath (project.root.names ++ p.names) := by
  rw [Path.absoluteFrom, hp.1, if_neg (by simp), Path.clean_of_relative, Path.names_join hp.1 hp.2]
  rw [Path.isAbsolute_join_of_relative hp.1, hroot]

theorem shownAs_relative (below : Names) :
    shownAs t project.root (namesAt t project.root p ++ below) =
      ⟨Text.joinWith ['/'] (p.names ++ below)⟩ := by
  have hstart : t.start project.root = t.workingFolder := by simp [FileTree.start, hroot]
  have hnames : namesAt t project.root p ++ below =
      t.workingFolder ++ project.root.names ++ (p.names ++ below) := by
    simp only [namesAt_relative hroot hp, List.append_assoc]
  unfold shownAs
  rw [hnames, hstart, if_pos (List.prefix_append _ _), List.drop_left]

theorem target_of_foundPath {below : Names}
    (h : Names.Plain (project.root.names ++ p.names ++ below)) :
    Target.of project.root.clean (foundPath (project.root.names ++ p.names) below) =
      targetBelow project t p below := by
  unfold targetBelow Target.of Path.below?
  rw [shownAs_relative hroot hp, Path.clean_of_relative hroot,
    components_relativePath project.root.plain_names, components_foundPath h]
  by_cases hnil : project.root.names = []
  · by_cases hwalk : p.names = []
    · simp [hnil, hwalk, Path.slashed, Component.text, Function.comp_def]
    · obtain ⟨name, rest, hname⟩ := List.exists_cons_of_ne_nil hwalk
      simp [hnil, hname, foundPath, Names.relativePath]
  · simp [hnil, Path.slashed, Component.text, Function.comp_def]

variable (hwf : t.WellFormed)
include hwf

theorem plain_of_hasFile {below : Names} (h : t.HasFile (namesAt t project.root p ++ below)) :
    Names.Plain (project.root.names ++ p.names ++ below) := by
  obtain ⟨_, _, he⟩ := h
  rw [namesAt_relative hroot hp, List.append_assoc] at he
  exact (hwf.plain he).of_append_right

theorem locate_targetBelow {below : Names} (h : t.HasFile (namesAt t project.root p ++ below)) :
    t.locate (targetBelow project t p below).path = .ok (namesAt t project.root p ++ below) := by
  have hplain := plain_of_hasFile hroot hp hwf h
  have hstart : t.start (targetBelow project t p below).path = t.workingFolder := by
    simp [FileTree.start, targetBelow, isAbsolute_foundPath hplain]
  obtain ⟨_, _, he⟩ := h
  rw [namesAt_relative hroot hp, List.append_assoc, ← hstart] at he ⊢
  exact hwf.locate_of_spells (spells_foundPath hplain) he

theorem mem_targetsAt_relative_iff {each : List Target}
    (heach : targetsAt project t (project.root.absoluteFrom p).clean = .ok each)
    {target : Target} : target ∈ each ↔ ∃ below, Reaches project t p below ∧
      target = targetBelow project t p below := by
  have hfolder : Names.Plain (project.root.names ++ p.names) :=
    project.root.plain_names.append p.plain_names
  have hstart : t.start (Names.relativePath (project.root.names ++ p.names)) = t.workingFolder := by
    simp [FileTree.start, isAbsolute_relativePath hfolder]
  rw [clean_absoluteFrom_relative hroot hp] at heach
  rw [mem_targetsAt_iff hwf (spells_relativePath hfolder) heach, hstart, ← namesAt_relative hroot hp]
  have hnamed (hfile : t.HasFile (namesAt t project.root p ++ [])) :
      Target.of project.root.clean (Names.relativePath (project.root.names ++ p.names)) =
        targetBelow project t p [] := by
    have hne : project.root.names ++ p.names ≠ [] := by
      -- The working folder is not a file.
      intro hnil
      obtain ⟨_, _, he⟩ := hfile
      rw [namesAt_relative hroot hp, hnil, List.append_nil, List.append_nil, hwf.working] at he
      cases he
    rw [← target_of_foundPath hroot hp (plain_of_hasFile hroot hp hwf hfile), foundPath,
      if_neg hne, List.append_nil]
  have hwalked (below : Names) (hfile : t.HasFile (namesAt t project.root p ++ below))
      (hne : below ≠ []) :
      Target.of project.root.clean ((Names.relativePath (project.root.names ++ p.names)).join
        ⟨Text.joinWith ['/'] below⟩) = targetBelow project t p below := by
    have hplain := plain_of_hasFile hroot hp hwf hfile
    rw [join_relativePath hfolder hplain.of_append_right hne, ← foundPath,
      target_of_foundPath hroot hp hplain]
  constructor
  · rintro ⟨below, hfile, ⟨rfl, rfl⟩ | ⟨hne, rfl, hscope⟩⟩
    · exact ⟨[], ⟨hfile, .inl rfl⟩, hnamed hfile⟩
    · rw [hwalked below hfile hne] at hscope ⊢
      exact ⟨below, ⟨hfile, .inr hscope⟩, rfl⟩
  · rintro ⟨below, ⟨hfile, hselected⟩, rfl⟩
    by_cases hnil : below = []
    · subst hnil
      exact ⟨[], hfile, .inl ⟨rfl, (hnamed hfile).symm⟩⟩
    · exact ⟨below, hfile, .inr ⟨hnil, (hwalked below hfile hnil).symm, hselected.resolve_left hnil⟩⟩

end Relative

section Selection

variable {project : ProjectSettings} {t : FileTree} (hwf : t.WellFormed)
  (hroot : project.root.isAbsolute = false)
include hwf hroot

section Pair

variable {p q : Path} (hp : p.LeadsDown) (hq : q.LeadsDown) {below below' : Names}
  (h : t.HasFile (namesAt t project.root p ++ below))
  (h' : t.HasFile (namesAt t project.root q ++ below'))
include hp hq h h'

/-- Two targets have the same path if they are one file and both or none are found from the working
folder itself. -/
theorem same_targetBelow_iff :
    (targetBelow project t p below).path.same (targetBelow project t q below').path ↔
      (project.root.names ++ p.names = [] ↔ project.root.names ++ q.names = []) ∧
        namesAt t project.root p ++ below = namesAt t project.root q ++ below' := by
  unfold targetBelow
  rw [same_foundPath_iff (plain_of_hasFile hroot hp hwf h) (plain_of_hasFile hroot hq hwf h'),
    namesAt_relative hroot hp, namesAt_relative hroot hq, List.append_assoc t.workingFolder,
    List.append_assoc t.workingFolder, List.append_right_inj]

theorem eq_of_components_display
    (heq : (targetBelow project t p below).display.components =
      (targetBelow project t q below').display.components) :
    namesAt t project.root p ++ below = namesAt t project.root q ++ below' := by
  have hplain := plain_of_hasFile hroot hp hwf h
  have hplain' := plain_of_hasFile hroot hq hwf h'
  rw [List.append_assoc] at hplain hplain'
  unfold targetBelow at heq
  rw [shownAs_relative hroot hp, shownAs_relative hroot hq,
    components_joinWith hplain.of_append_right, components_joinWith hplain'.of_append_right,
    map_name_inj] at heq
  simp only [namesAt_relative hroot hp, namesAt_relative hroot hq, List.append_assoc, heq]

end Pair

variable {paths : List Path} (hdown : ∀ p ∈ givenPaths paths, p.LeadsDown)
include hdown

theorem foundTwice_of_reaches {p q : Path} (hp : p ∈ givenPaths paths) (hq : q ∈ givenPaths paths)
    {below below' : Names} (h : Reaches project t p below) (h' : Reaches project t q below')
    (hsame : namesAt t project.root p ++ below = namesAt t project.root q ++ below')
    (hwalk : project.root.names ++ p.names = []) (hother : project.root.names ++ q.names ≠ []) :
    FoundTwice project t paths := by
  obtain ⟨hnil, hwalk⟩ := List.append_eq_nil_iff.1 hwalk
  have hq' : q.names ≠ [] := by simpa [hnil] using hother
  have hne : below ≠ [] := by
    rintro rfl
    obtain ⟨⟨_, _, he⟩, -⟩ := h
    simp [namesAt_relative hroot (hdown p hp), hnil, hwalk, hwf.working] at he
  refine ⟨hnil, ⟨p, hp, hwalk⟩, q, hq, hq', _, h'.1, List.prefix_append _ _, ?_⟩
  rw [← hsame]
  exact h.2.resolve_left hne

variable {found : List Target} (hfound : targets project t paths = .ok found)
include hfound

theorem exists_unordered_relative : ∃ unordered, found = dropRepeats none (inOrder unordered) ∧
    ∀ target, target ∈ unordered ↔ ∃ p ∈ givenPaths paths, ∃ below, Reaches project t p below ∧
      target = targetBelow project t p below := by
  obtain ⟨unordered, rfl, hunordered⟩ := exists_unordered hfound
  refine ⟨unordered, rfl, fun target => (hunordered target).trans ?_⟩
  constructor
  · rintro ⟨p, hp, each, heach, htarget⟩
    exact ⟨p, hp, (mem_targetsAt_relative_iff hroot (hdown p hp) hwf heach).1 htarget⟩
  · rintro ⟨p, hp, hreaches⟩
    obtain ⟨each, heach⟩ := exists_targetsAt_iff.2 (exists_targets_iff.1 ⟨_, hfound⟩ p hp)
    exact ⟨p, hp, each, heach, (mem_targetsAt_relative_iff hroot (hdown p hp) hwf heach).2 hreaches⟩

theorem exists_reaches_of_mem {target : Target} (htarget : target ∈ found) :
    ∃ p ∈ givenPaths paths, ∃ below, Reaches project t p below ∧
      target = targetBelow project t p below := by
  obtain ⟨unordered, rfl, hunordered⟩ := exists_unordered_relative hwf hroot hdown hfound
  exact (hunordered target).1 (mem_of_kept htarget)

/-- A file that a given path leads to comes out, by the path that it is found by. -/
theorem exists_target_of_reaches {p : Path} (hp : p ∈ givenPaths paths) {below : Names}
    (h : Reaches project t p below) :
    ∃ target ∈ found, (targetBelow project t p below).path.same target.path ∧
      t.locate target.path = .ok (namesAt t project.root p ++ below) := by
  obtain ⟨unordered, rfl, hunordered⟩ := exists_unordered_relative hwf hroot hdown hfound
  obtain ⟨kept, hkept, hsame⟩ := exists_kept ((hunordered _).2 ⟨p, hp, below, h, rfl⟩)
  obtain ⟨q, hq, below', h', rfl⟩ := (hunordered kept).1 (mem_of_kept hkept)
  obtain ⟨-, heq⟩ :=
    (same_targetBelow_iff hwf hroot (hdown p hp) (hdown q hq) h.1 h'.1).1 hsame
  exact ⟨_, hkept, hsame, heq ▸ locate_targetBelow hroot (hdown q hq) hwf h'.1⟩

theorem located_iff_selected {names : Names} :
    (∃ target ∈ found, t.locate target.path = .ok names) ↔ Selected project t paths names := by
  rw [selected_iff]
  constructor
  · rintro ⟨target, htarget, hlocate⟩
    obtain ⟨p, hp, below, h, rfl⟩ := exists_reaches_of_mem hwf hroot hdown hfound htarget
    rw [locate_targetBelow hroot (hdown p hp) hwf h.1] at hlocate
    exact ⟨p, hp, below, h, (Except.ok.inj hlocate).symm⟩
  · rintro ⟨p, hp, below, h, rfl⟩
    obtain ⟨target, htarget, -, hlocate⟩ := exists_target_of_reaches hwf hroot hdown hfound hp h
    exact ⟨target, htarget, hlocate⟩

theorem not_pairwise_of_foundTwice (htwice : FoundTwice project t paths) :
    ¬found.Pairwise fun a b => t.locate a.path ≠ t.locate b.path := by
  obtain ⟨hnil, ⟨p, hp, hwalk⟩, q, hq, hother, _, hfile, ⟨below, rfl⟩, hscope⟩ := htwice
  have hsame : namesAt t project.root p ++ (q.names ++ below) = namesAt t project.root q ++ below := by
    simp [namesAt_relative hroot (hdown p hp), namesAt_relative hroot (hdown q hq), hnil, hwalk]
  have hq' : Reaches project t q below := ⟨hfile, .inr hscope⟩
  have hp' : Reaches project t p (q.names ++ below) := by
    rw [Reaches, hsame]
    exact ⟨hfile, .inr hscope⟩
  obtain ⟨a, ha, hsameA, hlocateA⟩ := exists_target_of_reaches hwf hroot hdown hfound hp hp'
  obtain ⟨b, hb, hsameB, hlocateB⟩ := exists_target_of_reaches hwf hroot hdown hfound hq hq'
  have hne : a ≠ b := by
    rintro rfl
    have hpaths : (targetBelow project t p (q.names ++ below)).path.same
        (targetBelow project t q below).path := by
      rw [Path.same_iff] at hsameA hsameB ⊢
      rw [hsameA, hsameB]
    rw [same_targetBelow_iff hwf hroot (hdown p hp) (hdown q hq) hp'.1 hq'.1] at hpaths
    simp [hnil, hwalk, hother] at hpaths
  intro hpairwise
  have hnodup : (found.map fun target => t.locate target.path).Nodup := List.pairwise_map.2 hpairwise
  exact hne (List.inj_on_of_nodup_map hnodup ha hb (by rw [hlocateA, hlocateB, hsame]))

/-- If no file is found twice, no two targets are shown alike. -/
theorem pairwise_before_of_not_foundTwice (honce : ¬FoundTwice project t paths) :
    found.Pairwise Target.Before := by
  obtain ⟨unordered, rfl, hunordered⟩ := exists_unordered_relative hwf hroot hdown hfound
  refine pairwise_before_dropRepeats (pairwise_inOrder unordered) fun a ha b hb hshown => ?_
  obtain ⟨p, hp, below, h, rfl⟩ := (hunordered a).1 (mem_inOrder.1 ha)
  obtain ⟨q, hq, below', h', rfl⟩ := (hunordered b).1 (mem_inOrder.1 hb)
  have hsame := eq_of_components_display hwf hroot (hdown p hp) (hdown q hq) h.1 h'.1 hshown
  rw [same_targetBelow_iff hwf hroot (hdown p hp) (hdown q hq) h.1 h'.1]
  refine ⟨?_, hsame⟩
  by_cases hwalk : project.root.names ++ p.names = [] <;>
    by_cases hwalk' : project.root.names ++ q.names = []
  · exact iff_of_true hwalk hwalk'
  · exact absurd (foundTwice_of_reaches hwf hroot hdown hp hq h h' hsame hwalk hwalk') honce
  · exact absurd (foundTwice_of_reaches hwf hroot hdown hq hp h' h hsame.symm hwalk' hwalk) honce
  · exact iff_of_false hwalk hwalk'

theorem pairwise_of_not_foundTwice (honce : ¬FoundTwice project t paths) :
    found.Pairwise fun a b => t.locate a.path ≠ t.locate b.path := by
  have hbefore := pairwise_before_of_not_foundTwice hwf hroot hdown hfound honce
  refine hbefore.imp_of_mem fun {a b} ha hb hlt hlocate => ?_
  obtain ⟨p, hp, below, h, rfl⟩ := exists_reaches_of_mem hwf hroot hdown hfound ha
  obtain ⟨q, hq, below', h', rfl⟩ := exists_reaches_of_mem hwf hroot hdown hfound hb
  rw [locate_targetBelow hroot (hdown p hp) hwf h.1, locate_targetBelow hroot (hdown q hq) hwf h'.1]
    at hlocate
  -- One file is shown in one way, so that it cannot be shown before itself.
  unfold Target.Before targetBelow at hlt
  rw [Except.ok.inj hlocate] at hlt
  exact Std.OrientedCmp.not_isLE_of_lt hlt Std.ReflCmp.isLE_rfl

theorem pairwise_iff_not_foundTwice :
    (found.Pairwise fun a b => t.locate a.path ≠ t.locate b.path) ↔ ¬FoundTwice project t paths :=
  ⟨fun h htwice => not_pairwise_of_foundTwice hwf hroot hdown hfound htwice h,
    pairwise_of_not_foundTwice hwf hroot hdown hfound⟩

/-- Targets are as many as selected files where no two lead to the same. -/
theorem length_eq_ncard_iff : found.length = {names | Selected project t paths names}.ncard ↔
    found.Pairwise fun a b => t.locate a.path ≠ t.locate b.path := by
  let located := found.map fun target => t.locate target.path
  have himage : Set.image Except.ok {names | Selected project t paths names} =
      (located.toFinset : Set (Except FileError Names)) := by
    rw [List.coe_toFinset]
    ext x
    simp only [Set.mem_image, Set.mem_ofPred_eq, located, List.mem_map]
    constructor
    · rintro ⟨names, hselected, rfl⟩
      exact (located_iff_selected hwf hroot hdown hfound).2 hselected
    · rintro ⟨target, htarget, rfl⟩
      obtain ⟨p, hp, below, h, rfl⟩ := exists_reaches_of_mem hwf hroot hdown hfound htarget
      have hlocate := locate_targetBelow hroot (hdown p hp) hwf h.1
      exact ⟨_, (located_iff_selected hwf hroot hdown hfound).1 ⟨_, htarget, hlocate⟩, hlocate.symm⟩
  have hcard : {names | Selected project t paths names}.ncard = located.toFinset.card := by
    rw [← Set.ncard_coe_finset, ← himage, Set.ncard_image_of_injective _ fun _ _ => Except.ok.inj]
  have hlength : found.length = located.length := by simp [located]
  rw [hcard, hlength, eq_comm, ← List.pairwise_map]
  exact Multiset.toFinset_card_eq_card_iff_nodup

end Selection

theorem leadsDown_of_mem_givenPaths {paths : List Path} (h : ∀ p ∈ paths, p.LeadsDown) {p : Path}
    (hp : p ∈ givenPaths paths) : p.LeadsDown := by
  unfold givenPaths at hp
  split at hp
  next =>
    obtain rfl := List.mem_singleton.1 hp
    exact ⟨rfl, by decide⟩
  next => exact h p hp

/-- Below a relative root, the targets at paths without `..` lead to the selected files. A file
comes out once, and the number of files scanned is that of the files selected, unless the root is
the working folder, is itself given, and another given path leads to a file in scope there. -/
theorem relative_files_scanned_once_iff {s : Settings} {t : FileTree} (hwf : t.WellFormed)
    (hroot : s.project.root.isAbsolute = false) {paths : List Path}
    (hdown : ∀ p ∈ paths, p.LeadsDown)
    (hthere : ∀ p ∈ givenPaths paths, t.contains (s.project.root.absoluteFrom p).clean) :
    ∃ found report, targets s.project t paths = .ok found ∧ check s t paths = .ok report ∧
      (∀ names, (∃ target ∈ found, t.locate target.path = .ok names) ↔
        Selected s.project t paths names) ∧
      ((found.Pairwise fun a b => t.locate a.path ≠ t.locate b.path) ↔
        ¬FoundTwice s.project t paths) ∧
      (report.filesScanned = {names | Selected s.project t paths names}.ncard ↔
        ¬FoundTwice s.project t paths) := by
  have hgiven := fun p => @leadsDown_of_mem_givenPaths paths hdown p
  obtain ⟨found, hfound⟩ := exists_targets_iff.2 hthere
  have honce := pairwise_iff_not_foundTwice hwf hroot hgiven hfound
  refine ⟨found, _, hfound, by rw [check, hfound]; rfl,
    fun names => located_iff_selected hwf hroot hgiven hfound, honce, ?_⟩
  exact (length_eq_ncard_iff hwf hroot hgiven hfound).trans honce

/-- A file, a folder and a file in it. -/
theorem relative_files_scanned_once_named :
    ∃ (t : FileTree) (found : List Target) (report : Report), t.WellFormed ∧
      targets (Config.defaults (.ofString ".")).project t
        [.ofString "a.ini", .ofString "s", .ofString "./s//b.ini"] = .ok found ∧
      check (Config.defaults (.ofString ".")).toSettings t
        [.ofString "a.ini", .ofString "s", .ofString "./s//b.ini"] = .ok report ∧
      (found.Pairwise fun a b => t.locate a.path ≠ t.locate b.path) ∧
      report.filesScanned = {names | Selected (Config.defaults (.ofString ".")).project t
        [.ofString "a.ini", .ofString "s", .ofString "./s//b.ini"] names}.ncard := by
  let s := (Config.defaults (.ofString ".")).toSettings
  let paths : List Path := [.ofString "a.ini", .ofString "s", .ofString "./s//b.ini"]
  let t : FileTree :=
    { entries := [([['w']], .folder), ([['w'], "a.ini".toList], .file [] false),
        ([['w'], ['s']], .folder), ([['w'], ['s'], "b.ini".toList], .file [] false)]
      workingFolder := [['w']] }
  have hwf : t.WellFormed := by decide +kernel
  have hroot : s.project.root.isAbsolute = false := by decide +kernel
  have hdown : ∀ p ∈ paths, p.LeadsDown := by unfold Path.LeadsDown; decide +kernel
  have hthere : ∀ p ∈ givenPaths paths, t.contains (s.project.root.absoluteFrom p).clean := by
    decide +kernel
  have hnamed : ∀ p ∈ givenPaths paths, p.names ≠ [] := by decide +kernel
  have honce : ¬FoundTwice s.project t paths := fun ⟨_, ⟨p, hp, hnil⟩, _⟩ => hnamed p hp hnil
  obtain ⟨found, report, hfound, hreport, -, hapart, hscanned⟩ :=
    relative_files_scanned_once_iff hwf hroot hdown hthere
  exact ⟨t, found, report, hwf, hfound, hreport, hapart.2 honce, hscanned.2 honce⟩

/-- The working folder and a file in it. -/
theorem relative_file_scanned_twice :
    ∃ (t : FileTree) (found : List Target) (report : Report), t.WellFormed ∧
      t.contains (.ofString ".") ∧ t.contains (.ofString "a.ini") ∧
      targets (Config.defaults (.ofString ".")).project t [.ofString ".", .ofString "a.ini"] =
        .ok found ∧
      check (Config.defaults (.ofString ".")).toSettings t [.ofString ".", .ofString "a.ini"] =
        .ok report ∧
      (¬found.Pairwise fun a b => t.locate a.path ≠ t.locate b.path) ∧
      report.filesScanned ≠ {names | Selected (Config.defaults (.ofString ".")).project t
        [.ofString ".", .ofString "a.ini"] names}.ncard := by
  let s := (Config.defaults (.ofString ".")).toSettings
  let paths : List Path := [.ofString ".", .ofString "a.ini"]
  let t : FileTree :=
    { entries := [([['w']], .folder), ([['w'], "a.ini".toList], .file [] false)]
      workingFolder := [['w']] }
  have hwf : t.WellFormed := by decide +kernel
  have hroot : s.project.root.isAbsolute = false := by decide +kernel
  have hdown : ∀ p ∈ givenPaths paths, p.LeadsDown := by unfold Path.LeadsDown; decide +kernel
  have hthere : ∀ p ∈ givenPaths paths, t.contains (s.project.root.absoluteFrom p).clean := by
    decide +kernel
  obtain ⟨found, hfound⟩ := exists_targets_iff.2 hthere
  have htwice : FoundTwice s.project t paths :=
    ⟨by decide +kernel, ⟨.ofString ".", by simp [givenPaths, paths], by decide +kernel⟩,
      .ofString "a.ini", by simp [givenPaths, paths], by decide +kernel,
      [['w'], "a.ini".toList], ⟨[], false, rfl⟩, by decide +kernel, by decide +kernel⟩
  have hapart := not_pairwise_of_foundTwice hwf hroot hdown hfound htwice
  refine ⟨t, found, _, hwf, by decide +kernel, by decide +kernel, hfound,
    by rw [check, hfound]; rfl, hapart, fun hscanned => hapart ?_⟩
  exact (length_eq_ncard_iff hwf hroot hdown hfound).1 hscanned

end Project

end SkinLint
