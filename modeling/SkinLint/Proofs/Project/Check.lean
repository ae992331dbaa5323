import SkinLint.Proofs.FileTree.Changed
import SkinLint.Proofs.Project.RelativeRoot

/-!
# Files that are checked by themselves

Which files are checked does not depend on what is written in them, and included files are only
looked for. If the contents of one file change, nothing changes in a report but the share of that
file.
-/
namespace SkinLint

namespace Report

theorem count_eq_length_filter (r : Report) (severity : Severity) : r.count severity =
    (r.findings.filter fun f => f.diagnostic.severity = severity).length := by
  rw [count, List.countP_eq_length_filter]
  simp [BEq.beq]

theorem exitCode_eq (r : Report) : r.exitCode =
    if (∃ f ∈ r.findings, f.diagnostic.severity = .error) ∨ r.skipped ≠ [] then 1 else 0 := by
  have hcount : 0 < r.count .error ↔ ∃ f ∈ r.findings, f.diagnostic.severity = .error := by
    simp [count, List.countP_pos_iff]
  unfold exitCode hasErrors
  simp only [Bool.or_eq_true, decide_eq_true_eq, gt_iff_lt, hcount, Bool.not_eq_true',
    List.isEmpty_eq_false_iff]

end Report

namespace Project

def reportOn (s : Settings) (t : FileTree) (found : List Target) : Report :=
  { filesScanned := found.length
    findings := found.flatMap fun target => findingsOf (checkTarget s t target)
    skipped := found.filterMap fun target => skipped? target (checkTarget s t target) }

/-- The share of a file in a report, for the targets that lead to it: for each the diagnostics of
its text, or that it was skipped. -/
def IsShare (s : Settings) (t : FileTree) (contents : Bytes) (own : List Target) : Prop :=
  match Source.decode contents with
  | .ok source =>
    (reportOn s t own).findings = own.flatMap (fun target =>
      (Validation.validate s.validation s.meters t.contains target.path source.text).map
        (⟨target.display, ·⟩)) ∧
      (reportOn s t own).skipped = []
  | .error reason =>
    (reportOn s t own).findings = [] ∧
      (reportOn s t own).skipped = own.map fun target => ⟨target.display, reason.message⟩

/-- A report gives the findings in the files one after the other, and counts them. -/
structure SumsUp (s : Settings) (t : FileTree) (found : List Target) (report : Report) : Prop where
  filesScanned : report.filesScanned = found.length
  findings : report.findings = found.flatMap fun target => findingsOf (checkTarget s t target)
  skipped : report.skipped = found.filterMap fun target => skipped? target (checkTarget s t target)
  counts : ∀ severity, report.count severity =
    (report.findings.filter fun f => f.diagnostic.severity = severity).length
  exitCode : report.exitCode =
    if (∃ f ∈ report.findings, f.diagnostic.severity = .error) ∨ report.skipped ≠ [] then 1 else 0

theorem sumsUp_reportOn (s : Settings) (t : FileTree) (found : List Target) :
    SumsUp s t found (reportOn s t found) where
  filesScanned := rfl
  findings := rfl
  skipped := rfl
  counts := Report.count_eq_length_filter _
  exitCode := Report.exitCode_eq _

theorem plain_of_mem_filesBelow {t : FileTree} (hwf : t.WellFormed) {folder below : Names}
    (h : below ∈ t.filesBelow folder) : below.Plain := by
  obtain ⟨-, _, _, he⟩ := hwf.mem_filesBelow_iff.1 h
  exact (hwf.plain he).of_append_right

section Changed

variable {file : Names} {old new : Bytes} {t t' : FileTree}
  (h : FileTree.ChangedAt file old new t t') (ht : t.WellFormed) (ht' : t'.WellFormed)
include h

section Targets

include ht ht'

theorem walk_eq : walk t' = walk t := by
  funext folder
  unfold walk
  rw [h.locate_eq]
  cases t.locate folder with
  | error e => rfl
  | ok names =>
    have hperm := (h.filesBelow_perm ht ht' names).map
      fun below => folder.join ⟨Text.joinWith ['/'] below⟩
    refine List.Perm.eq_of_pairwise (fun p q hp hq hpq hqp => ?_) (Path.pairwise_mergeSort _)
      (Path.pairwise_mergeSort _)
      ((List.mergeSort_perm _ _).trans (hperm.trans (List.mergeSort_perm _ _).symm))
    -- Files with the same components have the same names below the folder.
    obtain ⟨below, hbelow, rfl⟩ := List.mem_map.1 (List.mem_mergeSort.1 hp)
    obtain ⟨below', hbelow', rfl⟩ := List.mem_map.1 (List.mem_mergeSort.1 hq)
    have hplain := plain_of_mem_filesBelow ht' hbelow
    have hplain' := plain_of_mem_filesBelow ht hbelow'
    have hnames := congrArg Path.normalNames (Path.components_eq_of_le hpq hqp)
    change Path.names _ = Path.names _ at hnames
    rw [Path.names_join_joinWith folder hplain, Path.names_join_joinWith folder hplain',
      List.append_right_inj] at hnames
    rw [hnames]

theorem targets_eq (project : ProjectSettings) (paths : List Path) :
    targets project t' paths = targets project t paths := by
  have hat : targetsAt project t' = targetsAt project t := by
    funext start
    unfold targetsAt
    rw [h.isFile_eq, h.isFolder_eq, walk_eq h ht ht']
  unfold targets
  rw [hat]

end Targets

variable {s : Settings}

theorem checkTarget_eq {target : Target} (hother : t.locate target.path ≠ .ok file) :
    checkTarget s t' target = checkTarget s t target := by
  unfold checkTarget readSource
  rw [h.read_eq hother, h.contains_eq]

theorem reportOn_eq {others : List Target}
    (hothers : ∀ target ∈ others, t.locate target.path ≠ .ok file) :
    reportOn s t' others = reportOn s t others := by
  have hcheck : ∀ target ∈ others, checkTarget s t' target = checkTarget s t target :=
    fun target htarget => checkTarget_eq h (hothers target htarget)
  unfold reportOn
  congr 1
  · exact List.flatMap_congr fun target htarget => by rw [hcheck target htarget]
  · exact List.filterMap_congr fun target htarget => by rw [hcheck target htarget]

end Changed

theorem isShare_of_locate {s : Settings} {t : FileTree} {file : Names} {contents : Bytes} {x : Bool}
    (hfile : t.entry? file = some (.file contents x)) {own : List Target}
    (hown : ∀ target ∈ own, t.locate target.path = .ok file) : IsShare s t contents own := by
  have hread : ∀ target ∈ own, readSource t target.path =
      (Source.decode contents).mapError SourceError.encoding := by
    intro target htarget
    unfold readSource
    rw [(FileTree.read_eq_ok_iff _ _ _).2 ⟨file, x, hown target htarget, hfile⟩]
    cases hdecode : Source.decode contents <;> simp [hdecode, Except.mapError]
  unfold IsShare
  cases hdecode : Source.decode contents with
  | ok source =>
    have hcheck : ∀ target ∈ own, checkTarget s t target = .ok
        ((Validation.validate s.validation s.meters t.contains target.path source.text).map
          (⟨target.display, ·⟩)) := by
      intro target htarget
      rw [checkTarget, hread target htarget, hdecode]
      rfl
    constructor
    · exact List.flatMap_congr fun target htarget => by rw [hcheck target htarget]; rfl
    · exact List.filterMap_eq_nil_iff.2 fun target htarget => by rw [hcheck target htarget]; rfl
  | error reason =>
    have hcheck : ∀ target ∈ own, checkTarget s t target = .error (.encoding reason) := by
      intro target htarget
      rw [checkTarget, hread target htarget, hdecode]
      rfl
    constructor
    · exact List.flatMap_eq_nil_iff.2 fun target htarget => by rw [hcheck target htarget]; rfl
    · rw [← List.filterMap_eq_map']
      exact List.filterMap_congr fun target htarget => by rw [hcheck target htarget]; rfl

/-- Where no two targets lead to the same file, at most one leads to any. -/
theorem length_filter_le_one {t : FileTree} {found : List Target}
    (hapart : found.Pairwise fun a b => t.locate a.path ≠ t.locate b.path) (file : Names) :
    (found.filter fun target => t.locate target.path = .ok file).length ≤ 1 := by
  have hown := hapart.filter fun target => t.locate target.path = .ok file
  cases hfound : found.filter fun target => t.locate target.path = .ok file with
  | nil => simp
  | cons a rest =>
    cases rest with
    | nil => simp
    | cons b rest =>
      have hmem : ∀ c ∈ a :: b :: rest, t.locate c.path = .ok file := by
        intro c hc
        rw [← hfound] at hc
        simpa using (List.mem_filter.1 hc).2
      rw [hfound] at hown
      have hne := (List.pairwise_cons.1 hown).1 b List.mem_cons_self
      exact absurd ((hmem a (by simp)).trans (hmem b (by simp)).symm) hne

/-- If the contents of one file change, the same targets are checked, and the other targets are
reported as before. The file's share is what its own text gives, for each target that leads to it;
there is at most one below an absolute root, and below a relative one if no file is found twice. A
report sums up what is found in the files one after the other. -/
theorem changed_file_reported_apart {s : Settings} {t t' : FileTree} (ht : t.WellFormed)
    (ht' : t'.WellFormed) {file : Names} {old new : Bytes}
    (h : FileTree.ChangedAt file old new t t') (paths : List Path) :
    targets s.project t' paths = targets s.project t paths ∧
    (∀ e, targets s.project t paths = .error e →
      check s t paths = .error e ∧ check s t' paths = .error e) ∧
    ∀ found, targets s.project t paths = .ok found →
      let own := found.filter fun target => t.locate target.path = .ok file
      let others := found.filter fun target => t.locate target.path ≠ .ok file
      ∃ report report', check s t paths = .ok report ∧ check s t' paths = .ok report' ∧
        SumsUp s t found report ∧ SumsUp s t' found report' ∧
        (∀ target ∈ others, checkTarget s t' target = checkTarget s t target) ∧
        reportOn s t' others = reportOn s t others ∧
        IsShare s t old own ∧ IsShare s t' new own ∧
        (s.project.root.isAbsolute ∨ (s.project.root.isAbsolute = false ∧
          (∀ p ∈ paths, p.LeadsDown) ∧ ¬FoundTwice s.project t paths) → own.length ≤ 1) := by
  have htargets := targets_eq h ht ht' s.project paths
  refine ⟨htargets, fun e he => ?_, fun found hfound => ?_⟩
  · unfold check
    rw [htargets, he]
    exact ⟨rfl, rfl⟩
  · intro own others
    obtain ⟨x, hbefore⟩ := h.before
    obtain ⟨x', hnow⟩ := h.now
    have hown : ∀ target ∈ own, t.locate target.path = .ok file := by simp [own]
    have hothers : ∀ target ∈ others, t.locate target.path ≠ .ok file := by simp [others]
    refine ⟨reportOn s t found, reportOn s t' found, ?_, ?_, sumsUp_reportOn s t found,
      sumsUp_reportOn s t' found, fun target htarget => checkTarget_eq h (hothers target htarget),
      reportOn_eq h hothers, isShare_of_locate hbefore hown, isShare_of_locate hnow ?_,
      fun honce => length_filter_le_one ?_ file⟩
    · rw [check, hfound]
      rfl
    · rw [check, htargets, hfound]
      rfl
    · rwa [h.locate_eq]
    · obtain hroot | ⟨hroot, hdown, honce⟩ := honce
      · exact pairwise_located_targets ht hroot hfound
      · exact pairwise_of_not_foundTwice ht hroot
          (fun _ => leadsDown_of_mem_givenPaths hdown) hfound honce

/-- Beside a file that can be read, one that cannot any more. -/
theorem changed_file_reported_apart_unreadable :
    ∃ (t t' : FileTree) (found : List Target) (report report' : Report),
      FileTree.ChangedAt [['p'], "a.ini".toList] [] [255] t t' ∧
      targets (Config.defaults (.ofString "/p")).project t [] = .ok found ∧
      targets (Config.defaults (.ofString "/p")).project t' [] = .ok found ∧
      check (Config.defaults (.ofString "/p")).toSettings t [] = .ok report ∧
      check (Config.defaults (.ofString "/p")).toSettings t' [] = .ok report' ∧
      (found.filter fun target => t.locate target.path = .ok [['p'], "a.ini".toList]).length ≤ 1 ∧
      IsShare (Config.defaults (.ofString "/p")).toSettings t' [255]
        (found.filter fun target => t.locate target.path = .ok [['p'], "a.ini".toList]) ∧
      reportOn (Config.defaults (.ofString "/p")).toSettings t'
          (found.filter fun target => t.locate target.path ≠ .ok [['p'], "a.ini".toList]) =
        reportOn (Config.defaults (.ofString "/p")).toSettings t
          (found.filter fun target => t.locate target.path ≠ .ok [['p'], "a.ini".toList]) := by
  let s := (Config.defaults (.ofString "/p")).toSettings
  let tree (contents : Bytes) : FileTree :=
    { entries := [([['p']], .folder), ([['p'], "a.ini".toList], .file contents false),
        ([['p'], "b.ini".toList], .file [91, 65, 93, 10] false)] }
  have ht : (tree []).WellFormed := by decide +kernel
  have ht' : (tree [255]).WellFormed := by decide +kernel
  have hchanged : FileTree.ChangedAt [['p'], "a.ini".toList] [] [255] (tree []) (tree [255]) := by
    refine ⟨⟨rfl, by decide +kernel, ⟨false, rfl⟩, fun names hne => ?_⟩, false, rfl⟩
    have hother : (names == [['p'], "a.ini".toList]) = false := beq_false_of_ne hne
    simp only [FileTree.entry?, tree, List.lookup_cons, hother]
  have hthere : ∀ p ∈ givenPaths [], (tree []).contains (s.project.root.absoluteFrom p).clean := by
    decide +kernel
  obtain ⟨found, hfound⟩ := exists_targets_iff.2 hthere
  obtain ⟨hsame, -, hreports⟩ := @changed_file_reported_apart s _ _ ht ht' _ _ _ hchanged []
  obtain ⟨report, report', hreport, hreport', -, -, -, hothers, -, hshare, honce⟩ :=
    hreports found hfound
  exact ⟨_, _, found, report, report', hchanged, hfound, hsame.trans hfound, hreport, hreport',
    honce (.inl (by decide +kernel)), hshare, hothers⟩

/-- Found in the working folder and named, a file is skipped twice. -/
theorem unreadable_file_skipped_twice :
    ∃ report, check (Config.defaults (.ofString ".")).toSettings
      { entries := [([['w']], .folder), ([['w'], "a.ini".toList], .file [255] false)]
        workingFolder := [['w']] } [.ofString ".", .ofString "a.ini"] = .ok report ∧
      1 < report.skipped.length := by
  let s := (Config.defaults (.ofString ".")).toSettings
  let paths : List Path := [.ofString ".", .ofString "a.ini"]
  let file : Names := [['w'], "a.ini".toList]
  let t : FileTree :=
    { entries := [([['w']], .folder), (file, .file [255] false)], workingFolder := [['w']] }
  have hwf : t.WellFormed := by decide +kernel
  have hroot : s.project.root.isAbsolute = false := by decide +kernel
  have hdown : ∀ p ∈ givenPaths paths, p.LeadsDown := by unfold Path.LeadsDown; decide +kernel
  have hthere : ∀ p ∈ givenPaths paths, t.contains (s.project.root.absoluteFrom p).clean := by
    decide +kernel
  obtain ⟨found, hfound⟩ := exists_targets_iff.2 hthere
  have htwice : FoundTwice s.project t paths := by
    refine ⟨by decide +kernel, ⟨.ofString ".", by simp [givenPaths, paths], by decide +kernel⟩,
      .ofString "a.ini", by simp [givenPaths, paths], by decide +kernel,
      file, ⟨[255], false, rfl⟩, by decide +kernel, by decide +kernel⟩
  have hapart := not_pairwise_of_foundTwice hwf hroot hdown hfound htwice
  have hown : ∀ target ∈ found, t.locate target.path = .ok file := by
    intro target htarget
    obtain ⟨p, hp, below, hreaches, rfl⟩ := exists_reaches_of_mem hwf hroot hdown hfound htarget
    rw [locate_targetBelow hroot (hdown p hp) hwf hreaches.1]
    obtain ⟨contents, x, he⟩ := hreaches.1
    generalize namesAt t s.project.root p ++ below = names at he
    have hne : names ≠ [] := by
      rintro rfl
      cases he
    have hmem := hwf.mem_entries_iff.2 ⟨hne, he⟩
    simp only [t, List.mem_cons, Prod.mk.injEq, reduceCtorEq, and_false, List.not_mem_nil,
      or_false, false_or] at hmem
    rw [hmem.1]
  have hshare : IsShare s t [255] found := isShare_of_locate rfl hown
  have hdecode : Source.decode [255] = .error .notUtf8 := by decide +kernel
  rw [IsShare, hdecode] at hshare
  refine ⟨reportOn s t found, by rw [check, hfound]; rfl, ?_⟩
  rw [hshare.2, List.length_map]
  by_contra hlength
  obtain _ | ⟨target, _ | ⟨_, _⟩⟩ := found
  · exact hapart .nil
  · exact hapart (List.pairwise_singleton _ target)
  · simp at hlength

end Project

end SkinLint
