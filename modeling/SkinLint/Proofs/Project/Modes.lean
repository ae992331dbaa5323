import SkinLint.Proofs.Project.Format
import SkinLint.Proofs.Project.Targets

/-!
# Modes of formatting

All modes look at the same files and find the same ones out of their layout. Only one of them
writes, and below an absolute root nothing keeps it from writing: the files that are out of their
layout are brought into it, and every other entry of the tree stays what it was.
-/
namespace SkinLint

theorem Source.laidOut_ne {bytes : Bytes} {source : Source} (h : Source.decode bytes = .ok source)
    (hne : Layout.format source.text ≠ source.text) : source.laidOut ≠ bytes := by
  intro heq
  rw [← heq, Source.laidOut, Source.decode_encode] at h
  split at h
  next hmark =>
    have hencoding := congrArg Source.encoding (Except.ok.inj h)
    rw [hmark.1] at hencoding
    cases hencoding
  next => exact hne (congrArg Source.text (Except.ok.inj h))

namespace Project

def formatReportOn (mode : FormatMode) (t : FileTree) (found : List Target) : FormatReport :=
  { filesScanned := found.length
    changes := (found.filterMap (changeOf? t)).map fun c =>
      (c.target.display, if mode = .diff then c.diff? else none)
    skipped := found.filterMap fun target => skipped? target (changeOf t target) }

def FormatReport.changedPaths (r : FormatReport) : List Path := r.changes.map Prod.fst

section Writing

def IsWritable (t : FileTree) (c : Change) : Prop :=
  ∃ names : Names, names.Plain ∧ c.target.path = names.path ∧
    t.locate c.target.path = .ok names ∧ t.HasFile names

theorem ne_nil_of_hasFile {t : FileTree} {names : Names} (h : t.HasFile names) : names ≠ [] := by
  obtain ⟨old, x, he⟩ := h
  apply FileTree.ne_nil_of_entry? (t := t)
  simp [he]

theorem IsWritable.exists_replace {t : FileTree} {c : Change} (h : IsWritable t c) :
    ∃ names t', t.locate c.target.path = .ok names ∧
      t.replace c.target.path c.contents = .ok t' ∧ FileTree.Rewrites t t' names c.contents := by
  obtain ⟨names, hplain, hpath, hl, hfile⟩ := h
  have hne := ne_nil_of_hasFile hfile
  have habsolute : c.target.path.isAbsolute := by simp [hpath, Path.isAbsolute, Names.path]
  have hpieces : c.target.path.pieces = ([] :: names.dropLast) ++ [names.getLast hne] := by
    rw [hpath, pieces_path hplain, if_neg hne, List.cons_append, List.dropLast_append_getLast]
  have hlast : FileTree.IsName (names.getLast hne) := hplain.isName _ (List.getLast_mem hne)
  obtain ⟨old, x, he⟩ := hfile
  obtain ⟨t', hr⟩ := FileTree.exists_replace habsolute hpieces hlast hl he c.contents
  exact ⟨names, t', hl, hr, FileTree.replace_rewrites habsolute hl hr⟩

theorem IsWritable.of_rewrites {t t' : FileTree} {c : Change} {names : Names} {contents : Bytes}
    (h : IsWritable t c) (hr : FileTree.Rewrites t t' names contents) : IsWritable t' c := by
  obtain ⟨own, hplain, hpath, hl, hfile⟩ := h
  refine ⟨own, hplain, hpath, (hr.locate_iff _ _).2 hl, ?_⟩
  by_cases heq : own = names
  · rw [heq]
    exact ⟨contents, hr.now⟩
  · rwa [FileTree.HasFile, hr.others own heq]

/-- Changes to files that are there are written, and nothing else is. -/
theorem exists_writeAll {changes : List Change} {t : FileTree} (h : ∀ c ∈ changes, IsWritable t c) :
    ∃ t', writeAll changes t = .ok t' ∧
      ∀ names, ¬Touched t changes names → t'.entry? names = t.entry? names := by
  induction changes generalizing t with
  | nil => exact ⟨t, rfl, fun _ _ => rfl⟩
  | cons c rest ih =>
    obtain ⟨own, t₁, hl, hr, hrewrites⟩ := (h c List.mem_cons_self).exists_replace
    have hrest : ∀ d ∈ rest, IsWritable t₁ d := fun d hd =>
      (h d (List.mem_cons_of_mem c hd)).of_rewrites hrewrites
    obtain ⟨t', hw, hkeep⟩ := ih hrest
    refine ⟨t', ?_, fun names hnames => ?_⟩
    · rw [writeAll, hr]
      exact hw
    · have hother : names ≠ own := fun heq => hnames ⟨c, List.mem_cons_self, heq ▸ hl⟩
      rw [hkeep names, hrewrites.others names hother]
      rintro ⟨d, hd, hlocate⟩
      apply hnames
      exact ⟨d, List.mem_cons_of_mem c hd, (hrewrites.locate_iff _ _).1 hlocate⟩

end Writing

section Reporting

variable {mode : FormatMode} {t : FileTree} {found : List Target}

theorem format_of_targets {s : Settings} {paths : List Path}
    (hf : targets s.project t paths = .ok found) : format s mode paths t =
      if mode = .write then
        (writeAll (found.filterMap (changeOf? t)) t).map (formatReportOn mode t found, ·)
      else .ok (formatReportOn mode t found, t) := by
  unfold format
  rw [hf]
  cases mode with
  | check => rfl
  | diff => rfl
  | write =>
    cases hw : writeAll (found.filterMap (changeOf? t)) t <;>
      simp [hw, bind, Except.bind, Except.map, pure, Except.pure, formatReportOn]

theorem changedPaths_formatReportOn : (formatReportOn mode t found).changedPaths =
    (found.filterMap (changeOf? t)).map fun c => c.target.display := by
  simp [FormatReport.changedPaths, formatReportOn]

theorem target_of_changeOf? {target : Target} {c : Change} (h : changeOf? t target = some c) :
    c.target = target := by
  obtain ⟨source, -, hc⟩ := (changeOf_eq_ok_iff t target _).1 ((changeOf?_eq_some_iff t target c).1 h)
  split at hc
  · cases hc
  · rw [Option.some.inj hc]

theorem changedPaths_sublist :
    (formatReportOn mode t found).changedPaths.Sublist (found.map Target.display) := by
  rw [changedPaths_formatReportOn]
  induction found with
  | nil => simp
  | cons target rest ih =>
    cases hc : changeOf? t target with
    | none =>
      rw [List.filterMap_cons_none hc]
      exact ih.cons _
    | some c =>
      rw [List.filterMap_cons_some hc, List.map_cons, target_of_changeOf? hc]
      exact ih.cons_cons _

theorem isSome_diff {change : Path × Option Text} (h : change ∈ (formatReportOn mode t found).changes) :
    change.2.isSome ↔ mode = .diff := by
  obtain ⟨c, hc, rfl⟩ := List.mem_map.1 h
  obtain ⟨target, -, hchange⟩ := List.mem_filterMap.1 hc
  obtain ⟨source, -, hsome⟩ :=
    (changeOf_eq_ok_iff t target _).1 ((changeOf?_eq_some_iff t target c).1 hchange)
  split at hsome
  next => cases hsome
  next hne =>
    obtain rfl := Option.some.inj hsome
    by_cases hmode : mode = .diff
    · simp [hmode, Change.diff?, Diff.unified?, Ne.symm hne]
    · simp [hmode]

end Reporting

section Fates

/-- What becomes of a selected file, and what a report says of it: it is skipped, it is in its
layout already, or it is brought into it. -/
inductive Fate (report : FormatReport) (shown : Path) (old : Bytes) : Bytes → Prop
  | skipped {reason : DecodeError} (undecoded : Source.decode old = .error reason)
      (told : ⟨shown, reason.message⟩ ∈ report.skipped) (absent : shown ∉ report.changedPaths) :
      Fate report shown old old
  | kept {source : Source} (decoded : Source.decode old = .ok source)
      (inLayout : Layout.format source.text = source.text)
      (read : ∀ skip ∈ report.skipped, skip.path ≠ shown) (absent : shown ∉ report.changedPaths) :
      Fate report shown old old
  | changed {source : Source} (decoded : Source.decode old = .ok source)
      (outOfLayout : Layout.format source.text ≠ source.text)
      (read : ∀ skip ∈ report.skipped, skip.path ≠ shown) (told : shown ∈ report.changedPaths)
      (differs : source.encoding.encode (Layout.format source.text) ≠ old) :
      Fate report shown old (source.encoding.encode (Layout.format source.text))

variable {s : Settings} {t : FileTree} {paths : List Path} {found : List Target}
  (hwf : t.WellFormed) (hroot : s.project.root.isAbsolute)
  (hfound : targets s.project t paths = .ok found)

theorem locate_path (hwf : t.WellFormed) {names : Names} (hfile : t.HasFile names) :
    names.Plain ∧ t.locate names.path = .ok names := by
  obtain ⟨old, x, he⟩ := hfile
  exact ⟨hwf.plain he, hwf.locate_path he⟩

theorem readSource_path (hwf : t.WellFormed) {names : Names} {old : Bytes} {x : Bool}
    (he : t.entry? names = some (.file old x)) :
    readSource t names.path = (Source.decode old).mapError .encoding := by
  have hl := hwf.locate_path he
  unfold readSource
  rw [(FileTree.read_eq_ok_iff _ _ _).2 ⟨names, x, hl, he⟩]
  cases hdecode : Source.decode old <;> simp [hdecode, Except.mapError]

include hwf hroot hfound

theorem eq_of_display_eq {a b : Target} (ha : a ∈ found) (hb : b ∈ found)
    (h : a.display = b.display) : a = b := by
  have honce : (found.map Target.display).Nodup := by
    rw [List.Nodup, List.pairwise_map]
    refine (pairwise_before_targets hwf hroot hfound).imp fun {a b} hlt heq => ?_
    rw [Target.Before, heq] at hlt
    exact irrefl (r := Target.Before) b hlt
  exact List.inj_on_of_nodup_map honce ha hb h

theorem mem_changedPaths_iff {target : Target} (htarget : target ∈ found) (mode : FormatMode) :
    target.display ∈ (formatReportOn mode t found).changedPaths ↔
      ∃ c, changeOf? t target = some c := by
  rw [changedPaths_formatReportOn]
  constructor
  · intro h
    obtain ⟨c, hc, hshown⟩ := List.mem_map.1 h
    obtain ⟨other, hother, hchange⟩ := List.mem_filterMap.1 hc
    rw [target_of_changeOf? hchange] at hshown
    rw [eq_of_display_eq hwf hroot hfound hother htarget hshown] at hchange
    exact ⟨c, hchange⟩
  · rintro ⟨c, hc⟩
    refine List.mem_map.2 ⟨c, List.mem_filterMap.2 ⟨target, htarget, hc⟩, ?_⟩
    rw [target_of_changeOf? hc]

theorem path_ne_of_mem_skipped {target : Target} (htarget : target ∈ found) {change : Option Change}
    (hread : changeOf t target = .ok change) {mode : FormatMode} {skip : Skipped}
    (hskip : skip ∈ (formatReportOn mode t found).skipped) : skip.path ≠ target.display := by
  obtain ⟨other, hother, hsome⟩ := List.mem_filterMap.1 hskip
  cases hunread : changeOf t other with
  | ok change => simp [hunread, skipped?] at hsome
  | error reason =>
    obtain rfl : ⟨other.display, reason.message⟩ = skip := by simpa [hunread, skipped?] using hsome
    intro hshown
    rw [eq_of_display_eq hwf hroot hfound hother htarget hshown, hread] at hunread
    cases hunread

theorem isWritable_of_mem {c : Change} (hc : c ∈ found.filterMap (changeOf? t)) :
    IsWritable t c := by
  obtain ⟨target, htarget, hchange⟩ := List.mem_filterMap.1 hc
  obtain ⟨names, ⟨hfile, -⟩, rfl⟩ := (mem_targets_iff hwf hroot hfound).1 htarget
  obtain ⟨hplain, hl⟩ := locate_path hwf hfile
  have hpath : c.target.path = names.path := by
    rw [target_of_changeOf? hchange]
    rfl
  exact ⟨names, hplain, hpath, hpath ▸ hl, hfile⟩

theorem selected_of_touched {names : Names}
    (h : Touched t (found.filterMap (changeOf? t)) names) : Selected s.project t paths names := by
  obtain ⟨c, hc, hl⟩ := h
  obtain ⟨target, htarget, hchange⟩ := List.mem_filterMap.1 hc
  obtain ⟨own, hselected, rfl⟩ := (mem_targets_iff hwf hroot hfound).1 htarget
  have hown := (locate_path hwf hselected.1).2
  rw [target_of_changeOf? hchange] at hl
  rw [← Except.ok.inj (hown.symm.trans hl)]
  exact hselected

theorem touched_iff {names : Names} (hselected : Selected s.project t paths names) :
    Touched t (found.filterMap (changeOf? t)) names ↔
      ∃ c, changeOf? t (fileTarget s.project t names) = some c := by
  have htarget := (mem_targets_iff hwf hroot hfound).2 ⟨names, hselected, rfl⟩
  have hown := (locate_path hwf hselected.1).2
  constructor
  · rintro ⟨c, hc, hl⟩
    obtain ⟨target, hother, hchange⟩ := List.mem_filterMap.1 hc
    obtain ⟨other, ⟨hfile, -⟩, rfl⟩ := (mem_targets_iff hwf hroot hfound).1 hother
    have hthere := (locate_path hwf hfile).2
    rw [target_of_changeOf? hchange] at hl
    obtain rfl := Except.ok.inj (hthere.symm.trans hl)
    exact ⟨c, hchange⟩
  · rintro ⟨c, hc⟩
    refine ⟨c, List.mem_filterMap.2 ⟨_, htarget, hc⟩, ?_⟩
    rw [target_of_changeOf? hc]
    exact hown

/-- What becomes of the selected files when the changes are written. -/
theorem exists_fate {t' : FileTree} (hwritten : Written t (found.filterMap (changeOf? t)) t')
    {names : Names} (hselected : Selected s.project t paths names) {old : Bytes} {x : Bool}
    (he : t.entry? names = some (.file old x)) (mode : FormatMode) :
    ∃ new, Fate (formatReportOn mode t found) (shownAs t s.project.root names) old new ∧
      t'.entry? names = some (.file new x) := by
  let target := fileTarget s.project t names
  have htarget : target ∈ found := (mem_targets_iff hwf hroot hfound).2 ⟨names, hselected, rfl⟩
  have hread : readSource t target.path = (Source.decode old).mapError .encoding :=
    readSource_path hwf he
  have hmem := mem_changedPaths_iff hwf hroot hfound htarget mode
  have htouched := touched_iff hwf hroot hfound hselected
  cases hdecode : Source.decode old with
  | error reason =>
    have hchange : changeOf t target = .error (.encoding reason) := by
      rw [changeOf, hread, hdecode]
      rfl
    have hnone : ¬∃ c, changeOf? t target = some c := by simp [changeOf?, hchange]
    refine ⟨old, .skipped hdecode ?_ (hmem.not.2 hnone),
      hwritten.untouched he (htouched.not.2 hnone)⟩
    refine List.mem_filterMap.2 ⟨target, htarget, ?_⟩
    rw [hchange]
    rfl
  | ok source =>
    have hchange : changeOf t target = .ok (if Layout.format source.text = source.text then none
        else some ⟨target, source, Layout.format source.text⟩) := by
      rw [changeOf, hread, hdecode]
      rfl
    have hunskipped : ∀ skip ∈ (formatReportOn mode t found).skipped, skip.path ≠ target.display :=
      fun skip hskip => path_ne_of_mem_skipped hwf hroot hfound htarget hchange hskip
    by_cases hlaid : Layout.format source.text = source.text
    · have hnone : ¬∃ c, changeOf? t target = some c := by simp [changeOf?, hchange, hlaid]
      exact ⟨old, .kept hdecode hlaid hunskipped (hmem.not.2 hnone),
        hwritten.untouched he (htouched.not.2 hnone)⟩
    · have hsome : ∃ c, changeOf? t target = some c := by simp [changeOf?, hchange, hlaid]
      exact ⟨_, .changed hdecode hlaid hunskipped (hmem.2 hsome) (Source.laidOut_ne hdecode hlaid),
        hwritten.touched he hdecode (htouched.2 hsome)⟩

end Fates

theorem FormatReport.exitCode_eq (report : FormatReport) (mode : FormatMode) :
    report.exitCode mode = if report.skipped ≠ [] then 1
      else if mode = .check ∧ report.changes ≠ [] then 2 else 0 := by
  simp [exitCode]

/-- Below an absolute root all modes succeed or fail alike, look at the same files and tell the same
of them, in the order of the targets. Checking and comparing leave the tree alone. Writing brings the
files that are told as changed into their layout, each in its own encoding, and leaves all others
alone, the skipped ones and those that are not selected among them. -/
theorem format_modes_agree {s : Settings} {t : FileTree} (hwf : t.WellFormed)
    (hroot : s.project.root.isAbsolute) (paths : List Path) :
    (∀ e, targets s.project t paths = .error e → ∀ mode, format s mode paths t = .error e) ∧
    ∀ found, targets s.project t paths = .ok found →
      ∃ (report : FormatMode → FormatReport) (t' : FileTree),
        (∀ mode, format s mode paths t = .ok (report mode, if mode = .write then t' else t)) ∧
        (∀ mode, (report mode).filesScanned = found.length ∧
          (report mode).changedPaths = (report .check).changedPaths ∧
          (report mode).skipped = (report .check).skipped ∧
          (report mode).changedPaths.Sublist (found.map Target.display) ∧
          (∀ change ∈ (report mode).changes, change.2.isSome ↔ mode = .diff) ∧
          (report mode).exitCode mode = if (report mode).skipped ≠ [] then 1
            else if mode = .check ∧ (report mode).changes ≠ [] then 2 else 0) ∧
        t'.workingFolder = t.workingFolder ∧
        (∀ names old x, Selected s.project t paths names → t.entry? names = some (.file old x) →
          ∃ new, Fate (report .write) (shownAs t s.project.root names) old new ∧
            t'.entry? names = some (.file new x)) ∧
        ∀ names, ¬Selected s.project t paths names → t'.entry? names = t.entry? names := by
  refine ⟨fun e he mode => ?_, fun found hfound => ?_⟩
  · unfold format
    rw [he]
    rfl
  · obtain ⟨t', hw, hkeep⟩ := exists_writeAll fun c => isWritable_of_mem hwf hroot hfound (c := c)
    have hformat (mode : FormatMode) : format s mode paths t =
        .ok (formatReportOn mode t found, if mode = .write then t' else t) := by
      rw [format_of_targets hfound, hw]
      cases mode <;> rfl
    have hwritten := written_of_format hfound (hformat .write)
    refine ⟨fun mode => formatReportOn mode t found, t', hformat, fun mode => ?_,
      hwritten.folders.workingFolder, fun names old x hselected he => ?_, fun names hnames => ?_⟩
    · refine ⟨rfl, ?_, rfl, changedPaths_sublist, fun change => isSome_diff,
        FormatReport.exitCode_eq _ mode⟩
      rw [changedPaths_formatReportOn, changedPaths_formatReportOn]
    · exact exists_fate hwf hroot hfound hwritten hselected he .write
    · apply hkeep
      exact fun htouched => hnames (selected_of_touched hwf hroot hfound htouched)

/-- A file in UTF-16 that is out of its layout, one that cannot be read, and one out of scope. -/
theorem format_modes_agree_mixed :
    let s := (Config.defaults (.ofString "/p")).toSettings
    let t : FileTree :=
      { entries := [([['p']], .folder),
          ([['p'], "a.ini".toList], .file [0xff, 0xfe, 0x61, 0x00, 0x20, 0x00, 0x3d, 0x00] true),
          ([['p'], "b.ini".toList], .file [0xff] false),
          ([['p'], "c.txt".toList], .file [0x20] false)] }
    t.WellFormed ∧ s.project.root.isAbsolute ∧
    ∃ (report : FormatMode → FormatReport) (t' : FileTree),
      (∀ mode, format s mode [] t = .ok (report mode, if mode = .write then t' else t)) ∧
      (∀ mode, (report mode).changedPaths = (report .check).changedPaths) ∧
      .ofString "a.ini" ∈ (report .write).changedPaths ∧
      t'.entry? [['p'], "a.ini".toList] =
        some (.file [0xff, 0xfe, 0x61, 0x00, 0x3d, 0x00, 0x0a, 0x00] true) ∧
      t'.entry? [['p'], "b.ini".toList] = some (.file [0xff] false) ∧
      t'.entry? [['p'], "c.txt".toList] = some (.file [0x20] false) := by
  intro s t
  have hwf : t.WellFormed := by decide +kernel
  have hroot : s.project.root.isAbsolute := by decide +kernel
  have hthere : ∀ p ∈ givenPaths [], t.contains (s.project.root.absoluteFrom p).clean := by
    decide +kernel
  obtain ⟨found, hfound⟩ := exists_targets_iff.2 hthere
  obtain ⟨report, t', hformat, hreport, -, hselected, hothers⟩ :=
    (format_modes_agree hwf hroot []).2 found hfound
  have hbelow (names : Names) (hfile : t.HasFile names)
      (hscope : namesAt t s.project.root .empty <+: names ∧
        s.project.inScope (shownAs t s.project.root names)) : Selected s.project t [] names :=
    ⟨hfile, .empty, by simp [givenPaths], .inr hscope⟩
  have ha := hbelow [['p'], "a.ini".toList] ⟨_, _, rfl⟩ (by decide +kernel)
  have hb := hbelow [['p'], "b.ini".toList] ⟨_, _, rfl⟩ (by decide +kernel)
  have hc : ¬Selected s.project t [] [['p'], "c.txt".toList] := by
    rintro ⟨-, p, hp, hown | ⟨-, hscope⟩⟩
    · obtain rfl : p = .empty := by simpa [givenPaths] using hp
      revert hown
      decide +kernel
    · revert hscope
      decide +kernel
  have hdecode : Source.decode [0xff, 0xfe, 0x61, 0x00, 0x20, 0x00, 0x3d, 0x00] =
      .ok ⟨"a =".toList, .utf16Little⟩ := by decide +kernel
  have hlaid : Layout.format "a =".toList = "a=\n".toList := by decide
  obtain ⟨new, hfate, hnew⟩ := hselected _ _ _ ha rfl
  have hchanged : .ofString "a.ini" ∈ (report .write).changedPaths ∧
      new = [0xff, 0xfe, 0x61, 0x00, 0x3d, 0x00, 0x0a, 0x00] := by
    cases hfate with
    | skipped undecoded => exact absurd (hdecode.symm.trans undecoded) (by simp)
    | kept decoded inLayout =>
      obtain rfl := Except.ok.inj (hdecode.symm.trans decoded)
      exact absurd (hlaid.symm.trans inLayout) (by decide)
    | changed decoded _ _ told =>
      obtain rfl := Except.ok.inj (hdecode.symm.trans decoded)
      refine ⟨told, ?_⟩
      rw [hlaid]
      rfl
  obtain ⟨same, hfate', hsame⟩ := hselected _ _ _ hb rfl
  have hskipped : same = [0xff] := by
    have hdecode' : Source.decode [0xff] = .error .notUtf8 := by decide
    cases hfate' with
    | skipped => rfl
    | kept => rfl
    | changed decoded => cases hdecode'.symm.trans decoded
  exact ⟨hwf, hroot, report, t', hformat, fun mode => (hreport mode).2.1, hchanged.1,
    hchanged.2 ▸ hnew, hskipped ▸ hsame, hothers _ hc⟩

end Project

end SkinLint
