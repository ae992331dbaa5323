import SkinLint.Proofs.FileTree.WellFormed

/-!
# Trees that differ in one file

Where a path leads depends on what is a file and what is a folder, not on what is written in the
files. If the contents of one file change, all paths lead where they led, and what is read elsewhere
stays the same.
-/
namespace SkinLint.FileTree

/-- Two trees with the same files and folders, that differ in the contents of one file. -/
structure ChangedAt (file : Names) (old new : Bytes) (t t' : FileTree) : Prop
    extends Rewrites t t' file new where
  before : ∃ x, t.entry? file = some (.file old x)

namespace ChangedAt

variable {file : Names} {old new : Bytes} {t t' : FileTree} (h : ChangedAt file old new t t')
include h

theorem hasFile_iff {names : Names} : t'.HasFile names ↔ t.HasFile names := by
  by_cases heq : names = file
  · subst heq
    exact iff_of_true ⟨new, h.now⟩ ⟨old, h.before⟩
  · simp only [HasFile, h.others names heq]

theorem step_eq : t'.step = t.step := by
  funext names piece
  obtain ⟨x, hbefore⟩ := h.before
  obtain ⟨x', hnow⟩ := h.now
  unfold step
  by_cases heq : names = file
  · rw [heq, hbefore, hnow]
  · rw [h.others names heq]

theorem locate_eq : t'.locate = t.locate := by
  funext p
  unfold locate
  rw [h.step_eq, h.workingFolder]

theorem look_eq {p : Path} (hp : t.locate p ≠ .ok file) : t'.look p = t.look p := by
  unfold look
  rw [h.locate_eq]
  cases hlocate : t.locate p with
  | error e => rfl
  | ok names =>
    have hne : names ≠ file := fun heq => hp (by rw [hlocate, heq])
    simp only [h.others names hne]

theorem look_cases (p : Path) : t'.look p = t.look p ∨
    ∃ x x', t.look p = .ok (.file old x) ∧ t'.look p = .ok (.file new x') := by
  by_cases hp : t.locate p = .ok file
  · obtain ⟨x, hbefore⟩ := h.before
    obtain ⟨x', hnow⟩ := h.now
    refine .inr ⟨x, x', look_eq_ok_iff.2 ⟨file, hp, hbefore⟩, look_eq_ok_iff.2 ⟨file, ?_, hnow⟩⟩
    rw [h.locate_eq, hp]
  · exact .inl (h.look_eq hp)

theorem contains_eq : t'.contains = t.contains := by
  funext p
  unfold contains
  obtain heq | ⟨x, x', hold, hnew⟩ := h.look_cases p
  · rw [heq]
  · rw [hold, hnew]
    rfl

theorem isFile_eq : t'.isFile = t.isFile := by
  funext p
  unfold isFile
  obtain heq | ⟨x, x', hold, hnew⟩ := h.look_cases p
  · rw [heq]
  · rw [hold, hnew]

theorem isFolder_eq : t'.isFolder = t.isFolder := by
  funext p
  unfold isFolder
  obtain heq | ⟨x, x', hold, hnew⟩ := h.look_cases p
  · rw [heq]
  · rw [hold, hnew]

theorem read_eq {p : Path} (hp : t.locate p ≠ .ok file) : t'.read p = t.read p := by
  unfold read
  rw [h.look_eq hp]

/-- The files below a folder are the same, in whatever order they are stored. -/
theorem filesBelow_perm (ht : t.WellFormed) (ht' : t'.WellFormed) (folder : Names) :
    (t'.filesBelow folder).Perm (t.filesBelow folder) := by
  refine (List.perm_ext_iff_of_nodup (ht'.nodup_filesBelow _) (ht.nodup_filesBelow _)).2 fun below => ?_
  rw [ht'.mem_filesBelow_iff, ht.mem_filesBelow_iff, h.hasFile_iff]

end ChangedAt

end SkinLint.FileTree
