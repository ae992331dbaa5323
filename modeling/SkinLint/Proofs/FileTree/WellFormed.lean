import SkinLint.Proofs.FileTree.Rewriting

/-!
# File trees as they are on a disk

Every entry lies in a folder and has a name of its own. A path that is written as some names leads
to the entry of these names, if there is one, and to nothing else.
-/
namespace SkinLint

/-- A path written as some names, with nothing but empty pieces and dots in front of them. -/
structure Path.Spells (p : Path) (names : Names) : Prop where
  nonempty : p.text ≠ []
  pieces : ∃ idle : List Text,
    (∀ piece ∈ idle, piece = [] ∨ piece = ['.']) ∧ p.pieces = idle ++ names
  plain : ∀ name ∈ names, FileTree.IsName name

namespace FileTree

structure IsEntryName (name : Text) : Prop extends IsFileName ⟨name⟩ where
  short : (Utf8.encode name).length ≤ maxNameLength

/-- Trees as they are on a disk, the working folder being there. -/
structure WellFormed (t : FileTree) : Prop where
  once : (t.entries.map Prod.fst).Nodup
  names : ∀ e ∈ t.entries, ∀ name ∈ e.1, IsEntryName name
  below : ∀ e ∈ t.entries, e.1 ≠ [] ∧ t.entry? e.1.dropLast = some .folder
  working : t.entry? t.workingFolder = some .folder

instance (name : Text) : Decidable (IsEntryName name) :=
  decidable_of_iff
    (name ≠ [] ∧ name ≠ ['.'] ∧ name ≠ ['.', '.'] ∧ '/' ∉ name ∧ Char.ofNat 0 ∉ name ∧
      (Utf8.encode name).length ≤ maxNameLength)
    ⟨fun ⟨hnonempty, hhere, hup, hslash, hzero, hshort⟩ =>
        ⟨⟨⟨hnonempty, hhere, hup⟩, hslash, hzero⟩, hshort⟩,
      fun h => ⟨h.nonempty, h.notHere, h.notUp, h.slash, h.zero, h.short⟩⟩

instance (t : FileTree) : Decidable t.WellFormed :=
  decidable_of_iff
    ((t.entries.map Prod.fst).Nodup ∧ (∀ e ∈ t.entries, ∀ name ∈ e.1, IsEntryName name) ∧
      (∀ e ∈ t.entries, e.1 ≠ [] ∧ t.entry? e.1.dropLast = some .folder) ∧
      t.entry? t.workingFolder = some .folder)
    ⟨fun ⟨once, names, below, working⟩ => ⟨once, names, below, working⟩,
      fun h => ⟨h.once, h.names, h.below, h.working⟩⟩

def HasFile (t : FileTree) (names : Names) : Prop := ∃ contents x,
  t.entry? names = some (.file contents x)

namespace WellFormed

variable {t : FileTree} (h : t.WellFormed)
include h

theorem mem_entries_iff {names : Names} {e : FileEntry} :
    (names, e) ∈ t.entries ↔ names ≠ [] ∧ t.entry? names = some e := by
  unfold entry?
  by_cases hnil : names = []
  · refine iff_of_false (fun hmem => (h.below _ hmem).1 hnil) fun hne => hne.1 hnil
  · rw [if_neg hnil, lookup_eq_some_iff_mem h.once]
    exact (and_iff_right hnil).symm

theorem isEntryName {names : Names} {e : FileEntry} (he : t.entry? names = some e) {name : Text}
    (hname : name ∈ names) : IsEntryName name := by
  have hne : names ≠ [] := List.ne_nil_of_mem hname
  exact h.names _ (h.mem_entries_iff.2 ⟨hne, he⟩) name hname

theorem folder_above {above behind : Names} {e : FileEntry} (hne : behind ≠ [])
    (he : t.entry? (above ++ behind) = some e) : t.entry? above = some .folder := by
  induction behind using List.reverseRecOn generalizing e with
  | nil => exact absurd rfl hne
  | append_singleton behind name ih =>
    have hmem := h.mem_entries_iff.2 ⟨by simp, he⟩
    have hfolder := (h.below _ hmem).2
    rw [← List.append_assoc, List.dropLast_concat] at hfolder
    by_cases hnil : behind = []
    · simpa [hnil] using hfolder
    · exact ih hnil hfolder

theorem eq_nil_of_file {file behind : Names} (hfile : t.HasFile file) {e : FileEntry}
    (he : t.entry? (file ++ behind) = some e) : behind = [] := by
  by_contra hne
  obtain ⟨contents, x, hfile⟩ := hfile
  have hfolder := h.folder_above hne he
  rw [hfile] at hfolder
  cases hfolder

theorem foldlM_step {base names : Names} (hbase : t.entry? base = some .folder) {e : FileEntry}
    (he : t.entry? (base ++ names) = some e) :
    names.foldlM t.step base = .ok (base ++ names) := by
  induction names generalizing base with
  | nil => simp [pure, Except.pure]
  | cons name names ih =>
    have hname := h.isEntryName he (List.mem_append_right base List.mem_cons_self)
    have hstep : t.step base name = .ok (base ++ [name]) :=
      (step_eq_ok_iff hname.toIsName).2 ⟨hbase, hname.short, rfl⟩
    rw [List.append_cons base name names] at he ⊢
    rw [List.foldlM_cons, hstep]
    by_cases hnil : names = []
    · simp [hnil, bind, Except.bind, pure, Except.pure]
    · exact ih (h.folder_above hnil he) he

end WellFormed

theorem foldlM_step_idle {t : FileTree} {base : Names} (hbase : t.entry? base = some .folder)
    {idle : List Text} (hidle : ∀ piece ∈ idle, piece = [] ∨ piece = ['.']) :
    idle.foldlM t.step base = .ok base := by
  induction idle with
  | nil => rfl
  | cons piece idle ih =>
    have hstep : t.step base piece = .ok base := by
      simp only [step, hbase, if_pos (hidle piece List.mem_cons_self)]
    rw [List.foldlM_cons, hstep]
    exact ih fun other hother => hidle other (List.mem_cons_of_mem _ hother)

theorem eq_append_of_foldlM_step {t : FileTree} {base names last : Names}
    (hnames : ∀ name ∈ names, IsName name) (h : names.foldlM t.step base = .ok last) :
    last = base ++ names := by
  induction names generalizing base with
  | nil => simpa [pure, Except.pure, eq_comm] using h
  | cons name names ih =>
    rw [List.foldlM_cons] at h
    cases hstep : t.step base name with
    | error e => simp [hstep, bind, Except.bind] at h
    | ok next =>
      obtain ⟨-, -, rfl⟩ := (step_eq_ok_iff (hnames name List.mem_cons_self)).1 hstep
      rw [hstep] at h
      rw [ih (fun n hn => hnames n (List.mem_cons_of_mem _ hn)) h, List.append_cons base name names]

namespace WellFormed

variable {t : FileTree} (h : t.WellFormed) {p : Path} {names : Names}
include h

theorem entry?_start (p : Path) : t.entry? (t.start p) = some .folder := by
  unfold start
  split
  · rfl
  · exact h.working

theorem locate_of_spells (hp : p.Spells names) {e : FileEntry}
    (he : t.entry? (t.start p ++ names) = some e) : t.locate p = .ok (t.start p ++ names) := by
  obtain ⟨hne, ⟨idle, hidle, hpieces⟩, hplain⟩ := hp
  refine locate_eq_ok_iff.2 ⟨hne, fun hzero => ?_, ?_⟩
  · -- A zero would stand in one of the names.
    rw [← Text.joinWith_splitOn '/' p.text] at hzero
    obtain hslash | ⟨piece, hpiece, hc⟩ := Text.mem_joinWith hzero
    · simp at hslash
    · change piece ∈ p.pieces at hpiece
      rw [hpieces, List.mem_append] at hpiece
      obtain hpiece | hpiece := hpiece
      · obtain rfl | rfl := hidle piece hpiece <;> simp at hc
      · exact (h.isEntryName he (List.mem_append_right _ hpiece)).zero hc
  · rw [hpieces, List.foldlM_append, foldlM_step_idle (h.entry?_start p) hidle]
    exact h.foldlM_step (h.entry?_start p) he

theorem look_spells_iff (hp : p.Spells names) {e : FileEntry} :
    t.look p = .ok e ↔ t.entry? (t.start p ++ names) = some e := by
  rw [look_eq_ok_iff]
  constructor
  · rintro ⟨last, hlocate, he⟩
    obtain ⟨idle, hidle, hpieces⟩ := hp.pieces
    obtain ⟨-, -, hsteps⟩ := locate_eq_ok_iff.1 hlocate
    rw [hpieces, List.foldlM_append, foldlM_step_idle (h.entry?_start p) hidle] at hsteps
    rwa [eq_append_of_foldlM_step hp.plain hsteps] at he
  · exact fun he => ⟨_, h.locate_of_spells hp he, he⟩

theorem isFile_iff_of_spells (hp : p.Spells names) :
    t.isFile p ↔ t.HasFile (t.start p ++ names) := by
  unfold HasFile
  simp only [← h.look_spells_iff hp]
  unfold isFile
  split
  next contents x hlook => simp [hlook]
  next hlook => exact iff_of_false (by simp) fun ⟨contents, x, heq⟩ => hlook contents x heq

theorem isFolder_iff_of_spells (hp : p.Spells names) :
    t.isFolder p ↔ t.entry? (t.start p ++ names) = some .folder := by
  rw [← h.look_spells_iff hp]
  unfold isFolder
  split <;> simp_all

theorem contains_iff_of_spells (hp : p.Spells names) :
    t.contains p ↔ ∃ e, t.entry? (t.start p ++ names) = some e := by
  simp only [contains_iff, h.look_spells_iff hp]

theorem mem_filesBelow_iff {folder below : Names} :
    below ∈ t.filesBelow folder ↔ folder ++ below ≠ [] ∧ t.HasFile (folder ++ below) := by
  unfold filesBelow
  rw [List.mem_filterMap]
  constructor
  · rintro ⟨⟨names, e⟩, hmem, hbelow⟩
    cases e with
    | folder => cases hbelow
    | file contents x =>
      simp only [Option.ite_none_right_eq_some, List.isPrefixOf_iff_prefix, Option.some.injEq]
        at hbelow
      obtain ⟨⟨behind, rfl⟩, rfl⟩ := hbelow
      rw [List.drop_left]
      obtain ⟨hne, he⟩ := h.mem_entries_iff.1 hmem
      exact ⟨hne, contents, x, he⟩
  · rintro ⟨hne, contents, x, he⟩
    exact ⟨_, h.mem_entries_iff.2 ⟨hne, he⟩, by simp⟩

theorem nodup_filesBelow (folder : Names) : (t.filesBelow folder).Nodup := by
  have honce : t.entries.Pairwise fun e e' => e.1 ≠ e'.1 := List.pairwise_map.1 h.once
  refine List.pairwise_filterMap.2 (honce.imp ?_)
  rintro ⟨names, e⟩ ⟨names', e'⟩ hne below hbelow _ hbelow' rfl
  cases e <;> cases e' <;>
    simp only [Option.ite_none_right_eq_some, List.isPrefixOf_iff_prefix, Option.some.injEq,
      reduceCtorEq] at hbelow hbelow'
  obtain ⟨hstarts, rfl⟩ := hbelow
  obtain ⟨hstarts', heq⟩ := hbelow'
  refine hne ?_
  rw [← List.prefix_iff_eq_append.1 hstarts, ← List.prefix_iff_eq_append.1 hstarts', heq]

end WellFormed

end FileTree

end SkinLint
