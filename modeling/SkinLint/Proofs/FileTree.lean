import Mathlib.Tactic.SplitIfs
import SkinLint.FileTree
import SkinLint.Proofs.Lookup

/-!
# What replacing a file leaves alone

Making folders only adds entries, and replacing a file changes the entry at one place. Paths lead
where they led before, and all other entries stay what they were.
-/
namespace SkinLint.FileTree

structure Grows (t t' : FileTree) : Prop where
  workingFolder : t'.workingFolder = t.workingFolder
  entry : ∀ {names : Names} {e : FileEntry}, t.entry? names = some e → t'.entry? names = some e

theorem Grows.refl (t : FileTree) : Grows t t := ⟨rfl, id⟩

theorem Grows.trans {t t' t'' : FileTree} (h : Grows t t') (h' : Grows t' t'') : Grows t t'' :=
  ⟨h'.workingFolder.trans h.workingFolder, fun he => h'.entry (h.entry he)⟩

theorem lookup_cons_of_ne {names n : Names} (h : n ≠ names) (e : FileEntry)
    (entries : List (Names × FileEntry)) : ((names, e) :: entries).lookup n = entries.lookup n := by
  rw [List.lookup_cons, beq_false_of_ne h]

theorem entry?_set_self {names : Names} (h : names ≠ []) (e : FileEntry) (t : FileTree) :
    entry? (t.set names e) names = some e := by
  unfold entry? set
  rw [if_neg h]
  simp

theorem entry?_set_of_ne {names n : Names} (h : n ≠ names) (e : FileEntry) (t : FileTree) :
    entry? (t.set names e) n = t.entry? n := by
  unfold entry? set
  rw [lookup_cons_of_ne h, lookup_filter_of_kept (· != names) (bne_iff_ne.2 h)]

theorem ne_nil_of_entry? {t : FileTree} {names : Names} (h : t.entry? names ≠ some .folder) :
    names ≠ [] := by
  rintro rfl
  exact h rfl

theorem makeFolder_grows {p : Path} {t t' : FileTree} (h : t.makeFolder p = .ok t') :
    Grows t t' := by
  unfold makeFolder at h
  split at h
  · split at h <;> simp at h
  · rename_i names _
    split at h
    · simp at h
    · rename_i hnone
      obtain rfl := Except.ok.inj h
      refine ⟨rfl, fun {n e} he => ?_⟩
      rw [entry?_set_of_ne, he]
      rintro rfl
      rw [hnone] at he
      simp at he

theorem makeFoldersWithin_grows {fuel : Nat} {p : Path} {t t' : FileTree}
    (h : makeFoldersWithin fuel p t = .ok t') : Grows t t' := by
  induction fuel generalizing p t t' with
  | zero =>
    obtain rfl := Except.ok.inj h
    exact .refl t
  | succ fuel ih =>
    unfold makeFoldersWithin at h
    split at h
    · obtain rfl := Except.ok.inj h
      exact .refl t
    split at h
    · rename_i hmake
      obtain rfl := Except.ok.inj h
      exact makeFolder_grows hmake
    · split at h
      · simp at h
      split at h
      · simp at h
      · rename_i habove
        have hgrow := ih habove
        split at h
        · rename_i hmake
          obtain rfl := Except.ok.inj h
          exact hgrow.trans (makeFolder_grows hmake)
        · split at h
          · obtain rfl := Except.ok.inj h
            exact hgrow
          · simp at h
    · split at h
      · obtain rfl := Except.ok.inj h
        exact .refl t
      · simp at h

/-- Replacing a file makes room for it and then sets the entry that its path leads to. -/
theorem replace_cases {p : Path} {contents : Bytes} {t t' : FileTree}
    (h : t.replace p contents = .ok t') : ∃ made names executable, Grows t made ∧
      made.locate p = .ok names ∧ names ≠ [] ∧ t' = made.set names (.file contents executable) ∧
      ∀ old x, made.entry? names = some (.file old x) → executable = x := by
  unfold replace at h
  dsimp only at h
  split at h
  · simp at h
  · rename_i made hmake
    have hgrow : Grows t made := makeFoldersWithin_grows hmake
    split_ifs at h
    split at h
    · simp at h
    · rename_i names hloc
      split at h
      · simp at h
      · rename_i old executable hold
        obtain rfl := Except.ok.inj h
        exact ⟨made, names, executable, hgrow, hloc, ne_nil_of_entry? (t := made) (by simp [hold]),
          rfl, fun _ _ he => by simp_all⟩
      · rename_i hnone
        obtain rfl := Except.ok.inj h
        exact ⟨made, names, false, hgrow, hloc, ne_nil_of_entry? (t := made) (by simp [hnone]), rfl,
          fun _ _ he => by simp_all⟩

structure KeepsFolders (t t' : FileTree) : Prop where
  workingFolder : t'.workingFolder = t.workingFolder
  folder : ∀ {names : Names}, t.entry? names = some .folder → t'.entry? names = some .folder

theorem Grows.keepsFolders {t t' : FileTree} (h : Grows t t') : KeepsFolders t t' :=
  ⟨h.workingFolder, h.entry⟩

theorem KeepsFolders.trans {t t' t'' : FileTree} (h : KeepsFolders t t')
    (h' : KeepsFolders t' t'') : KeepsFolders t t'' :=
  ⟨h'.workingFolder.trans h.workingFolder, fun hf => h'.folder (h.folder hf)⟩

theorem KeepsFolders.step {t t' : FileTree} (h : KeepsFolders t t') {names next : Names}
    {piece : Text} (hs : t.step names piece = .ok next) : t'.step names piece = .ok next := by
  unfold FileTree.step at hs ⊢
  split at hs
  · simp at hs
  · simp at hs
  · rename_i hfolder
    rw [h.folder hfolder]
    exact hs

theorem KeepsFolders.locate {t t' : FileTree} (h : KeepsFolders t t') {p : Path} {names : Names}
    (hl : t.locate p = .ok names) : t'.locate p = .ok names := by
  have hfold : ∀ (pieces : List Text) (start : Names), pieces.foldlM t.step start = .ok names →
      pieces.foldlM t'.step start = .ok names := by
    intro pieces
    induction pieces with
    | nil => exact fun _ hp => hp
    | cons piece rest ih =>
      intro start hp
      rw [List.foldlM_cons] at hp ⊢
      cases hs : t.step start piece with
      | error e => simp [hs, bind, Except.bind] at hp
      | ok next =>
        rw [hs] at hp
        rw [h.step hs]
        exact ih next hp
  unfold FileTree.locate at hl ⊢
  split_ifs at hl ⊢
  all_goals first
    | exact hfold _ _ hl
    | rw [h.workingFolder]; exact hfold _ _ hl

theorem replace_of_file {p : Path} {contents old : Bytes} {x : Bool} {t t' : FileTree}
    {names : Names} (h : t.replace p contents = .ok t') (hl : t.locate p = .ok names)
    (he : t.entry? names = some (.file old x)) :
    KeepsFolders t t' ∧ t'.entry? names = some (.file contents x) ∧
      ∀ {n e}, n ≠ names → t.entry? n = some e → t'.entry? n = some e := by
  obtain ⟨made, names', executable, hgrow, hloc, hne, rfl, hx⟩ := replace_cases h
  rw [hgrow.keepsFolders.locate hl] at hloc
  obtain rfl := Except.ok.inj hloc
  obtain rfl := hx old x (hgrow.entry he)
  have hother : ∀ {n e}, n ≠ names → t.entry? n = some e →
      entry? (made.set names (.file contents executable)) n = some e := fun hn hentry => by
    rw [entry?_set_of_ne hn, hgrow.entry hentry]
  refine ⟨⟨hgrow.workingFolder, fun {n} hf => hother ?_ hf⟩, entry?_set_self hne _ _, hother⟩
  rintro rfl
  rw [he] at hf
  simp at hf

theorem read_eq_ok_iff (t : FileTree) (p : Path) (contents : Bytes) : t.read p = .ok contents ↔
    ∃ names x, t.locate p = .ok names ∧ t.entry? names = some (.file contents x) := by
  unfold read look
  constructor
  · intro h
    cases hl : t.locate p with
    | error e => simp [hl] at h
    | ok names =>
      cases he : t.entry? names with
      | none => simp [hl, he] at h
      | some entry =>
        cases entry with
        | folder => simp [hl, he] at h
        | file old x =>
          simp only [hl, he, Except.ok.injEq] at h
          exact ⟨names, x, rfl, h ▸ he⟩
  · rintro ⟨names, x, hl, he⟩
    simp only [hl, he]

end SkinLint.FileTree
