import SkinLint.Proofs.Path.Components
import SkinLint.Proofs.PathVariables.Folders

/-!
# The folders that variables denote

A slash at the end leaves a folder what it is, with one exception: the empty path, which is the
folder that relative paths are seen from, becomes the root. So the variables denote the folders they
are made from as long as none of these is the empty path. The skins folder is the first of them to
be empty, for relative documents that lie no deeper than two folders.
-/
namespace SkinLint

namespace Path

/-- A closing slash turns the empty path into the root and leaves every other path the same. -/
theorem same_directoryText_iff (closed : Bool) (p : Path) :
    same ⟨p.directoryText closed⟩ p ↔ ¬(closed = true ∧ p = .empty) := by
  rw [same_iff, directoryText]
  cases closed with
  | false => simp
  | true =>
    by_cases hslash : p.text.getLast? = some '/'
    · have hne : p ≠ .empty := by
        rintro rfl
        cases hslash
      simp [hslash, hne]
    · rw [if_pos (by simpa using hslash)]
      by_cases hempty : p = .empty
      · subst hempty
        have hroot : components ⟨['/']⟩ ≠ components .empty := by decide
        simpa [empty] using hroot
      · have htext : p.text ≠ [] := fun hnil => hempty (congrArg Path.mk hnil)
        rw [components_slash htext, trail_nil, List.append_nil]
        simp [hempty]

end Path

namespace PathVariables
open SkinLint.Path

section SkinsRoot

variable {s : ValidationSettings} {dir : Path}

theorem not_namedLike_empty (name : Text) : ¬namedLike name .empty := by
  simp [namedLike, fileName?, components, pieces, empty, Text.splitOn]

/-- The skins folder is the empty path for relative folders of at most two components, none of which
has the name that the settings ask for. -/
theorem skinsRoot_eq_empty_iff : skinsRoot s dir = .empty ↔
    dir.isAbsolute = false ∧ ¬NamedAbove s dir ∧ dir.components.length ≤ 2 := by
  rcases exists_isSkinsRoot s dir with ⟨n, hroot⟩
  rcases components_up? hroot.above with ⟨below, hbelow, hlength⟩
  constructor
  · intro hempty
    rw [hempty] at hroot hbelow
    have hunnamed : ¬NamedAbove s dir := fun hnamed =>
      not_namedLike_empty s.skinsFolderName (hroot.named hnamed).1
    refine ⟨(isAbsolute_up? hroot.above).symm, hunnamed, ?_⟩
    have hsteps := hroot.unnamed hunnamed
    have hall : dir.components = below := hbelow
    rw [hall, hlength]
    omega
  · rintro ⟨hrelative, hunnamed, hshort⟩
    rcases hroot.unnamed hunnamed with rfl | ⟨-, htop⟩
    · rw [hbelow, List.length_append, hlength] at hshort
      rw [← components_eq_nil_iff, ← List.length_eq_zero_iff]
      omega
    · apply eq_empty_of_parent?_eq_none htop
      rw [isAbsolute_up? hroot.above, hrelative]

/-- Where the skins folder is not the empty path, no folder on the way up to it is. -/
theorem ne_empty_of_mem_upTo (h : skinsRoot s dir ≠ .empty) {q : Path}
    (hq : q ∈ upTo (skinsRoot s dir) dir.ancestors) : q ≠ .empty := by
  rcases exists_isSkinsRoot s dir with ⟨n, hroot⟩
  rcases components_up? hroot.above with ⟨below, hbelow, hlength⟩
  rcases (mem_upTo_iff hroot.above).mp hq with ⟨m, hm, hup⟩
  rcases components_up? hup with ⟨below', hbelow', hlength'⟩
  rw [ne_eq, ← components_eq_nil_iff, ← List.length_eq_zero_iff] at h ⊢
  have hlengths := congrArg List.length (hbelow.symm.trans hbelow')
  rw [List.length_append, List.length_append] at hlengths
  omega

end SkinsRoot

section CurrentConfig

variable {root dir : Path} {below : List Component}

/-- Below a path that is not empty there are `..` and names only. -/
theorem exists_subset_trail (h : dir.components = root.components ++ below)
    (hroot : root ≠ .empty) :
    ∃ t, below ⊆ trail t := by
  have hdir : dir ≠ .empty := by
    rw [ne_eq, ← components_eq_nil_iff] at hroot ⊢
    simp [h, hroot]
  rcases exists_cons_trail hdir with ⟨first, t, hdir⟩
  rcases exists_cons_trail hroot with ⟨first', t', hroot⟩
  rw [hdir, hroot, List.cons_append] at h
  refine ⟨t, ?_⟩
  rw [(List.cons.inj h).2]
  exact List.subset_append_right _ _

/-- What a folder has below one that is not empty leads back to it from there, however that one is
written. -/
theorem same_join_slashed (h : dir.components = root.components ++ below) {written : Text}
    (hwritten : same ⟨written⟩ root) (hroot : root ≠ .empty) :
    (join ⟨written⟩ ⟨slashed below⟩).same dir := by
  rcases exists_subset_trail h hroot with ⟨t, ht⟩
  rw [same_iff] at hwritten ⊢
  have hne : written ≠ [] := by
    rintro rfl
    exact hroot (components_eq_nil_iff.mp hwritten.symm)
  rw [components_join hne (isAbsolute_slashed ht), hwritten, trail_slashed ht, h]

/-- Below the empty path a relative folder is spelled as a whole; a slash in front of that makes it
absolute. -/
theorem same_join_directoryText_empty_iff (hdir : dir.isAbsolute = false) (closed : Bool) :
    (join ⟨directoryText closed .empty⟩ ⟨slashed dir.components⟩).same dir ↔ closed = false := by
  have hcomponents := components_slashed hdir
  have hrelative : isAbsolute ⟨slashed dir.components⟩ = false := by
    rwa [← Bool.not_eq_true, ← root_mem_components_iff, hcomponents, root_mem_components_iff,
      Bool.not_eq_true]
  rw [same_iff, join, hrelative]
  cases closed with
  | false => simpa [directoryText, empty, isEmpty] using hcomponents
  | true =>
    have hroot : .root ∉ dir.components := by
      rw [root_mem_components_iff, hdir]
      exact Bool.false_ne_true
    have habsolute : isAbsolute ⟨'/' :: slashed dir.components⟩ := rfl
    have hdiffer : components ⟨'/' :: slashed dir.components⟩ ≠ dir.components := by
      intro hsame
      rw [← hsame, root_mem_components_iff] at hroot
      exact hroot habsolute
    simpa [directoryText, empty, isEmpty] using hdiffer

end CurrentConfig

/-- The variables that stand for folders denote them, as paths, and the slash at the end makes no
difference to that, except for a folder that is the empty path when a slash is asked for. All of
these folders are something else if the skins folder is, and that is empty exactly for relative
documents in at most two folders, none of which is named as the skins folder. -/
theorem variables_denote_folders_iff (s : ValidationSettings) (present : Path → Bool)
    (document : Path) :
    let dir := document.directory
    let root := skinsRoot s dir
    let base := (nearest? s present document).getD root
    let v := build s present document
    let spoilt (q : Path) : Prop := s.trailingSeparator = true ∧ q = .empty
    (same ⟨v.currentPath⟩ dir ↔ ¬spoilt dir) ∧
    (same ⟨v.skins⟩ root ↔ ¬spoilt root) ∧
    ((join ⟨v.skins⟩ ⟨v.currentConfig⟩).same dir ↔ ¬spoilt root) ∧
    (same ⟨v.rootConfigPath⟩ base ↔ ¬spoilt base) ∧
    (∀ q ∈ nearest? s present document,
      same ⟨v.resources⟩ (q.join ⟨s.resourceFolder⟩) ↔ ¬spoilt (q.join ⟨s.resourceFolder⟩)) ∧
    (root ≠ .empty → dir ≠ .empty ∧ base ≠ .empty) ∧
    (root = .empty ↔ dir.isAbsolute = false ∧ ¬NamedAbove s dir ∧ dir.components.length ≤ 2) := by
  intro dir root base v spoilt
  have hclosed (q : Path) : same ⟨q.directoryText s.trailingSeparator⟩ q ↔ ¬spoilt q :=
    same_directoryText_iff s.trailingSeparator q
  have hskins : v.skins = root.directoryText s.trailingSeparator := rfl
  refine ⟨hclosed dir, hclosed root, ?_, ?_, ?_, ?_, skinsRoot_eq_empty_iff⟩
  · rcases currentConfig_build s present document with ⟨below, hbelow, hconfig⟩
    change v.currentConfig = slashed below at hconfig
    rw [hskins, hconfig]
    by_cases hroot : root = .empty
    · have hrelative : dir.isAbsolute = false := (skinsRoot_eq_empty_iff.mp hroot).1
      have hall : below = dir.components := by
        change dir.components = root.components ++ below at hbelow
        rw [hbelow, hroot]
        rfl
      rw [hroot, hall, same_join_directoryText_empty_iff hrelative]
      simp [spoilt]
    · have hkept : ¬spoilt root := fun h => hroot h.2
      exact iff_of_true (same_join_slashed hbelow ((hclosed root).mpr hkept) hroot) hkept
  · have hpath : v.rootConfigPath = base.directoryText s.trailingSeparator :=
      (rootConfig_build s present document).1
    rw [hpath]
    exact hclosed base
  · intro q hq
    have hresources := resources_build s present document
    rw [hq] at hresources
    change v.resources = (q.join ⟨s.resourceFolder⟩).directoryText s.trailingSeparator at hresources
    rw [hresources]
    exact hclosed _
  · intro hroot
    rcases exists_isSkinsRoot s dir with ⟨n, habove⟩
    have hdir : dir ∈ upTo root dir.ancestors :=
      (mem_upTo_iff habove.above).mpr ⟨0, Nat.zero_le n, rfl⟩
    exact ⟨ne_empty_of_mem_upTo hroot hdir,
      ne_empty_of_mem_upTo hroot (base_mem_upTo s present document)⟩

/-- A document given by its name alone lies in the folder that relative paths are seen from, and the
variable for that folder says that it is the root. One folder deeper the same happens to the skins
folder. -/
theorem empty_folder_becomes_root :
    let v := build {} (fun _ => false) ⟨"Main.ini".toList⟩
    let deeper := build {} (fun _ => false) ⟨"Suite/Main.ini".toList⟩
    directory ⟨"Main.ini".toList⟩ = .empty ∧ v.currentPath = "/".toList ∧
    ¬same ⟨v.currentPath⟩ (directory ⟨"Main.ini".toList⟩) ∧
    directory ⟨"Suite/Main.ini".toList⟩ = ⟨"Suite".toList⟩ ∧
    join ⟨deeper.skins⟩ ⟨deeper.currentConfig⟩ = ⟨"/Suite".toList⟩ ∧
    ¬(join ⟨deeper.skins⟩ ⟨deeper.currentConfig⟩).same (directory ⟨"Suite/Main.ini".toList⟩) := by
  decide

end PathVariables

end SkinLint
