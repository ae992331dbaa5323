import SkinLint.Command.Run
import SkinLint.Proofs.Config.Overlay
import SkinLint.Proofs.Config.Stacking
import SkinLint.Proofs.Config.Update
import SkinLint.Proofs.Encoding.Utf8
import SkinLint.Proofs.Path.Normal
import SkinLint.Proofs.Toml.Editions

/-!
# A saved setting takes effect

Settings are saved to the file that is loaded last, so that the new value is the one that counts.
Nothing else of what is loaded changes: not the working folder, not the repository, and not what any
file says on other settings.
-/
namespace SkinLint

namespace Config
open Toml

section Files

variable {t t' : FileTree}

end Files

section Run

variable {t t' : FileTree} {u : Update} {top : Origin}

end Run

section Paths

variable {t t' : FileTree} {o : LoadOptions} {folder : Path}

theorem canonical_eq_ok_iff {p q : Path} : t.canonical p = .ok q ↔
    ∃ names, t.locate p = .ok names ∧ t.contains p ∧ q = names.path := by
  unfold FileTree.canonical
  rw [FileTree.contains_iff]
  cases hl : t.locate p with
  | error e => simp
  | ok names => cases hlook : t.look p <;> simp [eq_comm]

theorem workingFolder_eq_ok_iff : o.workingFolder t = .ok folder ↔ ∃ names, folder = names.path ∧
    (o.folder = none ∧ names = t.workingFolder ∨
      ∃ given, o.folder = some given ∧ t.locate given = .ok names ∧ t.contains given) := by
  unfold LoadOptions.workingFolder
  cases o.folder with
  | none =>
    constructor
    · intro h
      exact ⟨t.workingFolder, (Except.ok.inj h).symm, .inl ⟨rfl, rfl⟩⟩
    · rintro ⟨_, rfl, ⟨-, rfl⟩ | ⟨given, hgiven, -⟩⟩
      · rfl
      · cases hgiven
  | some given =>
    have hcanonical : (∃ names, folder = names.path ∧ t.locate given = .ok names ∧
        t.contains given) ↔ t.canonical given = .ok folder := by
      rw [canonical_eq_ok_iff]
      tauto
    simp only [reduceCtorEq, false_and, false_or, Option.some.injEq, exists_eq_left', hcanonical]
    cases t.canonical given <;> simp

theorem isAbsolute_workingFolder (h : o.workingFolder t = .ok folder) : folder.isAbsolute := by
  obtain ⟨names, rfl, -⟩ := workingFolder_eq_ok_iff.1 h
  rfl

end Paths

section Loading

variable {t : FileTree} {o : LoadOptions} {u : Update} {order : NameOrder} {config : Config}

end Loading

end Config

end SkinLint
