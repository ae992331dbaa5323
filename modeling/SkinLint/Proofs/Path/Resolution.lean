import Mathlib.Data.List.TakeDrop
import SkinLint.Proofs.Path.Components
import SkinLint.Proofs.Path.Normal

/-!
# Which file a path means

A path is followed from a folder, component by component. The names that are left of it in its
normal form are put behind the folder, of which as many names are gone as there were `..` with no
name of the path in front of them. The normal form has none of these left, so it means the same file
unless one of them took away a name of the folder.
-/
namespace SkinLint

namespace Component

def isName : Component → Bool
  | .name _ => true
  | _ => false

/-- Some beginning of the components has more `..` than names. -/
def LeadOut (cs : List Component) : Prop :=
  ∃ start, start <+: cs ∧ start.countP isName < start.count .up

theorem leadOut_concat (cs : List Component) (c : Component) :
    LeadOut (cs ++ [c]) ↔
      LeadOut cs ∨ (cs ++ [c]).countP isName < (cs ++ [c]).count .up := by
  unfold LeadOut
  constructor
  · rintro ⟨start, hstart, hmore⟩
    rcases List.prefix_concat_iff.mp hstart with rfl | hstart
    · exact .inr hmore
    · exact .inl ⟨start, hstart, hmore⟩
  · rintro (⟨start, hstart, hmore⟩ | hmore)
    · exact ⟨start, hstart.trans (List.prefix_append cs [c]), hmore⟩
    · exact ⟨cs ++ [c], List.prefix_rfl, hmore⟩

end Component

namespace Path
open Component (isName LeadOut leadOut_concat)

/-- One step from a folder, given by its names from the root. Above the root is the root. -/
def follow (folder : Names) : Component → Names
  | .root => []
  | .here => folder
  | .up => folder.dropLast
  | .name name => folder ++ [name]

/-- What a path means in an absolute folder, by its names from the root. -/
def resolve (folder p : Path) : Names := (folder.components ++ p.components).foldl follow []

section NormalNames

variable (cs : List Component)

theorem normalNames_concat_here : normalNames (cs ++ [.here]) = normalNames cs := by
  rw [normalNames, List.foldl_append]
  rfl

theorem normalNames_concat_up : normalNames (cs ++ [.up]) = (normalNames cs).dropLast := by
  rw [normalNames, List.foldl_append, normalNames, List.dropLast_reverse]
  rfl

theorem normalNames_concat_name (name : Text) :
    normalNames (cs ++ [.name name]) = normalNames cs ++ [name] := by
  rw [normalNames, List.foldl_append]
  exact List.reverse_cons

theorem normalNames_cons_root : normalNames (.root :: cs) = normalNames cs := rfl

end NormalNames

/-- Components that take the last `outward` names off a folder and then go on by the names that are
left of them. -/
structure TakesOff (cs : List Component) (outward : Nat) : Prop where
  balance : cs.countP isName + outward = cs.count .up + (normalNames cs).length
  leadOut : LeadOut cs ↔ outward ≠ 0
  follow : ∀ folder : Names,
    cs.foldl Path.follow folder = folder.take (folder.length - outward) ++ normalNames cs

namespace TakesOff

variable {cs : List Component} {outward : Nat}

theorem nil : TakesOff [] 0 where
  balance := rfl
  leadOut := by simp [LeadOut]
  follow folder := by simp [normalNames]

/-- One more component, by which either no name of the folder goes, or one when none is left of the
components. -/
theorem concat (h : TakesOff cs outward) {c : Component} {outward' : Nat}
    (hstep : outward' = outward ∨ outward' = outward + 1 ∧ normalNames (cs ++ [c]) = [])
    (hbalance : (cs ++ [c]).countP isName + outward' =
      (cs ++ [c]).count .up + (normalNames (cs ++ [c])).length)
    (hfollow : ∀ folder : Names,
      Path.follow (folder.take (folder.length - outward) ++ normalNames cs) c =
      folder.take (folder.length - outward') ++ normalNames (cs ++ [c])) :
    TakesOff (cs ++ [c]) outward' where
  balance := hbalance
  leadOut := by
    rw [leadOut_concat, h.leadOut]
    rcases hstep with rfl | ⟨rfl, hnil⟩
    · omega
    · rw [hnil, List.length_nil] at hbalance
      omega
  follow folder := by
    rw [List.foldl_append, h.follow]
    exact hfollow folder

theorem here (h : TakesOff cs outward) : TakesOff (cs ++ [.here]) outward := by
  apply h.concat (.inl rfl)
  · have hbalance := h.balance
    simpa [normalNames_concat_here, isName] using hbalance
  · intro folder
    rw [normalNames_concat_here]
    rfl

theorem name (h : TakesOff cs outward) (name : Text) : TakesOff (cs ++ [.name name]) outward := by
  apply h.concat (.inl rfl)
  · have hbalance := h.balance
    simp [normalNames_concat_name, isName]
    omega
  · intro folder
    rw [normalNames_concat_name, ← List.append_assoc]
    rfl

/-- A `..` takes away the last name that is left, if there is one. -/
theorem up (h : TakesOff cs outward) (hnames : normalNames cs ≠ []) :
    TakesOff (cs ++ [.up]) outward := by
  apply h.concat (.inl rfl)
  · have hbalance := h.balance
    have hpos := List.length_pos_iff.mpr hnames
    simp [normalNames_concat_up, isName]
    omega
  · intro folder
    rw [normalNames_concat_up, Path.follow, List.dropLast_append_of_ne_nil hnames]

/-- If there is none, it takes away a name of the folder. -/
theorem up_of_nil (h : TakesOff cs outward) (hnames : normalNames cs = []) :
    TakesOff (cs ++ [.up]) (outward + 1) := by
  have hnone : normalNames (cs ++ [.up]) = [] := by
    rw [normalNames_concat_up, hnames]
    rfl
  apply h.concat (.inr ⟨rfl, hnone⟩)
  · have hbalance := h.balance
    rw [hnames, List.length_nil] at hbalance
    simp [hnone, isName]
    omega
  · intro folder
    rw [hnone, hnames, List.append_nil, List.append_nil, Path.follow, List.dropLast_eq_take,
      List.length_take, List.take_take]
    congr 1
    omega

end TakesOff

/-- One component after the other is followed. -/
theorem exists_takesOff {cs : List Component} (h : .root ∉ cs) :
    ∃ outward, TakesOff cs outward := by
  induction cs using List.reverseRecOn with
  | nil => exact ⟨0, .nil⟩
  | append_singleton cs c ih =>
    rw [List.mem_append, not_or] at h
    rcases ih h.1 with ⟨outward, hcs⟩
    cases c with
    | root => exact absurd List.mem_cons_self h.2
    | here => exact ⟨outward, hcs.here⟩
    | name text => exact ⟨outward, hcs.name text⟩
    | up =>
      by_cases hnames : normalNames cs = []
      · exact ⟨outward + 1, hcs.up_of_nil hnames⟩
      · exact ⟨outward, hcs.up hnames⟩

theorem resolve_eq (folder p : Path) :
    resolve folder p = p.components.foldl follow (resolve folder .empty) := by
  have hempty : components .empty = [] := rfl
  rw [resolve, resolve, hempty, List.append_nil, List.foldl_append]

theorem foldl_follow_names (names folder : Names) :
    (names.map Component.name).foldl follow folder = folder ++ names := by
  induction names generalizing folder with
  | nil => exact (List.append_nil folder).symm
  | cons name names ih => rw [List.map_cons, List.foldl_cons, ih, follow, List.append_assoc]; rfl

/-- From the root on, the names that are left are all there is. -/
theorem resolve_of_isAbsolute {p : Path} (h : p.isAbsolute) (folder : Path) :
    resolve folder p = p.names := by
  rcases exists_takesOff (root_notMem_trail p.text) with ⟨outward, hp⟩
  have hcomponents := components_of_isAbsolute h
  rw [resolve_eq, names, hcomponents, normalNames_cons_root, List.foldl_cons, hp.follow, follow,
    List.take_nil, List.nil_append]

theorem resolve_normalize_of_relative {p : Path} (h : p.isAbsolute = false) (folder : Path) :
    resolve folder p.normalize = resolve folder .empty ++ p.names := by
  rw [resolve_eq, normalize_of_relative h, components_joinWith p.plain_names, foldl_follow_names]

/-- The normal form of a path means the same file as the path in every absolute folder, unless the
path is relative and some beginning of it has more `..` than names; then it does so in the root
only. -/
theorem normalize_keeps_file_iff (folder p : Path) :
    resolve folder p.normalize = resolve folder p ↔
      p.isAbsolute ∨ ¬LeadOut p.components ∨ resolve folder .empty = [] := by
  cases habsolute : p.isAbsolute with
  | true =>
    have hnormal : p.normalize.isAbsolute := by
      rw [normalize_of_isAbsolute habsolute]
      rfl
    have hnames : p.normalize.names = p.names := by
      rw [names, normalize_of_isAbsolute habsolute, components_path p.plain_names,
        normalNames_cons_root, ← components_joinWith p.plain_names]
      exact names_joinWith p.plain_names
    rw [resolve_of_isAbsolute hnormal, resolve_of_isAbsolute habsolute, hnames]
    simp
  | false =>
    have hroot : .root ∉ p.components := by
      rw [root_mem_components_iff, habsolute]
      exact Bool.false_ne_true
    rcases exists_takesOff hroot with ⟨outward, hp⟩
    have hkept (l : Names) : l = l.take (l.length - outward) ↔ outward = 0 ∨ l = [] := by
      rw [List.take_self_eq_iff, ← List.length_eq_zero_iff]
      omega
    rw [resolve_normalize_of_relative habsolute, resolve_eq folder p, hp.follow, names,
      List.append_left_inj, hkept, hp.leadOut, not_not]
    simp

/-- A `..` at the front of a relative path is dropped, and a file beside the one that was meant is
found. -/
theorem normalize_drops_leading_up :
    let folder : Path := ⟨"/skins/Suite".toList⟩
    let p : Path := ⟨"../Shared.inc".toList⟩
    p.normalize = ⟨"Shared.inc".toList⟩ ∧
    resolve folder p = ["skins".toList, "Shared.inc".toList] ∧
    resolve folder p.normalize = ["skins".toList, "Suite".toList, "Shared.inc".toList] ∧
    ¬∀ folder p : Path, folder.isAbsolute → resolve folder p.normalize = resolve folder p := by
  intro folder p
  have hmeant : resolve folder p = ["skins".toList, "Shared.inc".toList] := by decide
  have hfound : resolve folder p.normalize =
      ["skins".toList, "Suite".toList, "Shared.inc".toList] := by decide
  refine ⟨by decide, hmeant, hfound, fun h => ?_⟩
  have hsame := h folder p rfl
  rw [hmeant, hfound] at hsame
  exact absurd hsame (by decide)

end Path

end SkinLint
