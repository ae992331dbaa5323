import SkinLint.Config.Basic
import SkinLint.Proofs.Lookup

/-!
# Stacks of layers

Merging takes each field from the last layer that sets it, and each named level or meter from the
last layer that has the name. This holds of a stack of any height, so merging is associative and the
empty layer changes nothing. A path is seen from the folder of the layer it was taken from.
-/
namespace SkinLint.Config

theorem Located.resolve_eq (p : Located Path) :
    p.resolve = if p.value.isAbsolute then p.value else p.origin.base.join p.value := by
  unfold resolve Path.join
  split <;> rfl

namespace Layer

section Union

variable {α : Type}

theorem lookup_union (lower upper : List (Text × α)) (name : Text) :
    (union lower upper).lookup name = (upper.lookup name).or (lower.lookup name) := by
  rw [union, List.lookup_append]
  cases h : upper.lookup name with
  | some v => rfl
  | none =>
    rw [Option.none_or, Option.none_or]
    exact lookup_filter_of_kept (fun n => (upper.lookup n).isNone) (by simp [h]) lower

@[simp] theorem union_nil_left (upper : List (Text × α)) : union [] upper = upper := by
  simp [union]

@[simp] theorem union_nil_right (lower : List (Text × α)) : union lower [] = lower := by
  simp [union]

/-- An entry of `a` is kept if its name is neither in `b` nor in `c`, whichever is asked first. -/
theorem union_assoc (a b c : List (Text × α)) : union (union a b) c = union a (union b c) := by
  have hkept : (a.filter fun x => (b.lookup x.1).isNone).filter (fun x => (c.lookup x.1).isNone) =
      a.filter fun x => ((union b c).lookup x.1).isNone := by
    rw [List.filter_filter]
    apply List.filter_congr
    intro x _
    rw [lookup_union]
    cases c.lookup x.1 <;> rfl
  calc union (union a b) c
      = c ++ (b.filter (fun x => (c.lookup x.1).isNone) ++
          (a.filter fun x => (b.lookup x.1).isNone).filter fun x => (c.lookup x.1).isNone) := by
        rw [← List.filter_append]
        rfl
    _ = union b c ++ a.filter fun x => ((union b c).lookup x.1).isNone := by
        rw [hkept, ← List.append_assoc]
        rfl
    _ = union a (union b c) := rfl

end Union

theorem merge_empty_left (l : Layer) : merge {} l = l := by
  simp [merge]

theorem merge_empty_right (l : Layer) : merge l {} = l := by
  simp [merge]

theorem merge_assoc (a b c : Layer) : merge (merge a b) c = merge a (merge b c) := by
  simp [merge, union_assoc, Option.or_assoc]

/-- What a stack of layers says on a field: the word of the last layer that has one. -/
def Prevails {α : Type} (field : Layer → Option α) (layers : List Layer) : Option α → Prop
  | some v => ∃ below layer above, layers = below ++ layer :: above ∧ field layer = some v ∧
      ∀ upper ∈ above, field upper = none
  | none => ∀ layer ∈ layers, field layer = none

section Prevails

variable {α : Type} {field : Layer → Option α}

/-- The last word is the first one, going down. -/
theorem prevails_iff (layers : List Layer) (found : Option α) :
    Prevails field layers found ↔ layers.reverse.findSome? field = found := by
  cases found with
  | none => simp [Prevails]
  | some v =>
    rw [List.findSome?_eq_some_iff]
    constructor
    · rintro ⟨below, layer, above, rfl, hv, habove⟩
      exact ⟨above.reverse, layer, below.reverse, by simp, hv, by simpa using habove⟩
    · rintro ⟨above, layer, below, hlayers, hv, habove⟩
      refine ⟨below.reverse, layer, above.reverse, ?_, hv, by simpa using habove⟩
      rw [← List.reverse_reverse layers, hlayers]
      simp

theorem Prevails.unique {layers : List Layer} {a b : Option α} (ha : Prevails field layers a)
    (hb : Prevails field layers b) : a = b :=
  ((prevails_iff layers a).mp ha).symm.trans ((prevails_iff layers b).mp hb)

variable (hmerge : ∀ lower upper, field (merge lower upper) = (field upper).or (field lower))
include hmerge

theorem field_foldl_merge (layers : List Layer) (l : Layer) :
    field (layers.foldl merge l) = (layers.reverse.findSome? field).or (field l) := by
  induction layers generalizing l with
  | nil => rfl
  | cons layer layers ih =>
    rw [List.foldl_cons, ih, hmerge, List.reverse_cons, List.findSome?_append, Option.or_assoc]
    cases hl : field layer <;> simp [hl]

/-- A field that merging takes from the upper layer, if it can, has the last word of the stack. -/
theorem prevails_mergeAll (hempty : field {} = none) (layers : List Layer) :
    Prevails field layers (field (mergeAll layers)) := by
  rw [prevails_iff, mergeAll, field_foldl_merge hmerge, hempty, Option.or_none]

end Prevails

theorem eq_settings_of_resolve {l : Layer} {s : Settings} (h : l.resolve = .ok s) :
    s = l.settings := by
  unfold resolve at h
  split at h
  · exact (Except.ok.inj h).symm
  · cases h

/-- A layer in which every field, and every named level and meter, has the last word of a stack. -/
structure Stacked (layers : List Layer) (l : Layer) : Prop where
  root : Prevails Layer.root layers l.root
  includes : Prevails Layer.includes layers l.includes
  excludes : Prevails Layer.excludes layers l.excludes
  strictSectionNames : Prevails Layer.strictSectionNames layers l.strictSectionNames
  maxSectionNameLength : Prevails Layer.maxSectionNameLength layers l.maxSectionNameLength
  resourceFolder : Prevails Layer.resourceFolder layers l.resourceFolder
  skinsRoot : Prevails Layer.skinsRoot layers l.skinsRoot
  skinsFolderName : Prevails Layer.skinsFolderName layers l.skinsFolderName
  trailingSeparator : Prevails Layer.trailingSeparator layers l.trailingSeparator
  caseSensitiveNames : Prevails Layer.caseSensitiveNames layers l.caseSensitiveNames
  levels (name : Text) : Prevails (·.levels.lookup name) layers (l.levels.lookup name)
  meterKeys (name : Text) : Prevails (·.meterKeys.lookup name) layers (l.meterKeys.lookup name)
  executable : Prevails Layer.executable layers l.executable
  autoRefreshOnSave : Prevails Layer.autoRefreshOnSave layers l.autoRefreshOnSave
  mode : Prevails Layer.mode layers l.mode
  logPath : Prevails Layer.logPath layers l.logPath

theorem stacked_mergeAll (layers : List Layer) : Stacked layers (mergeAll layers) where
  root := prevails_mergeAll (fun _ _ => by simp [merge]) rfl layers
  includes := prevails_mergeAll (fun _ _ => by simp [merge]) rfl layers
  excludes := prevails_mergeAll (fun _ _ => by simp [merge]) rfl layers
  strictSectionNames := prevails_mergeAll (fun _ _ => by simp [merge]) rfl layers
  maxSectionNameLength := prevails_mergeAll (fun _ _ => by simp [merge]) rfl layers
  resourceFolder := prevails_mergeAll (fun _ _ => by simp [merge]) rfl layers
  skinsRoot := prevails_mergeAll (fun _ _ => by simp [merge]) rfl layers
  skinsFolderName := prevails_mergeAll (fun _ _ => by simp [merge]) rfl layers
  trailingSeparator := prevails_mergeAll (fun _ _ => by simp [merge]) rfl layers
  caseSensitiveNames := prevails_mergeAll (fun _ _ => by simp [merge]) rfl layers
  levels name := prevails_mergeAll (fun _ _ => lookup_union _ _ name) rfl layers
  meterKeys name := prevails_mergeAll (fun _ _ => lookup_union _ _ name) rfl layers
  executable := prevails_mergeAll (fun _ _ => by simp [merge]) rfl layers
  autoRefreshOnSave := prevails_mergeAll (fun _ _ => by simp [merge]) rfl layers
  mode := prevails_mergeAll (fun _ _ => by simp [merge]) rfl layers
  logPath := prevails_mergeAll (fun _ _ => by simp [merge]) rfl layers

/-- Merging a stack gives every field, level and meter its last word, and does so in whatever order
neighbours are merged. The root of the project and the path of the log are seen from the folder of
the layer whose word they are. -/
theorem merged_last_word (layers : List Layer) :
    Stacked layers (mergeAll layers) ∧
    (∀ a b c : Layer, merge (merge a b) c = merge a (merge b c)) ∧
    (∀ l : Layer, merge {} l = l ∧ merge l {} = l) ∧
    ∀ s, (mergeAll layers).resolve = .ok s →
      (∀ root, Prevails Layer.root layers (some root) →
        s.project.root =
          if root.value.isAbsolute then root.value else root.origin.base.join root.value) ∧
      (∀ path, Prevails Layer.logPath layers (some path) →
        s.log.path =
          some (if path.value.isAbsolute then path.value else path.origin.base.join path.value)) ∧
      (Prevails Layer.logPath layers none → s.log.path = none) := by
  have hstack := stacked_mergeAll layers
  refine ⟨hstack, merge_assoc, fun l => ⟨merge_empty_left l, merge_empty_right l⟩, ?_⟩
  intro s hs
  obtain rfl := eq_settings_of_resolve hs
  refine ⟨fun root h => ?_, fun path h => ?_, fun h => ?_⟩
  · rw [← Located.resolve_eq, settings, hstack.root.unique h]
    rfl
  · rw [← Located.resolve_eq, settings, hstack.logPath.unique h]
    rfl
  · rw [settings, hstack.logPath.unique h]
    rfl

/-- The upper layer has the last word on the log and none on the root, so each is seen from the
folder of another file. -/
theorem merged_last_word_two_folders :
    let shared : Origin := .ofFile .repository ⟨"/skins/.rainlint.toml".toList⟩
    let own : Origin := .ofFile .folder ⟨"/skins/clock/.rainlint.toml".toList⟩
    let lower : Layer :=
      { root := some ⟨⟨"src".toList⟩, shared⟩, logPath := some ⟨⟨"a.log".toList⟩, shared⟩ }
    let upper : Layer := { logPath := some ⟨⟨"b.log".toList⟩, own⟩ }
    ∃ s, (mergeAll [lower, upper]).resolve = .ok s ∧
      s.project.root = ⟨"/skins/src".toList⟩ ∧ s.log.path = some ⟨"/skins/clock/b.log".toList⟩ := by
  intro shared own lower upper
  have hs : (mergeAll [lower, upper]).resolve = .ok (mergeAll [lower, upper]).settings := by
    rw [resolve, if_pos (by decide)]
  obtain ⟨-, -, -, hpaths⟩ := merged_last_word [lower, upper]
  obtain ⟨hroot, hlog, -⟩ := hpaths _ hs
  refine ⟨_, hs, ?_, ?_⟩
  · rw [hroot ⟨⟨"src".toList⟩, shared⟩ ⟨[], lower, [upper], rfl, rfl, by simp [upper]⟩]
    decide
  · rw [hlog ⟨⟨"b.log".toList⟩, own⟩ ⟨[lower], upper, [], rfl, rfl, by simp⟩]
    decide

end Layer

end SkinLint.Config
