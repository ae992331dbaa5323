import SkinLint.PathVariables
import SkinLint.Proofs.Path.Ancestors

/-!
# The folders that variables point to

The skins folder is some steps above a document's folder, and the way up to it ends there, since no
two folders on a way upwards are the same. The root configuration is the first folder on that way
that holds the resource folder, or the skins folder itself. What lies below the skins folder are the
components by which the document's folder is longer.
-/
namespace SkinLint.PathVariables
open SkinLint.Path

section SkinsRoot

def NamedAbove (s : ValidationSettings) (dir : Path) : Prop :=
  s.skinsRoot = .skinsFolder ∧ ∃ n, ∃ q ∈ up? n dir, namedLike s.skinsFolderName q

/-- The skins folder lies some steps above: at the nearest folder of the name that the settings ask
for, and if they ask for none or there is none, two steps above or as many as there are. -/
structure IsSkinsRoot (s : ValidationSettings) (dir : Path) (n : Nat) (root : Path) : Prop where
  above : up? n dir = some root
  named : NamedAbove s dir → namedLike s.skinsFolderName root ∧
    ∀ m < n, ∀ q ∈ up? m dir, ¬namedLike s.skinsFolderName q
  unnamed : ¬NamedAbove s dir → n = 2 ∨ n < 2 ∧ root.parent? = none

theorem exists_twoUp (dir : Path) : ∃ n, up? n dir = some (twoUp dir) ∧
    (n = 2 ∨ n < 2 ∧ (twoUp dir).parent? = none) := by
  cases htwo : up? 2 dir with
  | some root =>
    have hroot : twoUp dir = root := by
      simp [twoUp, List.getLast?_take, getElem?_ancestors, htwo]
    exact ⟨2, by rw [htwo, hroot], .inl rfl⟩
  | none =>
    have hself : dir.ancestors[0]? = some dir := getElem?_ancestors dir 0
    have hpos : 0 < dir.ancestors.length := (List.getElem?_eq_some_iff.mp hself).1
    have hshort : dir.ancestors.length ≤ 2 := by
      rwa [← getElem?_ancestors, List.getElem?_eq_none_iff] at htwo
    -- The last ancestor has no parent, since nothing comes after it.
    obtain ⟨last, hlast⟩ : ∃ last, dir.ancestors.getLast? = some last :=
      ⟨_, List.getLast?_eq_some_getLast (List.length_pos_iff.mp hpos)⟩
    have hroot : twoUp dir = last := by
      simp [twoUp, List.getLast?_take, getElem?_ancestors, htwo, hlast]
    have habove : up? (dir.ancestors.length - 1) dir = some last := by
      rw [← getElem?_ancestors, ← List.getLast?_eq_getElem?, hlast]
    have hparent : last.parent? = none := by
      have hnext : up? (dir.ancestors.length - 1 + 1) dir = none := by
        rw [← getElem?_ancestors, List.getElem?_eq_none_iff]
        omega
      rwa [up?_succ, habove, Option.bind_some] at hnext
    rw [hroot]
    exact ⟨dir.ancestors.length - 1, habove, .inr ⟨by omega, hparent⟩⟩

theorem exists_isSkinsRoot (s : ValidationSettings) (dir : Path) :
    ∃ n, IsSkinsRoot s dir n (skinsRoot s dir) := by
  have hunnamed (hroot : skinsRoot s dir = twoUp dir) (hnone : ¬NamedAbove s dir) :
      ∃ n, IsSkinsRoot s dir n (skinsRoot s dir) := by
    rw [hroot]
    rcases exists_twoUp dir with ⟨n, habove, hlast⟩
    exact ⟨n, habove, fun h => absurd h hnone, fun _ => hlast⟩
  cases hpolicy : s.skinsRoot with
  | resources =>
    apply hunnamed
    · simp [skinsRoot, hpolicy]
    · simp [NamedAbove, hpolicy]
  | skinsFolder =>
    cases hfind : dir.ancestors.find? (namedLike s.skinsFolderName) with
    | some root =>
      have hroot : skinsRoot s dir = root := by simp [skinsRoot, hpolicy, hfind]
      rcases find?_ancestors_eq_some_iff.mp hfind with ⟨n, habove, hnamed, hbefore⟩
      have hsome : NamedAbove s dir := ⟨hpolicy, n, root, habove, hnamed⟩
      rw [hroot]
      exact ⟨n, habove, fun _ => ⟨hnamed, hbefore⟩, fun h => absurd hsome h⟩
    | none =>
      apply hunnamed
      · simp [skinsRoot, hpolicy, hfind]
      · rintro ⟨-, m, q, hq, hnamed⟩
        rw [← getElem?_ancestors] at hq
        exact List.find?_eq_none.mp hfind q (List.mem_of_getElem? hq) hnamed

end SkinsRoot

section Way

/-- The way up ends at the first folder that is the same as the last one. -/
theorem upTo_eq_take {root : Path} {dirs : List Path} {n : Nat} (h : dirs[n]? = some root)
    (hbefore : ∀ m < n, ∀ q ∈ dirs[m]?, ¬q.same root) : upTo root dirs = dirs.take (n + 1) := by
  induction n generalizing dirs with
  | zero =>
    cases dirs with
    | nil => simp at h
    | cons dir rest =>
      obtain rfl : dir = root := by simpa using h
      have hsame : dir.same dir := by simp [same]
      simp [upTo, hsame]
  | succ n ih =>
    cases dirs with
    | nil => simp at h
    | cons dir rest =>
      have hdir : ¬dir.same root := hbefore 0 (by omega) dir rfl
      have hrest : ∀ m < n, ∀ q ∈ rest[m]?, ¬q.same root := by
        intro m hm q hq
        exact hbefore (m + 1) (by omega) q (by simpa using hq)
      rw [upTo, if_neg hdir, ih (by simpa using h) hrest, List.take_succ_cons]

variable {n : Nat} {dir root : Path} (h : up? n dir = some root)
include h

theorem upTo_ancestors : upTo root dir.ancestors = dir.ancestors.take (n + 1) := by
  apply upTo_eq_take (by rwa [getElem?_ancestors])
  intro m hm q hq hsame
  rw [getElem?_ancestors] at hq
  -- Fewer steps leave more components.
  rcases components_up? h with ⟨below, hbelow, hlength⟩
  rcases components_up? hq with ⟨below', hbelow', hlength'⟩
  have hlengths := congrArg List.length (hbelow.symm.trans hbelow')
  rw [same_iff.mp hsame, List.length_append, List.length_append, hlength, hlength'] at hlengths
  omega

theorem getElem?_upTo {m : Nat} (hm : m ≤ n) : (upTo root dir.ancestors)[m]? = up? m dir := by
  rw [upTo_ancestors h, List.getElem?_take_of_lt (by omega), getElem?_ancestors]

theorem getLast?_upTo : (upTo root dir.ancestors).getLast? = some root := by
  rw [upTo_ancestors h, List.getLast?_take]
  simp [getElem?_ancestors, h]

theorem mem_upTo_iff {q : Path} : q ∈ upTo root dir.ancestors ↔ ∃ m ≤ n, up? m dir = some q := by
  rw [List.mem_iff_getElem?]
  constructor
  · rintro ⟨m, hm⟩
    have hlength := (List.getElem?_eq_some_iff.mp hm).1
    rw [upTo_ancestors h, List.length_take] at hlength
    have hle : m ≤ n := by omega
    exact ⟨m, hle, by rwa [getElem?_upTo h hle] at hm⟩
  · rintro ⟨m, hle, hm⟩
    exact ⟨m, by rwa [getElem?_upTo h hle]⟩

/-- What is found on the way up is the nearest that fits. -/
theorem exists_of_findBase? {holds : Path → Bool} {base : Path}
    (hfound : findBase? holds (upTo root dir.ancestors) = some base) :
    ∃ k ≤ n, up? k dir = some base ∧ holds base ∧ ∀ m < k, ∀ q ∈ up? m dir, ¬holds q := by
  rw [findBase?] at hfound
  rcases (mem_upTo_iff h).mp (List.mem_of_find?_eq_some hfound) with ⟨m, hm, habove⟩
  rw [upTo_ancestors h] at hfound
  have htake := List.take_prefix (n + 1) dir.ancestors
  rcases find?_ancestors_eq_some_iff.mp (htake.find?_eq_some hfound) with ⟨k, hk, hbase, hbefore⟩
  have hle : k ≤ m := by
    by_contra hlt
    exact hbefore m (by omega) base habove hbase
  exact ⟨k, hle.trans hm, hk, hbase, hbefore⟩

theorem findBase?_eq_none_iff {holds : Path → Bool} :
    findBase? holds (upTo root dir.ancestors) = none ↔
      ∀ m ≤ n, ∀ q ∈ up? m dir, ¬holds q := by
  rw [findBase?, List.find?_eq_none]
  constructor
  · intro hnone m hm q hq
    exact hnone q ((mem_upTo_iff h).mpr ⟨m, hm, hq⟩)
  · intro hnone q hq
    rcases (mem_upTo_iff h).mp hq with ⟨m, hm, hq⟩
    exact hnone m hm q hq

/-- The folder some steps above is what a path starts with. -/
theorem below?_of_up? :
    ∃ below, dir.components = root.components ++ below ∧ root.below? dir = some below := by
  rcases components_up? h with ⟨below, hbelow, -⟩
  refine ⟨below, hbelow, ?_⟩
  have hstart : root.components.isPrefixOf dir.components := by
    apply List.isPrefixOf_iff_prefix.mpr
    exact ⟨below, hbelow.symm⟩
  rw [below?, if_pos hstart, hbelow, List.drop_left]

end Way

theorem skinsRoot_mem_upTo (s : ValidationSettings) (dir : Path) :
    skinsRoot s dir ∈ upTo (skinsRoot s dir) dir.ancestors := by
  rcases exists_isSkinsRoot s dir with ⟨n, hroot⟩
  exact (mem_upTo_iff hroot.above).mpr ⟨n, le_rfl, hroot.above⟩

section Build

variable (s : ValidationSettings) (present : Path → Bool) (document : Path)

def nearest? : Option Path :=
  findBase? (fun q => present (q.join ⟨s.resourceFolder⟩))
    (upTo (skinsRoot s document.directory) document.directory.ancestors)

theorem base_mem_upTo :
    (nearest? s present document).getD (skinsRoot s document.directory) ∈
      upTo (skinsRoot s document.directory) document.directory.ancestors := by
  cases hfound : nearest? s present document with
  | none => exact skinsRoot_mem_upTo s document.directory
  | some q => exact List.mem_of_find?_eq_some hfound

theorem resources_build : (build s present document).resources =
    ((nearest? s present document).map fun q =>
      (q.join ⟨s.resourceFolder⟩).directoryText s.trailingSeparator).getD [] := rfl

theorem rootConfig_build :
    let base := (nearest? s present document).getD (skinsRoot s document.directory)
    (build s present document).rootConfigPath = base.directoryText s.trailingSeparator ∧
      (build s present document).rootConfig = base.fileName?.getD [] := by
  rcases exists_isSkinsRoot s document.directory with ⟨n, hroot⟩
  unfold build
  dsimp only
  rw [getLast?_upTo hroot.above]
  exact ⟨rfl, rfl⟩

theorem currentConfig_build : ∃ below,
    document.directory.components = (skinsRoot s document.directory).components ++ below ∧
      (build s present document).currentConfig = slashed below := by
  rcases exists_isSkinsRoot s document.directory with ⟨n, hroot⟩
  rcases below?_of_up? hroot.above with ⟨below, hbelow, hconfig⟩
  refine ⟨below, hbelow, ?_⟩
  unfold build
  dsimp only
  rw [hconfig]
  rfl

end Build

/-- The root configuration lies on the way from the folder of a document up to the skins folder. It
is the nearest folder there that holds the resource folder, and if none does, the skins folder. The
current configuration is what the folder of the document has below the skins folder. -/
theorem root_config_is_nearest (s : ValidationSettings) (present : Path → Bool) (document : Path) :
    let dir := document.directory
    let root := skinsRoot s dir
    let resources (q : Path) : Path := q.join ⟨s.resourceFolder⟩
    let v := build s present document
    ∃ n, IsSkinsRoot s dir n root ∧ ∃ k ≤ n, ∃ base, up? k dir = some base ∧
      v.skins = root.directoryText s.trailingSeparator ∧
      v.rootConfigPath = base.directoryText s.trailingSeparator ∧
      v.rootConfig = base.fileName?.getD [] ∧
      (∀ m ≤ n, ∀ q ∈ up? m dir, present (resources q) →
        k ≤ m ∧ present (resources base) ∧
          v.resources = (resources base).directoryText s.trailingSeparator) ∧
      ((∀ m ≤ n, ∀ q ∈ up? m dir, ¬present (resources q)) → base = root ∧ v.resources = []) ∧
      ∃ below, dir.components = root.components ++ below ∧
        v.currentConfig = ['/'].intercalate (below.map Component.text) := by
  intro dir root resources v
  rcases exists_isSkinsRoot s dir with ⟨n, hroot⟩
  have hcurrent := currentConfig_build s present document
  simp only [slashed, Text.joinWith_eq] at hcurrent
  have hresources := resources_build s present document
  have hconfig := rootConfig_build s present document
  refine ⟨n, hroot, ?_⟩
  cases hfound : nearest? s present document with
  | some base =>
    rcases exists_of_findBase? hroot.above hfound with ⟨k, hk, hbase, hholds, hbefore⟩
    rw [hfound] at hresources hconfig
    refine ⟨k, hk, base, hbase, rfl, hconfig.1, hconfig.2, ?_, ?_, hcurrent⟩
    · intro m hm q hq hpresent
      have hle : k ≤ m := by
        by_contra hlt
        exact hbefore m (by omega) q hq hpresent
      exact ⟨hle, hholds, hresources⟩
    · intro hnone
      exact absurd hholds (hnone k hk base hbase)
  | none =>
    have hnone := (findBase?_eq_none_iff hroot.above).mp hfound
    rw [hfound] at hresources hconfig
    refine ⟨n, le_rfl, root, hroot.above, rfl, hconfig.1, hconfig.2, ?_, ?_, hcurrent⟩
    · intro m hm q hq hpresent
      exact absurd hpresent (hnone m hm q hq)
    · intro _
      exact ⟨rfl, hresources⟩

example :
    let resources : Path := ⟨"/skins/Suite/@Resources".toList⟩
    let v := build {} (· == resources) ⟨"/skins/Suite/Clock/Clock.ini".toList⟩
    v.rootConfig = "Suite".toList ∧ v.currentConfig = "Suite/Clock".toList := by
  decide

end SkinLint.PathVariables
