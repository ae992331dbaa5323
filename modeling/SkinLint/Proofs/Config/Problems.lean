import Mathlib.Data.List.Forall2
import Mathlib.Data.List.Nodup
import SkinLint.Proofs.Config.Layers
import SkinLint.Proofs.Meter.Keys
import SkinLint.Proofs.Text

/-!
# What is wrong with a stack of layers

Every value that counts, being the last word of the stack, is looked at once. So each bad one is
reported once, with the origin of the layer it comes from, and a value that an upper layer replaces
is not reported. Settings come out only if no value is bad, and they are then sound.
-/
namespace SkinLint.Config
open Text

inductive Place where
  | pattern (field : PatternField) (index : Nat)
  | maxSectionNameLength
  | resourceFolder
  | skinsFolderName
  | skinsRoot
  | level (name : Text)
  | meter (name : Text)
  | executable
  | mode
deriving DecidableEq, Repr

def PatternField.ofLayer : PatternField → Layer → Option (Located (List Text))
  | .includes => Layer.includes
  | .excludes => Layer.excludes

namespace Layer

/-- The value that counts at a place of a stack is bad, and this is the problem with it. -/
inductive Faulty (layers : List Layer) : Place → Problem → Prop
  | pattern {field : PatternField} {patterns : Located (List Text)} {index : Nat} {pattern : Text}
      {fault : Glob.Fault} (counts : Prevails field.ofLayer layers (some patterns))
      (there : patterns.value[index]? = some pattern)
      (bad : Glob.Pattern.parse pattern = .error fault) :
      Faulty layers (.pattern field index)
        ⟨.badPattern field pattern fault, some patterns.origin⟩
  | maxSectionNameLength {length : Located Nat}
      (counts : Prevails Layer.maxSectionNameLength layers (some length))
      (bad : length.value = 0) :
      Faulty layers .maxSectionNameLength ⟨.zeroNameLength, some length.origin⟩
  | resourceFolder {folder : Located Text}
      (counts : Prevails Layer.resourceFolder layers (some folder))
      (bad : ∀ c ∈ folder.value, isBlank c = true) :
      Faulty layers .resourceFolder ⟨.blankResourceFolder, some folder.origin⟩
  | skinsFolderName {folder : Located Text}
      (counts : Prevails Layer.skinsFolderName layers (some folder))
      (bad : ∀ c ∈ folder.value, isBlank c = true) :
      Faulty layers .skinsFolderName ⟨.blankSkinsFolderName, some folder.origin⟩
  | skinsRoot {policy : Located Text} (counts : Prevails Layer.skinsRoot layers (some policy))
      (bad : ∀ known : SkinsRootPolicy, known.name ≠ str policy.value) :
      Faulty layers .skinsRoot ⟨.unknownSkinsRoot policy.value, some policy.origin⟩
  | rule {name : Text} {level : Located Text}
      (counts : Prevails (·.levels.lookup name) layers (some level))
      (bad : ∀ known : Rule, known.name ≠ str name) :
      Faulty layers (.level name) ⟨.unknownRule name, some level.origin⟩
  | level {name : Text} {level : Located Text} {rule : Rule}
      (counts : Prevails (·.levels.lookup name) layers (some level))
      (known : rule.name = str name) (bad : ∀ known : Level, known.name ≠ str level.value) :
      Faulty layers (.level name) ⟨.unknownLevel rule level.value, some level.origin⟩
  | meter {name : Text} {keys : Located (List Text)}
      (counts : Prevails (·.meterKeys.lookup name) layers (some keys))
      (bad : ∀ known : Meter, eqIgnoreCase name known.name.toList = false) :
      Faulty layers (.meter name) ⟨.unknownMeter name, some keys.origin⟩
  | executable {path : Located Path} (counts : Prevails Layer.executable layers (some path))
      (bad : path.value = .empty) :
      Faulty layers .executable ⟨.emptyExecutable, some path.origin⟩
  | mode {mode : Located Text} (counts : Prevails Layer.mode layers (some mode))
      (bad : ∀ known : RefreshMode, known.name ≠ str mode.value) :
      Faulty layers .mode ⟨.unknownMode mode.value, some mode.origin⟩

/-- Levels and meters are named once, as they are in a table. -/
structure NamesOnce (l : Layer) : Prop where
  levels : (l.levels.map Prod.fst).Nodup
  meterKeys : (l.meterKeys.map Prod.fst).Nodup

section NamesOnce

variable {α : Type}

theorem nodup_union {lower upper : List (Text × α)} (hl : (lower.map Prod.fst).Nodup)
    (hu : (upper.map Prod.fst).Nodup) : ((union lower upper).map Prod.fst).Nodup := by
  rw [union, List.map_append, List.nodup_append]
  refine ⟨hu, hl.sublist (List.filter_sublist.map _), ?_⟩
  intro a ha b hb hab
  obtain ⟨x, hx, rfl⟩ := List.mem_map.mp ha
  obtain ⟨y, hy, rfl⟩ := List.mem_map.mp hb
  have hnone := Option.isNone_iff_eq_none.mp (List.mem_filter.mp hy).2
  have hne := List.lookup_eq_none_iff.mp hnone x hx
  exact (bne_iff_ne.mp hne) hab.symm

end NamesOnce

theorem NamesOnce.merge {lower upper : Layer} (hl : lower.NamesOnce) (hu : upper.NamesOnce) :
    (merge lower upper).NamesOnce :=
  ⟨nodup_union hl.levels hu.levels, nodup_union hl.meterKeys hu.meterKeys⟩

theorem NamesOnce.foldl_merge {layers : List Layer} (h : ∀ l ∈ layers, l.NamesOnce) {l : Layer}
    (hl : l.NamesOnce) : (layers.foldl Layer.merge l).NamesOnce := by
  induction layers generalizing l with
  | nil => exact hl
  | cons layer layers ih =>
    exact ih (fun l hm => h l (List.mem_cons_of_mem _ hm)) (hl.merge (h layer List.mem_cons_self))

def patternFaults (field : PatternField) : Option (Located (List Text)) → List (Place × Problem)
  | none => []
  | some patterns =>
    patterns.value.zipIdx.filterMap fun (pattern, index) =>
      match Glob.Pattern.parse pattern with
      | .error fault =>
        some (.pattern field index, ⟨.badPattern field pattern fault, some patterns.origin⟩)
      | .ok _ => none

def faults (l : Layer) : List (Place × Problem) :=
  patternFaults .includes l.includes ++
  patternFaults .excludes l.excludes ++
  (problem? (fun n => if n = 0 then some .zeroNameLength else none) l.maxSectionNameLength).map
    (Place.maxSectionNameLength, ·) ++
  (problem? (blank? .blankResourceFolder) l.resourceFolder).map (Place.resourceFolder, ·) ++
  (problem? (blank? .blankSkinsFolderName) l.skinsFolderName).map (Place.skinsFolderName, ·) ++
  (problem? (fun t =>
    if (SkinsRootPolicy.ofName? (str t)).isNone then some (.unknownSkinsRoot t) else none)
    l.skinsRoot).map (Place.skinsRoot, ·) ++
  (l.levels.flatMap fun (name, level) =>
    (problem? (levelProblem? name) (some level)).map (Place.level name, ·)) ++
  (l.meterKeys.flatMap fun (name, keys) =>
    (problem? (fun _ => if (Meter.ofName? name).isNone then some (.unknownMeter name) else none)
      (some keys)).map (Place.meter name, ·)) ++
  (problem? (fun p : Path => if p.isEmpty then some .emptyExecutable else none) l.executable).map
    (Place.executable, ·) ++
  (problem? (fun t => if (RefreshMode.ofName? (str t)).isNone then some (.unknownMode t)
    else none) l.mode).map (Place.mode, ·)

theorem map_snd_patternFaults (field : PatternField) (found : Option (Located (List Text))) :
    (patternFaults field found).map Prod.snd = patternProblems field found := by
  cases found with
  | none => rfl
  | some patterns =>
    simp only [patternFaults, patternProblems]
    generalize 0 = first
    induction patterns.value generalizing first with
    | nil => rfl
    | cons pattern rest ih =>
      rw [List.zipIdx_cons, List.filterMap_cons, List.filterMap_cons]
      cases Glob.Pattern.parse pattern with
      | error fault => simp [ih]
      | ok found => simp [ih]

theorem map_snd_faults (l : Layer) : l.faults.map Prod.snd = l.problems := by
  simp [faults, problems, map_snd_patternFaults, List.map_flatMap, Function.comp_def]

theorem mem_patternFaults_iff (field : PatternField) (found : Option (Located (List Text)))
    (place : Place) (p : Problem) :
    (place, p) ∈ patternFaults field found ↔
      ∃ patterns index pattern fault, found = some patterns ∧
        patterns.value[index]? = some pattern ∧ Glob.Pattern.parse pattern = .error fault ∧
        place = .pattern field index ∧ p = ⟨.badPattern field pattern fault, some patterns.origin⟩ := by
  cases found with
  | none => simp [patternFaults]
  | some patterns =>
    simp only [patternFaults, List.mem_filterMap, Prod.exists, List.mem_zipIdx_iff_getElem?]
    constructor
    · rintro ⟨pattern, index, hthere, hfault⟩
      cases hparse : Glob.Pattern.parse pattern with
      | ok found => simp [hparse] at hfault
      | error fault =>
        simp only [hparse, Option.some.injEq, Prod.mk.injEq] at hfault
        exact ⟨patterns, index, pattern, fault, rfl, hthere, hparse, hfault.1.symm, hfault.2.symm⟩
    · rintro ⟨patterns, index, pattern, fault, ⟨⟩, hthere, hparse, rfl, rfl⟩
      exact ⟨pattern, index, hthere, by simp [hparse]⟩

theorem mem_problem?_iff {α : Type} (cause? : α → Option Cause) (found : Option (Located α))
    (p : Problem) : p ∈ problem? cause? found ↔
      ∃ v cause, found = some v ∧ cause? v.value = some cause ∧ p = ⟨cause, some v.origin⟩ := by
  cases found with
  | none => simp [problem?]
  | some v => simp [problem?, eq_comm (a := p)]

/-- The places that are looked at, for some numbers of patterns and names of levels and meters. -/
def places (includes excludes : Nat) (levels meters : List Text) : List Place :=
  (List.range includes).map (Place.pattern .includes) ++
  (List.range excludes).map (Place.pattern .excludes) ++
  [Place.maxSectionNameLength] ++ [Place.resourceFolder] ++ [Place.skinsFolderName] ++
  [Place.skinsRoot] ++ levels.map Place.level ++ meters.map Place.meter ++ [Place.executable] ++
  [Place.mode]

theorem nodup_places (includes excludes : Nat) {levels meters : List Text} (hl : levels.Nodup)
    (hm : meters.Nodup) : (places includes excludes levels meters).Nodup := by
  have hlevels : (levels.map Place.level).Nodup := hl.map fun _ _ => Place.level.inj
  have hmeters : (meters.map Place.meter).Nodup := hm.map fun _ _ => Place.meter.inj
  have hfield (field : PatternField) (n : Nat) :
      ((List.range n).map (Place.pattern field)).Nodup :=
    List.nodup_range.map fun _ _ heq => (Place.pattern.inj heq).2
  have hone (place : Place) {before : List Place} (h : before.Nodup) (hnew : place ∉ before) :
      (before ++ [place]).Nodup :=
    h.append (List.nodup_singleton place) (by simpa using hnew)
  have hpatterns := (hfield .includes includes).append (hfield .excludes excludes)
    (by simp [List.disjoint_right])
  have hlength := hone .maxSectionNameLength hpatterns (by simp)
  have hresources := hone .resourceFolder hlength (by simp)
  have hskins := hone .skinsRoot (hone .skinsFolderName hresources (by simp)) (by simp)
  have hnamed := (hskins.append hlevels (by simp [List.disjoint_right])).append hmeters
    (by simp [List.disjoint_right])
  exact hone .mode (hone .executable hnamed (by simp)) (by simp)

theorem map_fst_flatMap_sublist {α : Type} {f : Text × α → List (Place × Problem)}
    {place : Text → Place} (h : ∀ x, ((f x).map Prod.fst).Sublist [place x.1])
    (entries : List (Text × α)) :
    ((entries.flatMap f).map Prod.fst).Sublist ((entries.map Prod.fst).map place) := by
  induction entries with
  | nil => simp
  | cons x entries ih =>
    rw [List.flatMap_cons, List.map_append, List.map_cons, List.map_cons]
    exact (h x).append ih

theorem map_fst_problem?_sublist {α : Type} (cause? : α → Option Cause)
    (found : Option (Located α)) (place : Place) :
    (((problem? cause? found).map (place, ·)).map Prod.fst).Sublist [place] := by
  cases found with
  | none => simp [problem?]
  | some v =>
    rw [problem?]
    cases cause? v.value <;> simp

theorem map_fst_patternFaults_sublist (field : PatternField)
    (found : Option (Located (List Text))) :
    ((patternFaults field found).map Prod.fst).Sublist
      ((List.range (value found []).length).map (.pattern field)) := by
  cases found with
  | none => simp [patternFaults]
  | some patterns =>
    have hrange : List.range patterns.value.length = patterns.value.zipIdx.map Prod.snd := by
      simp [List.range_eq_range']
    rw [value, Option.map_some, Option.getD_some, hrange, List.map_map, patternFaults]
    induction patterns.value.zipIdx with
    | nil => simp
    | cons x rest ih =>
      obtain ⟨pattern, index⟩ := x
      cases h : Glob.Pattern.parse pattern with
      | error fault => simpa [h] using ih
      | ok found => simpa [h] using ih.cons (Place.pattern field index)

theorem NamesOnce.nodup_faults {l : Layer} (h : l.NamesOnce) : (l.faults.map Prod.fst).Nodup := by
  have hsub : (l.faults.map Prod.fst).Sublist (places (value l.includes []).length
      (value l.excludes []).length (l.levels.map Prod.fst) (l.meterKeys.map Prod.fst)) := by
    simp only [faults, places, List.map_append]
    refine (((((((((?_ : List.Sublist _ _).append ?_).append ?_).append ?_).append ?_).append
      ?_).append ?_).append ?_).append ?_).append ?_
    case refine_1 => exact map_fst_patternFaults_sublist _ _
    case refine_2 => exact map_fst_patternFaults_sublist _ _
    case refine_7 => exact map_fst_flatMap_sublist (fun x => map_fst_problem?_sublist _ _ _) _
    case refine_8 => exact map_fst_flatMap_sublist (fun x => map_fst_problem?_sublist _ _ _) _
    all_goals exact map_fst_problem?_sublist _ _ _
  exact (nodup_places _ _ h.levels h.meterKeys).sublist hsub

section Causes

theorem find?_name_eq_none_iff {α : Type} {all : List α} (hall : ∀ a, a ∈ all) (name : α → String)
    (s : String) : all.find? (name · == s) = none ↔ ∀ a, name a ≠ s := by
  simp [hall]

theorem isNone_ofName?_rule_iff (s : String) :
    Rule.ofName? s = none ↔ ∀ known : Rule, known.name ≠ s :=
  find?_name_eq_none_iff (fun r => by cases r <;> simp [Rule.all]) Rule.name s

theorem isNone_ofName?_level_iff (s : String) :
    Level.ofName? s = none ↔ ∀ known : Level, known.name ≠ s :=
  find?_name_eq_none_iff (fun l => by cases l <;> simp [Level.all]) Level.name s

theorem isNone_ofName?_skinsRoot_iff (s : String) :
    SkinsRootPolicy.ofName? s = none ↔ ∀ known : SkinsRootPolicy, known.name ≠ s :=
  find?_name_eq_none_iff (fun p => by cases p <;> simp) SkinsRootPolicy.name s

theorem isNone_ofName?_mode_iff (s : String) :
    RefreshMode.ofName? s = none ↔ ∀ known : RefreshMode, known.name ≠ s :=
  find?_name_eq_none_iff (fun m => by cases m <;> simp) RefreshMode.name s

theorem isNone_ofName?_meter_iff (t : Text) :
    Meter.ofName? t = none ↔ ∀ known : Meter, eqIgnoreCase t known.name.toList = false := by
  have hall (m : Meter) : m ∈ Meter.all := by cases m <;> simp [Meter.all]
  simp [Meter.ofName?, hall]

theorem ofName?_rule_eq_some_iff (s : String) (rule : Rule) :
    Rule.ofName? s = some rule ↔ rule.name = s := by
  constructor
  · intro h
    have hname := @List.find?_some _ (fun r : Rule => r.name == s) _ _ h
    exact eq_of_beq hname
  · rintro rfl
    exact Rule.ofName?_name rule

theorem isEmpty_iff (p : Path) : p.isEmpty = true ↔ p = .empty := by
  cases p with
  | mk text => simp [Path.isEmpty, Path.empty]

theorem blank?_eq_some_iff (cause found : Cause) (t : Text) :
    blank? cause t = some found ↔ (∀ c ∈ t, isBlank c = true) ∧ found = cause := by
  rw [blank?, ← trim_eq_nil_iff]
  cases trim t <;> simp [eq_comm]

/-- A level is looked at only if there is a rule for it. -/
theorem levelProblem?_eq_some_iff (name level : Text) (cause : Cause) :
    levelProblem? name level = some cause ↔
      (∀ known : Rule, known.name ≠ str name) ∧ cause = .unknownRule name ∨
      ∃ rule : Rule, rule.name = str name ∧ (∀ known : Level, known.name ≠ str level) ∧
        cause = .unknownLevel rule level := by
  rw [levelProblem?]
  cases h : Rule.ofName? (str name) with
  | none =>
    have hnone := (isNone_ofName?_rule_iff _).mp h
    simp [hnone, eq_comm]
  | some rule =>
    have hname := (ofName?_rule_eq_some_iff _ _).mp h
    have hunique (other : Rule) : other.name = str name ↔ other = rule := by
      rw [← ofName?_rule_eq_some_iff, h, Option.some.injEq, eq_comm]
    simp only [ne_eq, hunique, ← isNone_ofName?_level_iff]
    cases Level.ofName? (str level) <;> simp [eq_comm]

end Causes

theorem mem_map_problem?_iff {α : Type} (cause? : α → Option Cause) (found : Option (Located α))
    (place place' : Place) (p : Problem) :
    (place, p) ∈ (problem? cause? found).map (place', ·) ↔
      place = place' ∧ ∃ v cause, found = some v ∧ cause? v.value = some cause ∧
        p = ⟨cause, some v.origin⟩ := by
  rw [List.mem_map]
  constructor
  · rintro ⟨q, hq, heq⟩
    obtain ⟨rfl, rfl⟩ := Prod.mk.inj heq
    exact ⟨rfl, (mem_problem?_iff _ _ _).mp hq⟩
  · rintro ⟨rfl, h⟩
    exact ⟨p, (mem_problem?_iff _ _ _).mpr h, rfl⟩

section Segments

variable {l : Layer}

theorem mem_faults_of_pattern {field : PatternField} {patterns : Located (List Text)} {index : Nat}
    {pattern : Text} {fault : Glob.Fault} (hfound : field.ofLayer l = some patterns)
    (hthere : patterns.value[index]? = some pattern)
    (hbad : Glob.Pattern.parse pattern = .error fault) :
    (.pattern field index, ⟨.badPattern field pattern fault, some patterns.origin⟩) ∈ l.faults := by
  have hm := (mem_patternFaults_iff field (field.ofLayer l) _ _).mpr
    ⟨patterns, index, pattern, fault, hfound, hthere, hbad, rfl, rfl⟩
  simp only [faults, List.mem_append]
  cases field
  · exact .inl (.inl (.inl (.inl (.inl (.inl (.inl (.inl (.inl hm))))))))
  · exact .inl (.inl (.inl (.inl (.inl (.inl (.inl (.inl (.inr hm))))))))

theorem mem_faults_of_level {name : Text} {level : Located Text} {cause : Cause}
    (hm : (name, level) ∈ l.levels) (hc : levelProblem? name level.value = some cause) :
    (.level name, ⟨cause, some level.origin⟩) ∈ l.faults := by
  simp only [faults, List.mem_append, List.mem_flatMap]
  exact .inl (.inl (.inl (.inr ⟨(name, level), hm, by simp [problem?, hc]⟩)))

theorem mem_faults_of_meter {name : Text} {keys : Located (List Text)}
    (hm : (name, keys) ∈ l.meterKeys) (hc : Meter.ofName? name = none) :
    (.meter name, ⟨.unknownMeter name, some keys.origin⟩) ∈ l.faults := by
  simp only [faults, List.mem_append, List.mem_flatMap]
  exact .inl (.inl (.inr ⟨(name, keys), hm, by simp [problem?, hc]⟩))

end Segments

section Faulty

variable {layers : List Layer} {l : Layer} (hs : Stacked layers l) (hn : l.NamesOnce)
include hs

theorem Stacked.ofLayer (field : PatternField) : Prevails field.ofLayer layers (field.ofLayer l) := by
  cases field
  · exact hs.includes
  · exact hs.excludes

theorem Stacked.faulty_pattern {field : PatternField} {place : Place} {p : Problem}
    (h : (place, p) ∈ patternFaults field (field.ofLayer l)) : Faulty layers place p := by
  obtain ⟨patterns, index, pattern, fault, hfound, hthere, hparse, rfl, rfl⟩ :=
    (mem_patternFaults_iff _ _ _ _).mp h
  exact .pattern (hfound ▸ hs.ofLayer field) hthere hparse

include hn

theorem Stacked.faulty_of_mem {place : Place} {p : Problem} (h : (place, p) ∈ l.faults) :
    Faulty layers place p := by
  simp only [faults, List.mem_append, List.mem_flatMap, Prod.exists, mem_map_problem?_iff,
    Option.some.injEq] at h
  rcases h with ((((((((h | h) | ⟨rfl, n, c, hv, hc, rfl⟩) | ⟨rfl, t, c, hv, hc, rfl⟩) |
    ⟨rfl, t, c, hv, hc, rfl⟩) | ⟨rfl, t, c, hv, hc, rfl⟩) |
    ⟨name, level, hm, rfl, v, c, rfl, hc, rfl⟩) | ⟨name, keys, hm, rfl, v, c, rfl, hc, rfl⟩) |
    ⟨rfl, path, c, hv, hc, rfl⟩) | ⟨rfl, t, c, hv, hc, rfl⟩
  · exact hs.faulty_pattern h
  · exact hs.faulty_pattern h
  · rw [Option.ite_none_right_eq_some] at hc
    obtain ⟨hzero, ⟨⟩⟩ := hc
    exact .maxSectionNameLength (hv ▸ hs.maxSectionNameLength) hzero
  · obtain ⟨hblank, rfl⟩ := (blank?_eq_some_iff _ _ _).mp hc
    exact .resourceFolder (hv ▸ hs.resourceFolder) hblank
  · obtain ⟨hblank, rfl⟩ := (blank?_eq_some_iff _ _ _).mp hc
    exact .skinsFolderName (hv ▸ hs.skinsFolderName) hblank
  · rw [Option.ite_none_right_eq_some, Option.isNone_iff_eq_none, isNone_ofName?_skinsRoot_iff] at hc
    obtain ⟨hbad, ⟨⟩⟩ := hc
    exact .skinsRoot (hv ▸ hs.skinsRoot) hbad
  · have hv := (lookup_eq_some_iff_mem hn.levels name level).mpr hm
    rcases (levelProblem?_eq_some_iff _ _ _).mp hc with ⟨hbad, rfl⟩ | ⟨rule, hrule, hbad, rfl⟩
    · exact .rule (hv ▸ hs.levels name) hbad
    · exact .level (hv ▸ hs.levels name) hrule hbad
  · have hv := (lookup_eq_some_iff_mem hn.meterKeys name keys).mpr hm
    rw [Option.ite_none_right_eq_some, Option.isNone_iff_eq_none, isNone_ofName?_meter_iff] at hc
    obtain ⟨hbad, ⟨⟩⟩ := hc
    exact .meter (hv ▸ hs.meterKeys name) hbad
  · rw [Option.ite_none_right_eq_some, isEmpty_iff] at hc
    obtain ⟨hbad, ⟨⟩⟩ := hc
    exact .executable (hv ▸ hs.executable) hbad
  · rw [Option.ite_none_right_eq_some, Option.isNone_iff_eq_none, isNone_ofName?_mode_iff] at hc
    obtain ⟨hbad, ⟨⟩⟩ := hc
    exact .mode (hv ▸ hs.mode) hbad

theorem Stacked.mem_of_faulty {place : Place} {p : Problem} (h : Faulty layers place p) :
    (place, p) ∈ l.faults := by
  cases h with
  | pattern counts there bad => exact mem_faults_of_pattern ((hs.ofLayer _).unique counts) there bad
  | rule counts bad =>
    have hm := (lookup_eq_some_iff_mem hn.levels _ _).mp ((hs.levels _).unique counts)
    exact mem_faults_of_level hm ((levelProblem?_eq_some_iff _ _ _).mpr (.inl ⟨bad, rfl⟩))
  | level counts known bad =>
    have hm := (lookup_eq_some_iff_mem hn.levels _ _).mp ((hs.levels _).unique counts)
    exact mem_faults_of_level hm
      ((levelProblem?_eq_some_iff _ _ _).mpr (.inr ⟨_, known, bad, rfl⟩))
  | meter counts bad =>
    have hm := (lookup_eq_some_iff_mem hn.meterKeys _ _).mp ((hs.meterKeys _).unique counts)
    exact mem_faults_of_meter hm ((isNone_ofName?_meter_iff _).mpr bad)
  | maxSectionNameLength counts bad =>
    simp [faults, mem_map_problem?_iff, hs.maxSectionNameLength.unique counts, bad]
  | resourceFolder counts bad =>
    simp [faults, mem_map_problem?_iff, hs.resourceFolder.unique counts,
      (blank?_eq_some_iff _ _ _).mpr ⟨bad, rfl⟩]
  | skinsFolderName counts bad =>
    simp [faults, mem_map_problem?_iff, hs.skinsFolderName.unique counts,
      (blank?_eq_some_iff _ _ _).mpr ⟨bad, rfl⟩]
  | skinsRoot counts bad =>
    simp [faults, mem_map_problem?_iff, hs.skinsRoot.unique counts,
      (isNone_ofName?_skinsRoot_iff _).mpr bad]
  | executable counts bad =>
    simp [faults, mem_map_problem?_iff, hs.executable.unique counts, (isEmpty_iff _).mpr bad]
  | mode counts bad =>
    simp [faults, mem_map_problem?_iff, hs.mode.unique counts, (isNone_ofName?_mode_iff _).mpr bad]

theorem Stacked.mem_faults_iff (place : Place) (p : Problem) :
    (place, p) ∈ l.faults ↔ Faulty layers place p :=
  ⟨hs.faulty_of_mem hn, hs.mem_of_faulty hn⟩

end Faulty

section Keys

/-- Keys without blanks around them, none of them empty, and no two that differ only in case. -/
structure Clean (keys : List Text) : Prop where
  trimmed : ∀ k ∈ keys, trim k = k ∧ k ≠ []
  apart : keys.Pairwise fun a b => eqIgnoreCase a b = false

theorem clean_cleanKeys (keys : List Text) : Clean (cleanKeys keys) where
  trimmed := by
    intro k hk
    obtain ⟨kept, heq, hsub⟩ :=
      Meter.foldl_addKey_eq_append ((keys.map trim).filter (!·.isEmpty)) []
    rw [cleanKeys, heq, List.nil_append] at hk
    obtain ⟨hmem, hne⟩ := List.mem_filter.mp (hsub.subset hk)
    obtain ⟨raw, -, rfl⟩ := List.mem_map.mp hmem
    exact ⟨trim_trim raw, by simpa using hne⟩
  apart := Meter.pairwise_foldl_addKey _ List.Pairwise.nil

/-- A key that is not blank is kept, in its own spelling or in that of an earlier one. -/
theorem exists_mem_cleanKeys {keys : List Text} {key : Text} (hm : key ∈ keys)
    (hne : trim key ≠ []) : ∃ k ∈ cleanKeys keys, eqIgnoreCase k (trim key) = true := by
  have hkept : trim key ∈ (keys.map trim).filter (!·.isEmpty) :=
    List.mem_filter.mpr ⟨List.mem_map_of_mem hm, by simpa using hne⟩
  rw [← Meter.listed_iff, cleanKeys, Meter.listed_foldl_addKey_iff]
  exact .inr ⟨trim key, hkept, eqIgnoreCase_refl _⟩

end Keys

end Layer

structure Sound (s : Settings) : Prop where
  maxSectionNameLength : 0 < s.validation.maxSectionNameLength
  resourceFolder : ¬ ∀ c ∈ s.validation.resourceFolder, isBlank c = true
  skinsFolderName : ¬ ∀ c ∈ s.validation.skinsFolderName, isBlank c = true
  executable : s.refresh.executable ≠ .empty
  extraKeys : ∀ x ∈ s.meters.extraKeys, Layer.Clean x.2

namespace Layer

def KeysKept (layers : List Layer) (s : Settings) : Prop :=
  ∀ name keys, Prevails (·.meterKeys.lookup name) layers (some keys) →
    ∃ meter kept, eqIgnoreCase name (Meter.name meter).toList = true ∧
      (meter, kept) ∈ s.meters.extraKeys ∧
      ∀ key ∈ keys.value, trim key ≠ [] → ∃ k ∈ kept, eqIgnoreCase k (trim key) = true

section Sound

variable {layers : List Layer} {l : Layer} (hs : Stacked layers l)
  (hgood : ∀ place p, ¬ Faulty layers place p)
include hs hgood

theorem Stacked.sound : Sound l.settings where
  maxSectionNameLength := by
    have hcounts := hs.maxSectionNameLength
    cases h : l.maxSectionNameLength with
    | none => simp [settings, value, h]
    | some n =>
      rw [h] at hcounts
      have hpos : n.value ≠ 0 := fun hzero => hgood _ _ (.maxSectionNameLength hcounts hzero)
      simpa [settings, value, h] using Nat.pos_of_ne_zero hpos
  resourceFolder := by
    have hcounts := hs.resourceFolder
    cases h : l.resourceFolder with
    | none =>
      simp only [settings, value, h]
      exact fun hblank => absurd (hblank '@' List.mem_cons_self) (by decide)
    | some folder =>
      rw [h] at hcounts
      simp only [settings, value, h]
      exact fun hblank => hgood _ _ (.resourceFolder hcounts hblank)
  skinsFolderName := by
    have hcounts := hs.skinsFolderName
    cases h : l.skinsFolderName with
    | none =>
      simp only [settings, value, h]
      exact fun hblank => absurd (hblank 'S' List.mem_cons_self) (by decide)
    | some folder =>
      rw [h] at hcounts
      simp only [settings, value, h]
      exact fun hblank => hgood _ _ (.skinsFolderName hcounts hblank)
  executable := by
    have hcounts := hs.executable
    cases h : l.executable with
    | none =>
      simp only [settings, value, h]
      decide
    | some path =>
      rw [h] at hcounts
      simp only [settings, value, h]
      exact fun hempty => hgood _ _ (.executable hcounts hempty)
  extraKeys := by
    intro x hx
    obtain ⟨⟨name, keys⟩, -, hmeter⟩ := List.mem_filterMap.mp hx
    obtain ⟨meter, -, rfl⟩ := Option.map_eq_some_iff.mp hmeter
    exact clean_cleanKeys keys.value

theorem Stacked.keysKept (hn : l.NamesOnce) : KeysKept layers l.settings := by
  intro name keys hcounts
  have hm := (lookup_eq_some_iff_mem hn.meterKeys _ _).mp ((hs.meterKeys name).unique hcounts)
  cases hmeter : Meter.ofName? name with
  | none => exact absurd (.meter hcounts ((isNone_ofName?_meter_iff _).mp hmeter)) (hgood _ _)
  | some meter =>
    refine ⟨meter, cleanKeys keys.value, ?_, ?_, fun key => exists_mem_cleanKeys⟩
    · exact @List.find?_some _ (fun m : Meter => eqIgnoreCase name m.name.toList) _ _ hmeter
    · exact List.mem_filterMap.mpr ⟨(name, keys), hm, by simp [meterOf?, hmeter]⟩

end Sound

/-- A stack of layers has settings exactly if no value that counts in it is bad, and they are then
sound. Otherwise the problems are those of the bad values, one for each of their places. -/
theorem resolve_reports_each_fault {layers : List Layer} (h : ∀ l ∈ layers, l.NamesOnce) :
    (∀ place p q, Faulty layers place p → Faulty layers place q → p = q) ∧
    ∃ faulty : List Place, faulty.Nodup ∧
      (∀ place, place ∈ faulty ↔ ∃ p, Faulty layers place p) ∧
      match (mergeAll layers).resolve with
      | .error problems => faulty ≠ [] ∧ List.Forall₂ (Faulty layers) faulty problems
      | .ok s => faulty = [] ∧ Sound s ∧ KeysKept layers s := by
  have hs := stacked_mergeAll layers
  have hn : (mergeAll layers).NamesOnce := NamesOnce.foldl_merge h ⟨by simp, by simp⟩
  have hmem := hs.mem_faults_iff hn
  refine ⟨?_, (mergeAll layers).faults.map Prod.fst, hn.nodup_faults, ?_, ?_⟩
  · intro place p q hp hq
    have hpair := List.inj_on_of_nodup_map hn.nodup_faults ((hmem place p).mpr hp)
      ((hmem place q).mpr hq) rfl
    exact (Prod.mk.inj hpair).2
  · intro place
    simp [hmem]
  · by_cases hnone : (mergeAll layers).faults = []
    · have hok : (mergeAll layers).resolve = .ok (mergeAll layers).settings := by
        rw [resolve, ← map_snd_faults, hnone]
        rfl
      have hgood (place : Place) (p : Problem) : ¬ Faulty layers place p := by
        rw [← hmem, hnone]
        simp
      rw [hok, hnone]
      exact ⟨rfl, hs.sound hgood, hs.keysKept hgood hn⟩
    · have hfailed : (mergeAll layers).resolve = .error (mergeAll layers).problems := by
        rw [resolve, if_neg (by simpa [← map_snd_faults] using hnone)]
      rw [hfailed, ← map_snd_faults]
      refine ⟨by simpa using hnone, ?_⟩
      rw [List.forall₂_map_left_iff, List.forall₂_map_right_iff, List.forall₂_same]
      exact fun x hx => (hmem x.1 x.2).mp hx

/-- The lower layer has a pattern that cannot be read and a mode that does not exist, which the upper
layer replaces. Reported are the pattern, with the lower origin, and the level of a rule that does
not exist, with the upper one. -/
theorem resolve_reports_pattern_and_rule :
    let shared : Origin := .ofFile .repository ⟨"/skins/.rainlint.toml".toList⟩
    let own : Origin := .ofFile .folder ⟨"/skins/clock/.rainlint.toml".toList⟩
    let lower : Layer :=
      { includes := some ⟨["*.ini".toList, "[".toList], shared⟩
        mode := some ⟨"never".toList, shared⟩ }
    let upper : Layer :=
      { levels := [("no-such-rule".toList, ⟨"error".toList, own⟩)]
        mode := some ⟨"all".toList, own⟩ }
    (∀ l ∈ [lower, upper], l.NamesOnce) ∧
    ∃ faulty : List Place, faulty.Nodup ∧
      (∀ place, place ∈ faulty ↔ ∃ p, Faulty [lower, upper] place p) ∧
      List.Forall₂ (Faulty [lower, upper]) faulty
        [⟨.badPattern .includes "[".toList .unclosedClass, some shared⟩,
         ⟨.unknownRule "no-such-rule".toList, some own⟩] := by
  intro shared own lower upper
  have hn : ∀ l ∈ [lower, upper], l.NamesOnce := by
    intro l hl
    rcases List.mem_pair.mp hl with rfl | rfl
    · exact ⟨by simp [lower], by simp [lower]⟩
    · exact ⟨by simp [upper], by simp [upper]⟩
  have hproblems : (mergeAll [lower, upper]).problems =
      [⟨.badPattern .includes "[".toList .unclosedClass, some shared⟩,
       ⟨.unknownRule "no-such-rule".toList, some own⟩] := by
    decide +kernel
  obtain ⟨-, faulty, hnodup, hmem, hresult⟩ := resolve_reports_each_fault hn
  rw [resolve, hproblems] at hresult
  exact ⟨hn, faulty, hnodup, hmem, hresult.2⟩

end Layer

end SkinLint.Config
