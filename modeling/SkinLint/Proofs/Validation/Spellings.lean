import SkinLint.Proofs.Path.Components
import SkinLint.Proofs.Path.Normal
import SkinLint.Proofs.PathVariables.Expansion
import SkinLint.Proofs.PathVariables.Folders
import SkinLint.Proofs.Validation.Inclusions

/-!
# One file, spelled in several ways

An absolute path means what its pieces denote, one behind the other, so two texts with the same
pieces mean the same file however many slashes they have. The variables of an absolute document are
replaced by absolute folders that end in a slash; what stands behind them is read from there. Hence
the ways to write a path from the document's folder all lead to one file, as do those from its
resource folder, and of two inclusions of that file the second is circular.
-/
namespace SkinLint

namespace Path

/-- What is written behind a closed folder is read from there. -/
theorem trail_directoryText (p : Path) (behind : Text) :
    trail (p.directoryText true ++ behind) = trail p.text ++ trail behind := by
  unfold directoryText
  by_cases hslash : p.text.getLast? = some '/'
  · rw [if_neg (by simp [hslash]), trail_append_of_closed hslash]
  · rw [if_pos (by simpa using hslash), List.append_assoc, List.singleton_append, trail_slash]

theorem trail_join {p q : Path} (h : q.isAbsolute = false) :
    trail (p.join q).text = trail p.text ++ trail q.text := filterMap_pieces_join h

/-- Absolute paths with the same pieces are normalised to the same path. -/
theorem normalize_eq_of_trail_eq {p q : Path} (hp : p.isAbsolute) (hq : q.isAbsolute)
    (h : trail p.text = trail q.text) : p.normalize = q.normalize := by
  rw [normalize_of_isAbsolute hp, normalize_of_isAbsolute hq, names, names,
    components_of_isAbsolute hp, components_of_isAbsolute hq, h]

theorem isAbsolute_directoryText {p : Path} (h : p.isAbsolute) (closed : Bool) (behind : Text) :
    isAbsolute ⟨p.directoryText closed ++ behind⟩ := by
  have hne : p.text ≠ [] := by
    intro hnil
    rw [isAbsolute, hnil] at h
    cases h
  obtain ⟨slash, hslash⟩ : ∃ slash, p.directoryText closed = p.text ++ slash := by
    unfold directoryText
    split
    next => exact ⟨['/'], rfl⟩
    next => exact ⟨[], (List.append_nil _).symm⟩
  rwa [isAbsolute, hslash, List.append_assoc, List.head?_append_of_ne_nil _ hne]

end Path

namespace PathVariables
open SkinLint.Path

section Values

variable {s : ValidationSettings} {present : Path → Bool} {document : Path}

theorem isPrefix_directory (document : Path) : document.directory.text <+: document.text := by
  unfold directory
  cases hparent : document.parent? with
  | none => exact List.nil_prefix
  | some q => exact isPrefix_parent? hparent

theorem plain_directoryText {p : Path} (h : Plain p.text) (closed : Bool) :
    Plain (p.directoryText closed) := by
  unfold directoryText
  split
  next => simpa [Plain] using h
  next => exact h

theorem plain_fileName {p : Path} (h : Plain p.text) : Plain (p.fileName?.getD []) := by
  unfold fileName?
  split
  next name hlast =>
    have hname := text_subset (List.mem_of_getLast? hlast)
    exact fun hmark => h (hname hmark)
  next => exact List.not_mem_nil

theorem plain_slashed {p : Path} (h : Plain p.text) {cs : List Component}
    (hcs : cs ⊆ p.components) :
    Plain (slashed cs) := by
  intro hmark
  rcases Text.mem_joinWith hmark with hslash | ⟨piece, hpiece, hmark⟩
  · exact absurd hslash (by decide)
  · rcases List.mem_map.mp hpiece with ⟨c, hc, rfl⟩
    exact h (text_subset (hcs hc) hmark)

/-- The folders of a document are written with characters of its path. -/
theorem plain_of_mem_upTo (h : Plain document.text) {q : Path}
    (hq : q ∈ upTo (skinsRoot s document.directory) document.directory.ancestors) :
    Plain q.text := by
  rcases exists_isSkinsRoot s document.directory with ⟨n, hroot⟩
  rcases (mem_upTo_iff hroot.above).mp hq with ⟨m, -, hup⟩
  exact fun hmark => h ((isPrefix_directory document).subset ((isPrefix_up? hup).subset hmark))

/-- Only the resource folder can bring a mark into the values. -/
theorem plain_value (h : Plain document.text) {x : Variable} (hx : x ≠ .resources) :
    Plain ((build s present document).value x) := by
  have hdir : Plain document.directory.text := fun hmark =>
    h ((isPrefix_directory document).subset hmark)
  have hbase := plain_of_mem_upTo h (base_mem_upTo s present document)
  rcases rootConfig_build s present document with ⟨hpath, hname⟩
  cases x with
  | resources => exact absurd rfl hx
  | skins => exact plain_directoryText (plain_of_mem_upTo h (skinsRoot_mem_upTo s _)) _
  | currentPath => exact plain_directoryText hdir _
  | currentFile => exact plain_fileName h
  | rootConfigPath =>
    change Plain (build s present document).rootConfigPath
    rw [hpath]
    exact plain_directoryText hbase _
  | rootConfig =>
    change Plain (build s present document).rootConfig
    rw [hname]
    exact plain_fileName hbase
  | currentConfig =>
    rcases currentConfig_build s present document with ⟨below, hbelow, hconfig⟩
    change Plain (build s present document).currentConfig
    rw [hconfig]
    apply plain_slashed hdir
    rw [hbelow]
    exact List.subset_append_right _ _

end Values

def withoutResources (v : PathVariables) : PathVariables := { v with resources := [] }

theorem value_withoutResources (v : PathVariables) {x : Variable} (h : x ≠ .resources) :
    v.withoutResources.value x = v.value x := by
  cases x with
  | resources => exact absurd rfl h
  | _ => rfl

theorem Variable.name_ne_nil (x : Variable) : x.name ≠ [] := by
  cases x <;> decide

section Occurrences

variable {v : PathVariables} {behind : Text}

theorem unmistakable_singleton (hvalues : ∀ x, Plain (v.value x)) (x : Variable)
    (hbehind : Plain behind) : v.Unmistakable [(x, behind)] where
  values := hvalues
  behind part hpart := by
    rw [List.mem_singleton.mp hpart]
    exact hbehind
  between _ _ _ _ _ hinfix := by
    have hlength := hinfix.length_le
    simp at hlength

/-- Nothing stands between two variables that are written next to each other. -/
theorem unmistakable_pair (hvalues : ∀ x, Plain (v.value x)) (x y : Variable)
    (hbehind : Plain behind) : v.Unmistakable [(x, []), (y, behind)] where
  values := hvalues
  behind part hpart := by
    simp only [List.mem_cons, List.not_mem_nil, or_false] at hpart
    rcases hpart with rfl | rfl
    · exact List.not_mem_nil
    · exact hbehind
  between x' behind' between y' behind'' hinfix z := by
    have hlength := hinfix.length_le
    simp only [List.length_cons, List.length_append, List.length_nil] at hlength
    have hbetween : between = [] := List.eq_nil_of_length_eq_zero (by omega)
    subst hbetween
    have hwhole := hinfix.eq_of_length rfl
    obtain ⟨⟨-, rfl⟩, -⟩ := by simpa using hwhole
    simpa using z.name_ne_nil.symm

end Occurrences

end PathVariables

namespace Validation
open Text Document PathVariables
open SkinLint.Path (trail trail_directoryText trail_join trail_slash normalize_eq_of_trail_eq
  isAbsolute_directoryText)

/-- A value leads to a file: it names it, and no variable is left in it. -/
def LeadsTo (c : InclusionContext) (value : Text) (file : Path) : Prop :=
  ¬Unsupported c value ∧ includedText value ≠ [] ∧ includedFile c value = file

/-- A relative path that can be written in an inclusion as it is. -/
structure IsPlainRelative (x : Text) : Prop where
  nonempty : x ≠ []
  trimmed : Trimmed x
  relative : Path.isAbsolute ⟨x⟩ = false
  mark : '#' ∉ x
  quote : '"' ∉ x

/-- The ways to write the path `x` from the folder of a document, and those to write it from the
resource folder of the document. -/
inductive SpelledAs (s : ValidationSettings) (present : Path → Bool) (document : Path) (x : Text) :
    List Text → Path → Prop
  | beside : SpelledAs s present document x
      [x, Variable.currentPath.token ++ x,
        Variable.skins.token ++ (Variable.currentConfig.token ++ '/' :: x)]
      (document.directory.join ⟨x⟩)
  | resources {base : Path} : nearest? s present document = some base →
      Path.isAbsolute ⟨s.resourceFolder⟩ = false → '#' ∉ s.resourceFolder →
      '"' ∉ s.resourceFolder → SpelledAs s present document x
        [Variable.resources.token ++ x,
          Variable.rootConfigPath.token ++ (s.resourceFolder ++ '/' :: x)]
        ((base.join ⟨s.resourceFolder⟩).join ⟨x⟩)

section Values

variable {c : InclusionContext} {value : Text}

theorem includedText_of_trimmed (h : Trimmed value) (hquote : '"' ∉ value) :
    includedText value = value := by
  have hkept : value.filter (· != '"') = value := by
    apply List.filter_eq_self.mpr
    intro a ha
    simpa using ne_of_mem_of_not_mem ha hquote
  rw [includedText, hkept, trim_of_trimmed h]

/-- A value that starts with a variable is trimmed if it ends so. -/
theorem trimmed_behind_token {x : Text} (hx : Trimmed x) (hne : x ≠ []) (y : Variable) (t : Text) :
    Trimmed (y.token ++ (t ++ x)) := by
  constructor
  · rintro a ⟨⟩
    decide
  · rw [← List.append_assoc, List.getLast?_append_of_ne_nil _ hne]
    exact hx.2

theorem quote_notMem_token (y : Variable) : '"' ∉ y.token := by
  cases y <;> decide

/-- A value whose variables are replaced by an absolute path leads to the file that this means. -/
theorem leadsTo_of_spell {v : PathVariables} {parts : List (Variable × Text)} {file : Path}
    (h : v.Unmistakable parts)
    (hsame : ∀ part ∈ parts, c.pathVariables.value part.1 = v.value part.1)
    (hvalue : value = spell Variable.token parts) (htrimmed : Trimmed value) (hquote : '"' ∉ value)
    (hne : value ≠ []) (habsolute : Path.isAbsolute ⟨spell v.value parts⟩)
    (hfile : file.isAbsolute) (htrail : trail file.text = trail (spell v.value parts)) :
    LeadsTo c value file.normalize := by
  have htext := includedText_of_trimmed htrimmed hquote
  have hexpansion : expansion c value = spell v.value parts := by
    rw [expansion, htext, hvalue]
    have hnil : Plain [] := List.not_mem_nil
    simpa only [List.nil_append] using expand_spell h hnil hsame
  refine ⟨?_, by rwa [htext], ?_⟩
  · rw [Unsupported, hexpansion, hasVariable_of_plain h.plain_spell]
    exact Bool.false_ne_true
  · rw [includedFile, hexpansion, target, Path.absoluteFrom, if_pos habsolute]
    exact normalize_eq_of_trail_eq habsolute hfile htrail.symm

/-- What stands behind the variable of an absolute folder is read from there. -/
theorem leadsTo_of_variable {v : PathVariables} (hvalues : ∀ z, Plain (v.value z)) {y : Variable}
    (hsame : c.pathVariables.value y = v.value y) {folder : Path}
    (hvalue : v.value y = folder.directoryText true) (hfolder : folder.isAbsolute)
    {behind : Text} (hbehind : Plain behind) (htrimmed : Trimmed (y.token ++ behind))
    (hquote : '"' ∉ behind) {file : Path} (hfile : file.isAbsolute)
    (htrail : trail file.text = trail folder.text ++ trail behind) :
    LeadsTo c (y.token ++ behind) file.normalize := by
  have hspell (text : Variable → Text) : spell text [(y, behind)] = text y ++ behind := by simp
  apply leadsTo_of_spell (unmistakable_singleton hvalues y hbehind) (by simpa using hsame)
    (hspell _).symm htrimmed _ _ _ hfile
  · rw [hspell, hvalue, trail_directoryText, htrail]
  · simp [quote_notMem_token, hquote]
  · simp [Variable.token]
  · rw [hspell, hvalue]
    exact isAbsolute_directoryText hfolder true behind

end Values

section Spellings

variable {s : ValidationSettings} {present : Path → Bool} {document : Path} {x : Text}

/-- An absolute document that is not the root lies in an absolute folder. -/
theorem isAbsolute_directory (h : document.isAbsolute) (hroot : ¬document.same ⟨['/']⟩) :
    document.directory.isAbsolute := by
  unfold Path.directory
  cases hparent : document.parent? with
  | none => exact absurd (Path.same_iff.mpr (Path.components_of_parent?_eq_none hparent h)) hroot
  | some q => rwa [Option.getD_some, Path.isAbsolute_parent? hparent]

theorem isAbsolute_of_mem_upTo (h : document.directory.isAbsolute) {q : Path}
    (hq : q ∈ upTo (skinsRoot s document.directory) document.directory.ancestors) :
    q.isAbsolute := by
  rcases exists_isSkinsRoot s document.directory with ⟨n, hroot⟩
  rcases (mem_upTo_iff hroot.above).mp hq with ⟨m, -, hup⟩
  rwa [Path.isAbsolute_up? hup]

theorem plain_withoutResources (h : '#' ∉ document.text) (y : Variable) :
    Plain ((build s present document).withoutResources.value y) := by
  by_cases hy : y = .resources
  · subst hy
    exact List.not_mem_nil
  · rw [value_withoutResources _ hy]
    exact plain_value h hy

theorem leadsTo_relative (hx : IsPlainRelative x) :
    LeadsTo (context s present document) x (document.directory.join ⟨x⟩).normalize := by
  have htext := includedText_of_trimmed hx.trimmed hx.quote
  have hexpansion : expansion (context s present document) x = x := by
    rw [expansion, htext, expand_of_plain _ hx.mark]
  refine ⟨?_, by rw [htext]; exact hx.nonempty, ?_⟩
  · rw [Unsupported, hexpansion, hasVariable_of_plain hx.mark]
    exact Bool.false_ne_true
  · rw [includedFile, hexpansion, target, Path.absoluteFrom, if_neg (by simp [hx.relative])]
    rfl

section Closed

variable (hdir : document.directory.isAbsolute) (hmark : '#' ∉ document.text)
  (hclosed : s.trailingSeparator = true) (hx : IsPlainRelative x)
include hdir hmark hclosed hx

theorem leadsTo_currentPath : LeadsTo (context s present document)
    (Variable.currentPath.token ++ x) (document.directory.join ⟨x⟩).normalize := by
  apply leadsTo_of_variable (plain_withoutResources hmark)
    (value_withoutResources _ (by decide)).symm
    _ hdir hx.mark (trimmed_behind_token hx.trimmed hx.nonempty _ []) hx.quote
  · rwa [Path.isAbsolute_join_of_relative hx.relative]
  · exact trail_join hx.relative
  · rw [← hclosed]
    rfl

theorem leadsTo_skins : LeadsTo (context s present document)
    (Variable.skins.token ++ (Variable.currentConfig.token ++ '/' :: x))
    (document.directory.join ⟨x⟩).normalize := by
  have hroot := isAbsolute_of_mem_upTo hdir (skinsRoot_mem_upTo s document.directory)
  rcases currentConfig_build s present document with ⟨below, hbelow, hconfig⟩
  have hsubset : trail document.directory.text =
      trail (skinsRoot s document.directory).text ++ below := by
    rw [Path.components_of_isAbsolute hdir, Path.components_of_isAbsolute hroot] at hbelow
    exact (List.cons.inj hbelow).2
  let v := (build s present document).withoutResources
  have hspell : spell v.value [(.skins, []), (.currentConfig, '/' :: x)] =
      (skinsRoot s document.directory).directoryText true ++ (Path.slashed below ++ '/' :: x) := by
    rw [← hconfig, ← hclosed]
    simp
    rfl
  have hbehind : Plain ('/' :: x) := by simpa [Plain] using hx.mark
  apply leadsTo_of_spell (v := v)
    (unmistakable_pair (plain_withoutResources hmark) .skins .currentConfig hbehind)
  · simp [v, value_withoutResources, context]
  · simp
  · exact trimmed_behind_token hx.trimmed hx.nonempty _ (Variable.currentConfig.token ++ ['/'])
  · simp [quote_notMem_token, hx.quote]
  · simp [Variable.token]
  · rw [hspell]
    exact isAbsolute_directoryText hroot true _
  · rwa [Path.isAbsolute_join_of_relative hx.relative]
  · rw [hspell, trail_directoryText, trail_slash, trail_join hx.relative, hsubset,
      Path.trail_slashed (t := document.directory.text) _, List.append_assoc]
    rw [hsubset]
    exact List.subset_append_right _ _

section Resources

variable {base : Path} (hbase : nearest? s present document = some base)
  (hrelative : Path.isAbsolute ⟨s.resourceFolder⟩ = false) (hfolder : '#' ∉ s.resourceFolder)
include hbase hrelative hfolder

omit hdir hclosed hx in
/-- The path of the resource folder is plain too, so all values are. -/
theorem plain_value_of_found (y : Variable) : Plain ((build s present document).value y) := by
  by_cases hy : y = .resources
  · subst hy
    have hplain := plain_of_mem_upTo hmark (base_mem_upTo s present document)
    have hresources := resources_build s present document
    rw [hbase, Option.getD_some] at hplain
    rw [hbase] at hresources
    change Plain (build s present document).resources
    rw [hresources]
    apply plain_directoryText
    unfold Path.join
    rw [hrelative, if_neg (by simp)]
    split <;> simp [Plain, hplain, hfolder]
  · exact plain_value hmark hy

theorem leadsTo_resources : LeadsTo (context s present document)
    (Variable.resources.token ++ x) ((base.join ⟨s.resourceFolder⟩).join ⟨x⟩).normalize := by
  have habsolute := isAbsolute_of_mem_upTo hdir (base_mem_upTo s present document)
  rw [hbase, Option.getD_some] at habsolute
  have hfound : (base.join ⟨s.resourceFolder⟩).isAbsolute := by
    rwa [Path.isAbsolute_join_of_relative hrelative]
  apply leadsTo_of_variable (plain_value_of_found hmark hbase hrelative hfolder) rfl _ hfound
    hx.mark (trimmed_behind_token hx.trimmed hx.nonempty _ []) hx.quote
  · rwa [Path.isAbsolute_join_of_relative hx.relative]
  · exact trail_join hx.relative
  · change (build s present document).resources = _
    rw [resources_build, hbase, ← hclosed]
    rfl

theorem leadsTo_rootConfigPath (hquote : '"' ∉ s.resourceFolder) :
    LeadsTo (context s present document)
      (Variable.rootConfigPath.token ++ (s.resourceFolder ++ '/' :: x))
      ((base.join ⟨s.resourceFolder⟩).join ⟨x⟩).normalize := by
  have habsolute := isAbsolute_of_mem_upTo hdir (base_mem_upTo s present document)
  rw [hbase, Option.getD_some] at habsolute
  have htrimmed := trimmed_behind_token hx.trimmed hx.nonempty .rootConfigPath
    (s.resourceFolder ++ ['/'])
  rw [List.append_assoc, List.singleton_append] at htrimmed
  apply leadsTo_of_variable (plain_value_of_found hmark hbase hrelative hfolder) rfl _
    habsolute _ htrimmed
  · simp [hquote, hx.quote]
  · rwa [Path.isAbsolute_join_of_relative hx.relative, Path.isAbsolute_join_of_relative hrelative]
  · rw [trail_join hx.relative, trail_join hrelative, trail_slash, List.append_assoc]
  · change (build s present document).rootConfigPath = _
    rw [(rootConfig_build s present document).1, hbase, ← hclosed]
    rfl
  · simp [Plain, hfolder, hx.mark]

end Resources

theorem SpelledAs.leadsTo {values : List Text} {file : Path}
    (h : SpelledAs s present document x values file) :
    ∀ value ∈ values, LeadsTo (context s present document) value file.normalize := by
  intro value hvalue
  cases h with
  | beside =>
    simp only [List.mem_cons, List.not_mem_nil, or_false] at hvalue
    rcases hvalue with rfl | rfl | rfl
    · exact leadsTo_relative hx
    · exact leadsTo_currentPath hdir hmark hclosed hx
    · exact leadsTo_skins hdir hmark hclosed hx
  | resources hbase hrelative hfolder hquote =>
    simp only [List.mem_cons, List.not_mem_nil, or_false] at hvalue
    rcases hvalue with rfl | rfl
    · exact leadsTo_resources hdir hmark hclosed hx hbase hrelative hfolder
    · exact leadsTo_rootConfigPath hdir hmark hclosed hx hbase hrelative hfolder hquote

end Closed

end Spellings

section Reports

variable {s : ValidationSettings} {m : MeterSettings} {present : Path → Bool} {document : Path}
  {text : Text}

def ReportsCircular (s : ValidationSettings) (m : MeterSettings) (present : Path → Bool)
    (document : Path) (text : Text) (j : Nat) : Prop :=
  ∃ d ∈ validate s m present document text, d.rule = .circularInclude ∧ d.range.start.line = j

theorem level_of_mem_validate {d : Diagnostic} (h : d ∈ validate s m present document text) :
    s.level d.rule ≠ .ignore := by
  rcases List.mem_filterMap.mp ((perm_validate s m present document text).subset h) with ⟨b, -, hd⟩
  rcases Option.map_eq_some_iff.mp hd with ⟨severity, hseverity, rfl⟩
  intro hignore
  rw [(Severity.ofLevel?_eq_none_iff _).mpr hignore] at hseverity
  cases hseverity

theorem reportsCircular_iff (j : Nat) : ReportsCircular s m present document text j ↔
    s.level .circularInclude ≠ .ignore ∧ ∃ value, InclusionAt (lines (dropMark text)) j value ∧
      InclusionFaultAt (context s present document) (lines (dropMark text)) j value
        .circularInclude := by
  have hrule : Rule.circularInclude ∈ inclusionRules := by decide
  by_cases hlevel : s.level .circularInclude = .ignore
  · refine iff_of_false ?_ fun h => h.1 hlevel
    rintro ⟨d, hd, hcircular, -⟩
    rw [← hcircular] at hlevel
    exact level_of_mem_validate hd hlevel
  · rw [← inclusion_fault_reported_iff (m := m) hrule hlevel j]
    constructor
    · rintro ⟨d, hd, hcircular, hline⟩
      refine ⟨hlevel, d, List.mem_filter.mpr ⟨hd, ?_⟩, hcircular⟩
      rw [decide_eq_true_eq, hcircular]
      exact ⟨hrule, hline⟩
    · rintro ⟨-, d, hd, hcircular⟩
      rcases List.mem_filter.mp hd with ⟨hd, hat⟩
      exact ⟨d, hd, hcircular, (of_decide_eq_true hat).2⟩

end Reports

/-- The ways to write a path from the folder of an absolute document all lead to the same file, and
so do those from its resource folder. If that file exists, an inclusion of it is reported as circular
behind another one, however both are written, and it is not reported if no inclusion of the file
stands above it. -/
theorem spellings_include_one_file {s : ValidationSettings} {present : Path → Bool}
    {document : Path} {x : Text} {values : List Text} {file : Path}
    (habsolute : document.isAbsolute) (hroot : ¬document.same ⟨['/']⟩) (hmark : '#' ∉ document.text)
    (hclosed : s.trailingSeparator = true) (hx : IsPlainRelative x)
    (h : SpelledAs s present document x values file) :
    let c := context s present document
    (∀ value ∈ values, LeadsTo c value file.normalize) ∧
    (present file.normalize = true → ∀ m text i j, ∀ value ∈ values, ∀ value' ∈ values,
      let ls := lines (dropMark text)
      InclusionAt ls i value → InclusionAt ls j value' → i < j →
        (ReportsCircular s m present document text j ↔ s.level .circularInclude ≠ .ignore) ∧
        ((∀ k < i, ¬NamesFile c ls k file.normalize) →
          ¬ReportsCircular s m present document text i)) := by
  intro c
  have hdir := isAbsolute_directory habsolute hroot
  have hleads := h.leadsTo hdir hmark hclosed hx
  refine ⟨hleads, fun hpresent m text i j value hvalue value' hvalue' => ?_⟩
  intro ls hi hj hij
  have hnames : NamesFile c ls i file.normalize := ⟨value, hi, hleads value hvalue⟩
  constructor
  · rw [reportsCircular_iff, and_iff_left]
    rcases hleads value' hvalue' with ⟨hvariable, hne, hfile⟩
    refine ⟨value', hj, hvariable, ?_, i, hij, ?_⟩
    · rintro (hnil | hmissing)
      · exact hne hnil
      · rw [hfile] at hmissing
        exact absurd hpresent (by simpa [c, context] using hmissing)
    · rwa [hfile]
  · intro hfirst hreported
    rcases (reportsCircular_iff i).mp hreported with ⟨-, v, hv, hfault⟩
    exact not_inclusionFaultAt_of_first hnames hfirst hpresent hv _ hfault

/-- A file of the resource folder, written through the variable of that folder and again from the
root configuration: the second inclusion is reported, the first is not. -/
theorem spellings_include_one_file_of_resources :
    let document : Path := ⟨"/skins/Suite/Clock/Clock.ini".toList⟩
    let present (p : Path) : Bool := p ∈ ([⟨"/skins/Suite/@Resources".toList⟩,
      ⟨"/skins/Suite/@Resources/Styles.inc".toList⟩] : List Path)
    let text := "@Include=#@#Styles.inc\n@Include2=#ROOTCONFIGPATH#@Resources/Styles.inc".toList
    document.isAbsolute ∧ ¬document.same ⟨['/']⟩ ∧ '#' ∉ document.text ∧
    IsPlainRelative "Styles.inc".toList ∧
    nearest? {} present document = some ⟨"/skins/Suite".toList⟩ ∧
    ReportsCircular {} {} present document text 1 ∧
      ¬ReportsCircular {} {} present document text 0 := by
  intro document present text
  have hroot : ¬document.same ⟨['/']⟩ := by decide
  have hmark : '#' ∉ document.text := by decide
  have hx : IsPlainRelative "Styles.inc".toList :=
    ⟨by decide, trimmed_of_trim (by decide), by decide, by decide, by decide⟩
  have hbase : nearest? {} present document = some ⟨"/skins/Suite".toList⟩ := by decide
  have hspelled := SpelledAs.resources (s := {}) (x := "Styles.inc".toList) hbase (by decide)
    (by decide) (by decide)
  have hpresent : present (Path.normalize ((Path.join ⟨"/skins/Suite".toList⟩
      ⟨"@Resources".toList⟩).join ⟨"Styles.inc".toList⟩)) = true := by decide
  have hreports := (spellings_include_one_file rfl hroot hmark rfl hx hspelled).2 hpresent {} text
    0 1 _ List.mem_cons_self _ (List.mem_cons_of_mem _ List.mem_cons_self)
    ⟨"@Include".toList, by decide⟩
    ⟨"@Include2".toList, by decide⟩ Nat.zero_lt_one
  exact ⟨rfl, hroot, hmark, hx, hbase, hreports.1.mpr (by decide), hreports.2 (by simp)⟩

end Validation

end SkinLint
