import Mathlib.Data.Nat.Find
import SkinLint.Proofs.PathVariables.Expansion
import SkinLint.Proofs.Validation.Sections

/-!
# Files included twice

After some lines the files that count as included are those which an inclusion above names, has no
variable left in and finds. So an inclusion is reported as circular exactly when an earlier one names
the same file, and the first one to name it is not reported at all.
-/
namespace SkinLint.Validation
open Text Document

def inclusionRules : List Rule := [.unsupportedVariable, .includeNotFound, .circularInclude]

def InclusionAt (ls : List Line) (j : Nat) (value : Text) : Prop :=
  ∃ key, kindAt ls j = some (.inclusion key value)

def NamesFile (c : InclusionContext) (ls : List Line) (j : Nat) (file : Path) : Prop :=
  ∃ value, InclusionAt ls j value ∧ ¬ Unsupported c value ∧ includedText value ≠ [] ∧
    includedFile c value = file

/-- What the inclusion with a given value on line `j` is at fault for. -/
def InclusionFaultAt (c : InclusionContext) (ls : List Line) (j : Nat) (value : Text) : Rule → Prop
  | .unsupportedVariable => Unsupported c value
  | .includeNotFound => ¬ Unsupported c value ∧ Unfound c value
  | .circularInclude =>
    ¬ Unsupported c value ∧ ¬ Unfound c value ∧ ∃ i < j, NamesFile c ls i (includedFile c value)
  | _ => False

theorem inclusionAt_iff {ls : List Line} {j : Nat} {l : Line} (hl : ls[j]? = some l)
    (value : Text) : InclusionAt ls j value ↔ ∃ key, l.kind = .inclusion key value := by
  simp [InclusionAt, kindAt_of_getElem? hl]

theorem mem_checkInclusion_iff {c : InclusionContext} {included : List Path} {l : Line}
    {value : Text} {file : Path} : file ∈ (checkInclusion c included l value).1 ↔
      file ∈ included ∨
        ¬ Unsupported c value ∧ ¬ Unfound c value ∧ includedFile c value = file := by
  rcases checkInclusion_cases c included l value with ⟨r, message, hfault, heq⟩ | ⟨hnone, heq⟩
  · simp only [heq, iff_self_or]
    rintro ⟨hvariable, hfound, rfl⟩
    cases r with
    | circularInclude => exact hfault.2.2
    | _ => simp_all [InclusionFault]
  · have hvariable : ¬ Unsupported c value := hnone .unsupportedVariable
    have hfound : ¬ Unfound c value := fun hf => hnone .includeNotFound ⟨hvariable, hf⟩
    simp [heq, hvariable, hfound, or_comm, eq_comm]

theorem present_of_not_unfound {c : InclusionContext} {value : Text} (h : ¬ Unfound c value) :
    c.present (includedFile c value) = true := by
  simp only [Unfound, not_or, Bool.not_eq_false] at h
  exact h.2

def FindsFile (c : InclusionContext) (ls : List Line) (j : Nat) (file : Path) : Prop :=
  ∃ value, InclusionAt ls j value ∧ ¬ Unsupported c value ∧ ¬ Unfound c value ∧
    includedFile c value = file

theorem findsFile_iff {c : InclusionContext} {ls : List Line} {j : Nat} {file : Path} :
    FindsFile c ls j file ↔ NamesFile c ls j file ∧ c.present file = true := by
  constructor
  · rintro ⟨value, hat, hvariable, hfound, rfl⟩
    exact ⟨⟨value, hat, hvariable, fun hnil => hfound (.inl hnil), rfl⟩,
      present_of_not_unfound hfound⟩
  · rintro ⟨⟨value, hat, hvariable, hne, rfl⟩, hpresent⟩
    exact ⟨value, hat, hvariable, by simp [Unfound, hne, hpresent], rfl⟩

theorem mem_step_included_iff {s : ValidationSettings} {c : InclusionContext} {state : State}
    {l : Line} {file : Path} : file ∈ (step s c state l).1.included ↔ file ∈ state.included ∨
      ∃ value, (∃ key, l.kind = .inclusion key value) ∧ ¬ Unsupported c value ∧
        ¬ Unfound c value ∧ includedFile c value = file := by
  cases hk : l.kind with
  | inclusion key value => simp [step, hk, mem_checkInclusion_iff]
  | keyValue key value => simp [step, hk]
  | _ => simp [step, hk]

/-- The files that count as included above a line are those that inclusions above it find. -/
theorem mem_included_after {s : ValidationSettings} {c : InclusionContext} {ls : List Line} {j : Nat}
    (h : j ≤ ls.length) (file : Path) :
    file ∈ (Pass.after (step s c) {} (ls.take j)).included ↔ ∃ i < j, FindsFile c ls i file := by
  refine Pass.after_take_induction (P := fun j (state : State) => file ∈ state.included ↔
    ∃ i < j, FindsFile c ls i file) (by simp) (fun hl hstate => ?_) h
  rw [mem_step_included_iff, hstate, Nat.exists_lt_succ_right]
  simp only [FindsFile, inclusionAt_iff hl]

theorem fault_iff_of_mem_inclusionRules {s : ValidationSettings} {c : InclusionContext}
    {state : State} {kind : LineKind} {r : Rule} (hr : r ∈ inclusionRules) :
    Fault s c state kind r ↔
      ∃ value, (∃ key, kind = .inclusion key value) ∧ InclusionFault c state.included value r := by
  cases kind with
  | inclusion key value => simp [Fault]
  | _ =>
    simp only [inclusionRules, List.mem_cons, List.not_mem_nil, or_false] at hr
    rcases hr with rfl | rfl | rfl <;> simp [Fault, HeaderFault]

/-- A file that an inclusion finds counts as included when an earlier inclusion names it. -/
theorem inclusionFault_iff {s : ValidationSettings} {c : InclusionContext} {ls : List Line} {j : Nat}
    (h : j ≤ ls.length) (value : Text) (r : Rule) :
    InclusionFault c (Pass.after (step s c) {} (ls.take j)).included value r ↔
      InclusionFaultAt c ls j value r := by
  cases r with
  | circularInclude =>
    simp only [InclusionFault, InclusionFaultAt, mem_included_after h, findsFile_iff]
    refine and_congr_right fun _ => and_congr_right fun hfound => ?_
    simp [present_of_not_unfound hfound]
  | _ => simp [InclusionFault, InclusionFaultAt]

section Reports

variable {s : ValidationSettings} {m : MeterSettings} {present : Path → Bool} {document : Path}
  {text : Text}

theorem inclusion_fault_reported_iff {r : Rule} (hr : r ∈ inclusionRules) (h : s.level r ≠ .ignore)
    (j : Nat) :
    (∃ d ∈ (validate s m present document text).filter
      (fun d => d.rule ∈ inclusionRules ∧ d.range.start.line = j), d.rule = r) ↔
    ∃ value, InclusionAt (lines (dropMark text)) j value ∧
      InclusionFaultAt (context s present document) (lines (dropMark text)) j value r := by
  have hother : ∀ r ∈ inclusionRules, r ∉ otherRules := by decide
  have hsome : (∃ d ∈ (validate s m present document text).filter
      (fun d => d.rule ∈ inclusionRules ∧ d.range.start.line = j), d.rule = r) ↔
      (validate s m present document text).filter
        (fun d => d.rule = r ∧ d.range.start.line = j) ≠ [] := by
    rw [Ne, List.filter_eq_nil_iff]
    grind
  rw [hsome, reported_iff m present document text j (hother r hr) h]
  cases hl : (lines (dropMark text))[j]? with
  | none => simp [InclusionAt, kindAt, hl]
  | some l =>
    simp [fault_iff_of_mem_inclusionRules hr, inclusionAt_iff hl,
      inclusionFault_iff (List.getElem?_eq_some_iff.mp hl).1.le]

theorem length_step_inclusionRules_le {s : ValidationSettings} {c : InclusionContext} {state : State}
    {l : Line} : ((step s c state l).2.filter (fun b => b.rule ∈ inclusionRules)).length ≤ 1 := by
  by_cases h : ∃ key value, l.kind = .inclusion key value
  · obtain ⟨key, value, hk⟩ := h
    apply (List.length_filter_le _ _).trans
    simp only [step, hk]
    rcases checkInclusion_cases c state.included l value with ⟨_, _, -, heq⟩ | ⟨-, heq⟩ <;>
      simp [heq]
  · have hnil : (step s c state l).2.filter (fun b => b.rule ∈ inclusionRules) = [] := by
      rw [List.filter_eq_nil_iff]
      intro b hb hr
      have hfault := (fault_of_mem_step hb).1
      rw [fault_iff_of_mem_inclusionRules (of_decide_eq_true hr)] at hfault
      obtain ⟨value, ⟨key, hk⟩, -⟩ := hfault
      exact h ⟨key, value, hk⟩
    simp [hnil]

theorem length_inclusion_reports_le_one (j : Nat) :
    ((validate s m present document text).filter
      (fun d => d.rule ∈ inclusionRules ∧ d.range.start.line = j)).length ≤ 1 := by
  have hother : ∀ r ∈ otherRules, r ∉ inclusionRules := by decide
  cases hl : (lines (dropMark text))[j]? with
  | none =>
    rw [reports_eq_nil (R := (· ∈ inclusionRules)) m present document hother hl]
    simp
  | some l =>
    rw [(perm_reportsUnder (R := (· ∈ inclusionRules)) m present document hother hl).length_eq]
    exact (List.length_filterMap_le _ _).trans length_step_inclusionRules_le

end Reports

theorem InclusionAt.unique {ls : List Line} {j : Nat} {v w : Text} (hv : InclusionAt ls j v)
    (hw : InclusionAt ls j w) : v = w := by
  obtain ⟨key, hk⟩ := hv
  obtain ⟨key', hk'⟩ := hw
  rw [hk] at hk'
  simp only [Option.some.injEq, LineKind.inclusion.injEq] at hk'
  exact hk'.2

/-- The first inclusion to name a file that exists is not at fault. -/
theorem not_inclusionFaultAt_of_first {c : InclusionContext} {ls : List Line} {i : Nat} {file : Path}
    (hfile : NamesFile c ls i file) (hfirst : ∀ k < i, ¬ NamesFile c ls k file)
    (hpresent : c.present file = true) {value : Text} (hat : InclusionAt ls i value) (r : Rule) :
    ¬ InclusionFaultAt c ls i value r := by
  obtain ⟨value', hat', hvariable, hne, rfl⟩ := hfile
  obtain rfl := hat.unique hat'
  intro hfault
  cases r with
  | unsupportedVariable => exact hvariable hfault
  | includeNotFound => simp [InclusionFaultAt, Unfound, hne, hpresent] at hfault
  | circularInclude =>
    obtain ⟨-, -, k, hk, hnames⟩ := hfault
    exact hfirst k hk hnames
  | _ => exact hfault

/-- Of the inclusions above that name the file of a circular one, the first is not at fault. -/
theorem exists_namesFile_of_circular {c : InclusionContext} {ls : List Line} {j : Nat}
    {value : Text} (h : InclusionFaultAt c ls j value .circularInclude) :
    ∃ i < j, NamesFile c ls i (includedFile c value) ∧
      ∀ value', InclusionAt ls i value' → ∀ r, ¬ InclusionFaultAt c ls i value' r := by
  obtain ⟨-, hfound, i, hi, hnames⟩ := h
  classical
  have hex : ∃ i, NamesFile c ls i (includedFile c value) := ⟨i, hnames⟩
  refine ⟨Nat.find hex, (Nat.find_min' hex hnames).trans_lt hi, Nat.find_spec hex, ?_⟩
  intro value' hat' r
  exact not_inclusionFaultAt_of_first (Nat.find_spec hex) (fun k hk => Nat.find_min hex hk)
    (present_of_not_unfound hfound) hat' r

/-- An inclusion is reported once at most, under the first of the three rules that it breaks: some
variable is left in its path, the path is empty or leads to no file, or an inclusion above leads to
the same file. In the last case one of those above is not reported itself. -/
theorem inclusion_reported_iff {s : ValidationSettings}
    (h : ∀ r ∈ inclusionRules, s.level r ≠ .ignore) (m : MeterSettings) (present : Path → Bool)
    (document : Path) (text : Text) :
    let ls := lines (dropMark text)
    let v := PathVariables.build s present document
    let raw (value : Text) : Text := trim (value.filter (· != '"'))
    let unsupported (value : Text) : Prop := PathVariables.HasVariable (v.expand (raw value))
    let file (value : Text) : Path :=
      let path : Path := ⟨v.expand (raw value)⟩
      (if path.isAbsolute then path else document.directory.join path).normalize
    let leadsTo (i : Nat) (p : Path) : Prop := ∃ value, InclusionAt ls i value ∧
      ¬unsupported value ∧ raw value ≠ [] ∧ file value = p
    let reports (j : Nat) := (validate s m present document text).filter
      fun d => d.rule ∈ inclusionRules ∧ d.range.start.line = j
    let reported (j : Nat) (r : Rule) : Prop := ∃ d ∈ reports j, d.rule = r
    ∀ j, (reports j).length ≤ 1 ∧ ((∀ value, ¬InclusionAt ls j value) → reports j = []) ∧
      ∀ value, InclusionAt ls j value →
        (reported j .unsupportedVariable ↔ unsupported value) ∧
        (reported j .includeNotFound ↔
          ¬unsupported value ∧ (raw value = [] ∨ ¬present (file value))) ∧
        (reported j .circularInclude ↔ ¬unsupported value ∧
          ¬(raw value = [] ∨ ¬present (file value)) ∧ ∃ i < j, leadsTo i (file value)) ∧
        (reported j .circularInclude → ∃ i < j, leadsTo i (file value) ∧ reports i = []) := by
  intro ls v raw unsupported file leadsTo reports reported j
  let c := context s present document
  have hunsupported (value : Text) : Unsupported c value ↔ unsupported value :=
    PathVariables.hasVariable_iff
  have hunfound (value : Text) : Unfound c value ↔ raw value = [] ∨ ¬present (file value) := by
    simp only [Unfound, Bool.not_eq_true]
    rfl
  have hleads (i : Nat) (p : Path) : NamesFile c ls i p ↔ leadsTo i p := by
    simp only [NamesFile, hunsupported]
    rfl
  have hreported (j : Nat) (r : Rule) (hr : r ∈ inclusionRules) : reported j r ↔
      ∃ value, InclusionAt ls j value ∧ InclusionFaultAt c ls j value r :=
    inclusion_fault_reported_iff hr (h r hr) j
  have hnil {j : Nat} (hsound : ∀ value, InclusionAt ls j value →
      ∀ r, ¬InclusionFaultAt c ls j value r) : reports j = [] := by
    rw [List.eq_nil_iff_forall_not_mem]
    intro d hd
    have hrule : d.rule ∈ inclusionRules := (of_decide_eq_true (List.mem_filter.mp hd).2).1
    obtain ⟨value, hat, hfault⟩ := (hreported j d.rule hrule).mp ⟨d, hd, rfl⟩
    exact hsound value hat d.rule hfault
  refine ⟨length_inclusion_reports_le_one j, fun hnone => ?_, fun value hat => ?_⟩
  · exact hnil fun value hat => absurd hat (hnone value)
  have hfault (r : Rule) (hr : r ∈ inclusionRules) :
      reported j r ↔ InclusionFaultAt c ls j value r := by
    rw [hreported j r hr]
    constructor
    · rintro ⟨value', hat', hfault⟩
      rwa [hat.unique hat']
    · exact fun hfault => ⟨value, hat, hfault⟩
  have hcircular : reported j .circularInclude ↔ ¬unsupported value ∧
      ¬(raw value = [] ∨ ¬present (file value)) ∧ ∃ i < j, leadsTo i (file value) := by
    rw [hfault .circularInclude (by decide), InclusionFaultAt, hunsupported, hunfound]
    simp only [hleads]
    rfl
  refine ⟨?_, ?_, hcircular, fun hreport => ?_⟩
  · rw [hfault .unsupportedVariable (by decide), InclusionFaultAt, hunsupported]
  · rw [hfault .includeNotFound (by decide), InclusionFaultAt, hunsupported, hunfound]
  · obtain ⟨i, hi, hnames, hsound⟩ :=
      exists_namesFile_of_circular ((hfault .circularInclude (by decide)).mp hreport)
    exact ⟨i, hi, (hleads i _).mp hnames, hnil hsound⟩

theorem map_rule_eq {reports : List Diagnostic} {r : Rule} (hle : reports.length ≤ 1)
    (h : ∃ d ∈ reports, d.rule = r) : reports.map Diagnostic.rule = [r] := by
  obtain ⟨d, hd, rfl⟩ := h
  have hlength : reports.length = 1 := le_antisymm hle (List.length_pos_of_mem hd)
  obtain ⟨e, rfl⟩ := List.length_eq_one_iff.mp hlength
  rw [List.mem_singleton.mp hd, List.map_singleton]

/-- A file included through a variable and once more by its name, between them a file that does not
exist, and a path with a variable that is not known. -/
theorem inclusion_reported_twice :
    let s : ValidationSettings := {}
    let present (p : Path) : Bool := p = ⟨"/s/b.inc".toList⟩
    let document : Path := ⟨"/s/a.ini".toList⟩
    let text : Text := ("@Include=#CURRENTPATH#b.inc\n@Include2=c.inc\n" ++
      "@Include3=\" x/../b.inc \"\n@Include4=#Theme#.inc").toList
    let rules (j : Nat) : List Rule := ((validate s {} present document text).filter
      fun d => d.rule ∈ inclusionRules ∧ d.range.start.line = j).map Diagnostic.rule
    (∀ r ∈ inclusionRules, s.level r ≠ .ignore) ∧
    rules 0 = [] ∧ rules 1 = [.includeNotFound] ∧ rules 2 = [.circularInclude] ∧
      rules 3 = [.unsupportedVariable] := by
  intro s present document text rules
  have hlevels : ∀ r ∈ inclusionRules, s.level r ≠ .ignore := by decide
  have hreports := inclusion_reported_iff hlevels {} present document text
  have hfirst : InclusionAt (lines (dropMark text)) 0 "#CURRENTPATH#b.inc".toList :=
    ⟨"@Include".toList, by decide⟩
  have hmissing : InclusionAt (lines (dropMark text)) 1 "c.inc".toList :=
    ⟨"@Include2".toList, by decide⟩
  have hagain : InclusionAt (lines (dropMark text)) 2 "\" x/../b.inc \"".toList :=
    ⟨"@Include3".toList, by decide⟩
  have hunknown : InclusionAt (lines (dropMark text)) 3 "#Theme#.inc".toList :=
    ⟨"@Include4".toList, by decide⟩
  obtain ⟨-, hnotFound, -⟩ := (hreports 1).2.2 _ hmissing
  obtain ⟨-, -, hcircular, hback⟩ := (hreports 2).2.2 _ hagain
  obtain ⟨hunsupported, -⟩ := (hreports 3).2.2 _ hunknown
  have hrepeats := hcircular.mpr
    ⟨by decide, by decide, 0, by decide, _, hfirst, by decide, by decide, by decide⟩
  refine ⟨hlevels, ?_, map_rule_eq (hreports 1).1 (hnotFound.mpr ⟨by decide, by decide⟩),
    map_rule_eq (hreports 2).1 hrepeats, map_rule_eq (hreports 3).1 (hunsupported.mpr (by decide))⟩
  -- The inclusion that the circular one points back to is the first, as the other one leads elsewhere.
  obtain ⟨i, hi, ⟨value, hat, -, -, hfile⟩, hnone⟩ := hback hrepeats
  obtain rfl : i = 0 := by
    by_contra hne
    obtain rfl : i = 1 := by omega
    rw [hat.unique hmissing] at hfile
    exact absurd hfile (by decide)
  exact List.map_eq_nil_iff.mpr hnone

end SkinLint.Validation
