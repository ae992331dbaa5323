import SkinLint.Proofs.Validation.Faults
import SkinLint.Proofs.Validation.MeterKeys

/-!
# Reports on a line

Sorting and weighing neither lose nor add findings. What is reported on a line under a rule of the
first pass is therefore what one step of that pass makes of the line: one report if the line is at
fault under the rule, and none if it is not.
-/
namespace SkinLint

def Breach.weighed (severity : Severity) (b : Breach) : Diagnostic :=
  ⟨b.rule, severity, b.range, b.message⟩

theorem Severity.exists_ofLevel? {level : Level} (h : level ≠ .ignore) :
    ∃ severity, ofLevel? level = some severity := by
  cases level with
  | ignore => exact absurd rfl h
  | _ => exact ⟨_, rfl⟩

theorem Breach.of_diagnostic? {level : Rule → Level} {b : Breach} {d : Diagnostic}
    (h : b.diagnostic? level = some d) :
    d.rule = b.rule ∧ d.range = b.range ∧ d.message = b.message := by
  obtain ⟨severity, -, rfl⟩ := Option.map_eq_some_iff.mp h
  exact ⟨rfl, rfl, rfl⟩

theorem Breach.exists_diagnostic? {level : Rule → Level} {b : Breach}
    (h : level b.rule ≠ .ignore) : ∃ d, b.diagnostic? level = some d := by
  obtain ⟨severity, hs⟩ := Severity.exists_ofLevel? h
  simp [Breach.diagnostic?, hs]

namespace Validation
open Text Document

theorem perm_validate (s : ValidationSettings) (m : MeterSettings) (present : Path → Bool)
    (document : Path) (text : Text) :
    (validate s m present document text).Perm
      ((breaches s m (context s present document) (lines (dropMark text))).filterMap
        (Breach.diagnostic? s.level)) :=
  List.mergeSort_perm _ _

/-- The rules that are not about one line of the first pass. -/
def otherRules : List Rule :=
  [.missingRainmeter, .missingVariables, .invalidMeterKey, .emptyNumberedKey]

/-- Reports are chosen by rule and place as the breaches that they are made of. -/
theorem filter_filterMap_diagnostic? (level : Rule → Level) (P : Rule → Range → Prop)
    [∀ r range, Decidable (P r range)] (found : List Breach) :
    (found.filterMap (Breach.diagnostic? level)).filter (fun d => P d.rule d.range) =
      (found.filter fun b => P b.rule b.range).filterMap (Breach.diagnostic? level) := by
  rw [List.filter_filterMap, List.filterMap_filter]
  congr 1
  funext b
  cases hs : Severity.ofLevel? (level b.rule) with
  | none => simp [Breach.diagnostic?, hs]
  | some severity => simp [Breach.diagnostic?, hs, Option.filter]

theorem filterMap_diagnostic?_of_rule {level : Rule → Level} {r : Rule} {severity : Severity}
    (h : Severity.ofLevel? (level r) = some severity) {found : List Breach}
    (hf : ∀ b ∈ found, b.rule = r) :
    found.filterMap (Breach.diagnostic? level) = found.map (Breach.weighed severity) := by
  rw [List.filterMap_eq_map_iff_forall_eq_some]
  intro b hb
  rw [Breach.diagnostic?, hf b hb, h, ← hf b hb]
  rfl

theorem length_filter_rule_le_one {found : List Breach} (h : (found.map Breach.rule).Nodup)
    (r : Rule) : (found.filter (fun b => b.rule = r)).length ≤ 1 := by
  have hcount := List.nodup_iff_count.mp h r
  rw [List.count_eq_countP, List.countP_map, List.countP_eq_length_filter] at hcount
  simpa only [Function.comp_def, beq_eq_decide] using hcount

theorem rule_of_mem_lineBreaches {s : ValidationSettings} {c : InclusionContext} {state : State}
    {ls : List Line} {b : Breach} (h : b ∈ lineBreaches s c state ls) : b.rule ∉ otherRules := by
  rw [lineBreaches_eq_found] at h
  obtain ⟨state', l, -, hstep⟩ := Pass.exists_step_of_mem_found h
  have hfault := (fault_of_mem_step hstep).1
  intro hr
  simp only [otherRules, List.mem_cons, List.not_mem_nil, or_false] at hr
  cases hk : l.kind <;> rcases hr with hr | hr | hr | hr <;>
    simp [hk, hr, Fault, HeaderFault, InclusionFault] at hfault

theorem of_mem_missing {state : Sections} {b : Breach} (h : b ∈ state.missing) :
    (b.rule = .missingRainmeter ∨ b.rule = .missingVariables) ∧
      b.range = Range.documentStart := by
  unfold Sections.missing at h
  rw [List.mem_append, List.mem_ite_nil_left, List.mem_ite_nil_left, List.mem_singleton,
    List.mem_singleton] at h
  rcases h with ⟨-, rfl⟩ | ⟨-, rfl⟩
  · exact ⟨.inl rfl, rfl⟩
  · exact ⟨.inr rfl, rfl⟩

theorem rule_of_mem_meterBreaches {m : Meter} {keys : List Text} {block : Block} {ls : List Line}
    {b : Breach} (h : b ∈ meterBreaches m keys block ls) :
    b.rule = .invalidMeterKey ∨ b.rule = .emptyNumberedKey := by
  rw [meterBreaches_eq_found] at h
  obtain ⟨block', l, -, hstep⟩ := Pass.exists_step_of_mem_found h
  exact rule_of_mem_meterStep hstep

section Parts

variable {P : Breach → Bool}

theorem filter_lineBreaches_eq_nil (hP : ∀ b, P b = true → b.rule ∈ otherRules)
    (s : ValidationSettings) (c : InclusionContext) (ls : List Line) :
    (lineBreaches s c {} ls).filter P = [] := by
  rw [List.filter_eq_nil_iff]
  intro b hb hp
  exact rule_of_mem_lineBreaches hb (hP b hp)

theorem filter_missing_eq_nil
    (hP : ∀ b, P b = true → b.rule ≠ .missingRainmeter ∧ b.rule ≠ .missingVariables)
    (state : Sections) : state.missing.filter P = [] := by
  rw [List.filter_eq_nil_iff]
  intro b hb hp
  rcases (of_mem_missing hb).1 with hrule | hrule
  · exact (hP b hp).1 hrule
  · exact (hP b hp).2 hrule

theorem filter_meterBreaches_eq_nil
    (hP : ∀ b, P b = true → b.rule ≠ .invalidMeterKey ∧ b.rule ≠ .emptyNumberedKey)
    (m : MeterSettings) (ls : List Line) :
    (Meter.all.flatMap fun meter =>
      meterBreaches meter (meter.keysWith (m.extraKeysFor meter)) .outside ls).filter P = [] := by
  rw [List.filter_eq_nil_iff]
  intro b hb hp
  obtain ⟨meter, -, hm⟩ := List.mem_flatMap.mp hb
  rcases rule_of_mem_meterBreaches hm with hrule | hrule
  · exact (hP b hp).1 hrule
  · exact (hP b hp).2 hrule

end Parts

section Line

variable {R : Rule → Prop} [DecidablePred R]

/-- The other rules apart, findings come from the first pass. -/
theorem filter_breaches (hR : ∀ r ∈ otherRules, ¬ R r) (s : ValidationSettings)
    (m : MeterSettings) (c : InclusionContext) (ls : List Line) (j : Nat) :
    (breaches s m c ls).filter (fun b => R b.rule ∧ b.range.start.line = j) =
      ((Pass.found (step s c) {} ls).filter (fun b => b.range.start.line = j)).filter
        (fun b => R b.rule) := by
  have hne {b : Breach} {r : Rule} (hr : r ∈ otherRules)
      (hb : decide (R b.rule ∧ b.range.start.line = j) = true) : b.rule ≠ r := by
    rintro rfl
    exact hR _ hr (of_decide_eq_true hb).1
  rw [breaches, List.filter_append, List.filter_append,
    filter_missing_eq_nil (fun b hb => ⟨hne (by decide) hb, hne (by decide) hb⟩),
    filter_meterBreaches_eq_nil (fun b hb => ⟨hne (by decide) hb, hne (by decide) hb⟩),
    List.append_nil, List.append_nil, lineBreaches_eq_found, List.filter_filter]
  congr 1
  funext b
  simp

variable {s : ValidationSettings} {r : Rule} {severity : Severity} {text : Text} {j : Nat}

/-- What is reported on a line under rules of the first pass is what a step makes of the line. -/
theorem perm_reportsUnder (m : MeterSettings) (present : Path → Bool) (document : Path)
    (hR : ∀ r ∈ otherRules, ¬ R r) {l : Line} (hl : (lines (dropMark text))[j]? = some l) :
    ((validate s m present document text).filter
      (fun d => R d.rule ∧ d.range.start.line = j)).Perm
      (((step s (context s present document)
        (Pass.after (step s (context s present document)) {} ((lines (dropMark text)).take j))
        l).2.filter (fun b => R b.rule)).filterMap (Breach.diagnostic? s.level)) := by
  have hperm := (perm_validate s m present document text).filter
    (fun d => R d.rule ∧ d.range.start.line = j)
  rwa [filter_filterMap_diagnostic? s.level fun r range => R r ∧ range.start.line = j,
    filter_breaches hR, Pass.filter_found (step_onLine s _) (Pass.numbered_lines _) hl] at hperm

theorem perm_reports (m : MeterSettings) (present : Path → Bool) (document : Path)
    (hr : r ∉ otherRules) (hs : Severity.ofLevel? (s.level r) = some severity) {l : Line}
    (hl : (lines (dropMark text))[j]? = some l) :
    ((validate s m present document text).filter
      (fun d => d.rule = r ∧ d.range.start.line = j)).Perm
      (((step s (context s present document)
        (Pass.after (step s (context s present document)) {} ((lines (dropMark text)).take j))
        l).2.filter (fun b => b.rule = r)).map (Breach.weighed severity)) := by
  have hperm := perm_reportsUnder (R := (· = r)) (s := s) m present document
    (fun _ hm he => hr (he ▸ hm)) hl
  rwa [filterMap_diagnostic?_of_rule hs (by simp)] at hperm

/-- Nothing is reported under such rules where there is no line. -/
theorem reports_eq_nil (m : MeterSettings) (present : Path → Bool) (document : Path)
    (hR : ∀ r ∈ otherRules, ¬ R r) (hl : (lines (dropMark text))[j]? = none) :
    (validate s m present document text).filter
      (fun d => R d.rule ∧ d.range.start.line = j) = [] := by
  have hperm := (perm_validate s m present document text).filter
    (fun d => R d.rule ∧ d.range.start.line = j)
  rw [filter_filterMap_diagnostic? s.level fun r range => R r ∧ range.start.line = j,
    filter_breaches hR,
    Pass.filter_found_of_notMem (step_onLine s _) ((Pass.numbered_lines _).index_ne hl)] at hperm
  exact hperm.eq_nil

/-- A rule is reported on a line when the line is at fault under it. -/
theorem reported_iff (m : MeterSettings) (present : Path → Bool) (document : Path) (text : Text)
    (j : Nat) (hr : r ∉ otherRules) (h : s.level r ≠ .ignore) :
    (validate s m present document text).filter
        (fun d => d.rule = r ∧ d.range.start.line = j) ≠ [] ↔
      ∃ l, (lines (dropMark text))[j]? = some l ∧
        Fault s (context s present document)
          (Pass.after (step s (context s present document)) {} ((lines (dropMark text)).take j))
          l.kind r := by
  obtain ⟨severity, hs⟩ := Severity.exists_ofLevel? h
  cases hl : (lines (dropMark text))[j]? with
  | none =>
    rw [reports_eq_nil (R := (· = r)) m present document (fun _ hm he => hr (he ▸ hm)) hl]
    simp
  | some l =>
    have hperm := perm_reports m present document hr hs hl
    rw [Ne, ← List.length_eq_zero_iff, hperm.length_eq, List.length_map, List.length_eq_zero_iff,
      List.filter_eq_nil_iff]
    constructor
    · intro hfound
      simp only [decide_eq_true_eq, not_forall, not_not] at hfound
      obtain ⟨b, hb, rfl⟩ := hfound
      exact ⟨l, rfl, (fault_of_mem_step hb).1⟩
    · rintro ⟨_, ⟨⟩, hfault⟩ hnone
      obtain ⟨b, hb, he⟩ := exists_mem_step hfault
      simpa [he] using hnone b hb

theorem length_reports_le_one (m : MeterSettings) (present : Path → Bool) (document : Path)
    (text : Text) (j : Nat) (hr : r ∉ otherRules) (h : s.level r ≠ .ignore) :
    ((validate s m present document text).filter
      (fun d => d.rule = r ∧ d.range.start.line = j)).length ≤ 1 := by
  obtain ⟨severity, hs⟩ := Severity.exists_ofLevel? h
  cases hl : (lines (dropMark text))[j]? with
  | none =>
    rw [reports_eq_nil (R := (· = r)) m present document (fun _ hm he => hr (he ▸ hm)) hl]
    simp
  | some l =>
    rw [(perm_reports m present document hr hs hl).length_eq, List.length_map]
    exact length_filter_rule_le_one nodup_step r

end Line

end Validation

end SkinLint
