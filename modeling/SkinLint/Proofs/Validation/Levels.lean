import SkinLint.Proofs.Validation.Order

/-!
# Levels are applied last

No check looks at the level of a rule, so what is found does not depend on the levels. They decide
which findings are shown and with what severity, and a change of one of them is not seen in the
reports under the other rules.
-/
namespace SkinLint

def ValidationSettings.withLevels (s : ValidationSettings) (levels : List (Rule × Level)) :
    ValidationSettings := { s with levels }

def ValidationSettings.allErrors (s : ValidationSettings) : ValidationSettings :=
  s.withLevels (Rule.all.map fun r => (r, .error))

theorem ValidationSettings.level_allErrors (s : ValidationSettings) (r : Rule) :
    s.allErrors.level r = .error := by
  cases r <;> rfl

/-- A report with the severity that the level of its rule names; none if the rule is ignored. -/
def Diagnostic.reweigh? (level : Rule → Level) (d : Diagnostic) : Option Diagnostic :=
  match level d.rule with
  | .error => some { d with severity := .error }
  | .warning => some { d with severity := .warning }
  | .hint => some { d with severity := .hint }
  | .ignore => none

theorem Diagnostic.start_of_reweigh? {level : Rule → Level} {d d' : Diagnostic}
    (h : d.reweigh? level = some d') : d'.range.start = d.range.start := by
  unfold reweigh? at h
  split at h
  case h_4 => cases h
  all_goals
    obtain rfl := Option.some.inj h
    rfl

/-- The severity that a breach had first is forgotten when it is weighed again. -/
theorem Breach.diagnostic?_bind_reweigh? {level level' : Rule → Level} {b : Breach}
    (h : level b.rule ≠ .ignore) :
    (b.diagnostic? level).bind (Diagnostic.reweigh? level') = b.diagnostic? level' := by
  obtain ⟨severity, hs⟩ := Severity.exists_ofLevel? h
  rw [Breach.diagnostic?, hs, Breach.diagnostic?]
  cases hlevel : level' b.rule <;> simp [Diagnostic.reweigh?, hlevel, Severity.ofLevel?]

namespace Validation
open Text Document

variable (s : ValidationSettings) (levels : List (Rule × Level))

theorem context_withLevels (present : Path → Bool) (document : Path) :
    context (s.withLevels levels) present document = context s present document := rfl

theorem step_withLevels (c : InclusionContext) : step (s.withLevels levels) c = step s c := by
  funext state l
  unfold step
  cases l.kind <;> rfl

theorem breaches_withLevels (m : MeterSettings) (c : InclusionContext) (ls : List Line) :
    breaches (s.withLevels levels) m c ls = breaches s m c ls := by
  simp only [breaches, lineBreaches_eq_found, run_eq_after, step_withLevels]

theorem validate_withLevels (m : MeterSettings) (present : Path → Bool) (document : Path)
    (text : Text) : validate (s.withLevels levels) m present document text =
      inOrder ((breaches s m (context s present document) (lines (dropMark text))).filterMap
        (Breach.diagnostic? (s.withLevels levels).level)) := by
  rw [validate, breaches_withLevels, context_withLevels]

/-- Reports made while no rule was ignored can be weighed again for any levels. -/
theorem validate_eq_reweighed (h : ∀ r, (s.withLevels levels).level r ≠ .ignore)
    (m : MeterSettings) (present : Path → Bool) (document : Path) (text : Text) :
    validate s m present document text =
      (validate (s.withLevels levels) m present document text).filterMap
        (Diagnostic.reweigh? s.level) := by
  rw [validate_withLevels, filterMap_inOrder (fun _ _ => Diagnostic.start_of_reweigh?),
    List.filterMap_filterMap, validate]
  congr 1
  apply List.filterMap_congr
  intro b _
  exact (Breach.diagnostic?_bind_reweigh? (h b.rule)).symm

/-- Reports under rules that have the same levels in two configurations are the same. -/
theorem filter_validate_withLevels {R : Rule → Prop} [DecidablePred R]
    (h : ∀ r, R r → (s.withLevels levels).level r = s.level r) (m : MeterSettings)
    (present : Path → Bool) (document : Path) (text : Text) :
    (validate (s.withLevels levels) m present document text).filter (fun d => R d.rule) =
      (validate s m present document text).filter (fun d => R d.rule) := by
  rw [filter_validate (fun r _ => R r), filter_validate (fun r _ => R r), breaches_withLevels,
    context_withLevels]
  congr 1
  apply List.filterMap_congr
  intro b hb
  have hr : R b.rule := by simpa using List.of_mem_filter hb
  rw [Breach.diagnostic?, Breach.diagnostic?, h b.rule hr]

/-- What is reported is what would be reported if every breach were an error, each report with the
severity that its rule has and without the ignored ones. So a rule whose level changes leaves all
reports under other rules alone. -/
theorem levels_only_reweigh (m : MeterSettings) (present : Path → Bool) (document : Path)
    (text : Text) :
    validate s m present document text =
      (validate s.allErrors m present document text).filterMap
        (Diagnostic.reweigh? fun r => (s.levels.lookup r).getD r.defaultLevel) ∧
    ∀ (levels : List (Rule × Level)) (changed : Rule),
      (∀ r ≠ changed, (s.withLevels levels).level r = s.level r) →
      (validate (s.withLevels levels) m present document text).filter (fun d => d.rule ≠ changed) =
        (validate s m present document text).filter (fun d => d.rule ≠ changed) := by
  constructor
  · apply validate_eq_reweighed
    intro r
    have hlevel := s.level_allErrors r
    rw [ValidationSettings.allErrors] at hlevel
    simp [hlevel]
  · intro levels changed h
    exact filter_validate_withLevels s levels h m present document text

/-- The repeated key becomes a hint and the malformed line is not reported. -/
theorem levels_only_reweigh_repeated :
    let s : ValidationSettings := { levels := [(.duplicateKey, .hint), (.malformedKeyValue, .ignore)] }
    let hushed := s.withLevels [(.duplicateKey, .ignore), (.malformedKeyValue, .ignore)]
    let found (s : ValidationSettings) := validate s {} (fun _ => false) ⟨"a.ini".toList⟩
      "[Rainmeter]\n[Variables]\nkey=1\nKEY=2\nbad".toList
    (found s.allErrors).map (fun d => (d.rule, d.severity)) =
        [(.duplicateKey, .error), (.malformedKeyValue, .error)] ∧
      (found s).map (fun d => (d.rule, d.severity)) = [(.duplicateKey, .hint)] ∧
      (∀ r ≠ .duplicateKey, hushed.level r = s.level r) ∧
      (found hushed).filter (fun d => d.rule ≠ .duplicateKey) =
        (found s).filter (fun d => d.rule ≠ .duplicateKey) := by
  intro s hushed found
  let ls := lines "[Rainmeter]\n[Variables]\nkey=1\nKEY=2\nbad".toList
  have hall : found s.allErrors =
      (breaches s.allErrors {} (context s.allErrors (fun _ => false) ⟨"a.ini".toList⟩) ls).filterMap
        (Breach.diagnostic? s.allErrors.level) :=
    List.mergeSort_of_pairwise (by decide +kernel)
  have hlevels : ∀ r ≠ .duplicateKey, hushed.level r = s.level r := by
    intro r hr
    cases r with
    | duplicateKey => exact absurd rfl hr
    | _ => rfl
  have hreweighed : found s = (found s.allErrors).filterMap
      (Diagnostic.reweigh? fun r => (s.levels.lookup r).getD r.defaultLevel) :=
    (levels_only_reweigh s {} _ _ _).1
  refine ⟨?_, ?_, hlevels, (levels_only_reweigh s {} _ _ _).2 _ _ hlevels⟩
  · rw [hall]
    decide +kernel
  · rw [hreweighed, hall]
    decide +kernel

end Validation

end SkinLint
