import Mathlib.Data.List.Flatten
import SkinLint.Proofs.Validation.Layout
import SkinLint.Proofs.Validation.Reports

/-!
# Formatting hides no diagnostic

Whatever is reported about a text is reported about its layout, at least as often. More is reported
only about the keys of a meter, and only if blanks around `=` kept its declaration from being seen.
-/
namespace SkinLint

def Diagnostic.content (d : Diagnostic) : Rule × Severity × String := (d.rule, d.severity, d.message)

namespace Validation
open Text LineKind Layout Document

/-- The content of the diagnostic for a breach with a given content. -/
def weigh (level : Rule → Level) (x : Rule × String) : Option (Rule × Severity × String) :=
  (Severity.ofLevel? (level x.1)).map fun severity => (x.1, severity, x.2)

theorem map_content_filterMap (level : Rule → Level) (found : List Breach) :
    (found.filterMap (Breach.diagnostic? level)).map Diagnostic.content =
      (found.map Breach.content).filterMap (weigh level) := by
  rw [List.map_filterMap, List.filterMap_map]
  apply List.filterMap_congr
  intro b _
  simp [Breach.diagnostic?, weigh, Breach.content, Diagnostic.content, Function.comp_def]

def meterContents (m : MeterSettings) (ls : List Line) : List (Rule × String) :=
  Meter.all.flatMap fun meter =>
    (meterBreaches meter (meter.keysWith (m.extraKeysFor meter)) .outside ls).map Breach.content

/-- The contents of what the first pass finds, and of the sections that it misses. -/
def firstContents (s : ValidationSettings) (c : InclusionContext) (ls : List Line) :
    List (Rule × String) :=
  (lineBreaches s c {} ls ++ (run s c {} ls).sections.missing).map Breach.content

theorem map_content_breaches (s : ValidationSettings) (m : MeterSettings) (c : InclusionContext)
    (ls : List Line) :
    (breaches s m c ls).map Breach.content = firstContents s c ls ++ meterContents m ls := by
  rw [breaches, List.map_append, List.map_flatMap]
  rfl

theorem firstContents_format (s : ValidationSettings) (c : InclusionContext) (text : Text) :
    firstContents s c (lines text) = firstContents s c (lines (format text)) := by
  obtain ⟨hrun, hfound⟩ := firstPass_format s c text
  rw [firstContents, firstContents, List.map_append, List.map_append, hrun, hfound]

theorem rule_of_mem_meterContents {m : MeterSettings} {ls : List Line} {x : Rule × String}
    (h : x ∈ meterContents m ls) : x.1 = .invalidMeterKey ∨ x.1 = .emptyNumberedKey := by
  obtain ⟨meter, -, hx⟩ := List.mem_flatMap.mp h
  obtain ⟨b, hb, rfl⟩ := List.mem_map.mp hx
  exact rule_of_mem_meterBreaches hb

theorem meterContents_format_sublist (m : MeterSettings) (text : Text) :
    (meterContents m (lines text)).Sublist (meterContents m (lines (format text))) :=
  List.Sublist.flatMap_right _ fun _ _ => meterBreaches_format_sublist _ _ text

theorem meterContents_format_eq {text : Text} (m : MeterSettings)
    (h : ∀ meter, ∀ t ∈ splitLines text, ∀ key value, classify t = .keyValue key value →
      NamesMeter meter key value → trim t = key ++ '=' :: value) :
    meterContents m (lines text) = meterContents m (lines (format text)) := by
  unfold meterContents
  congr 1
  funext meter
  exact meterBreaches_format_eq (h meter) _

/-- The checks of meters' keys say nothing under any other rule. -/
theorem count_weigh_meterContents {s : ValidationSettings} {m : MeterSettings} {ls : List Line}
    {x : Rule × Severity × String} (hi : x.1 ≠ .invalidMeterKey) (he : x.1 ≠ .emptyNumberedKey) :
    ((meterContents m ls).filterMap (weigh s.level)).count x = 0 := by
  rw [List.count_eq_zero]
  intro hx
  obtain ⟨y, hy, hw⟩ := List.mem_filterMap.mp hx
  obtain ⟨severity, -, rfl⟩ := Option.map_eq_some_iff.mp hw
  rcases rule_of_mem_meterContents hy with hr | hr
  · exact hi hr
  · exact he hr

/-- How often something is said about a text without a byte order mark. -/
theorem count_validate {text : Text} (h : mark ∉ text) (s : ValidationSettings)
    (m : MeterSettings) (present : Path → Bool) (document : Path)
    (x : Rule × Severity × String) :
    ((validate s m present document text).map Diagnostic.content).count x =
      ((firstContents s (context s present document) (lines text)).filterMap
        (weigh s.level)).count x +
      ((meterContents m (lines text)).filterMap (weigh s.level)).count x := by
  have hmark : dropMark text = text :=
    dropMark_of_head? fun hh => h (List.mem_of_mem_head? hh)
  have hperm := (perm_validate s m present document text).map Diagnostic.content
  rw [hperm.count_eq, hmark, map_content_filterMap, map_content_breaches, List.filterMap_append,
    List.count_append]

/-- Nothing that is said about a text is said less often about its layout. Only the rules on the
keys of a meter may be brought up more often, and they are not if every pair that names a meter is
spelled as its declaration. -/
theorem format_hides_no_diagnostic {text : Text} (h : mark ∉ text) (s : ValidationSettings)
    (m : MeterSettings) (present : Path → Bool) (document : Path) :
    let before := (validate s m present document text).map Diagnostic.content
    let after := (validate s m present document (format text)).map Diagnostic.content
    (∀ x, before.count x ≤ after.count x) ∧
    (∀ x, x.1 ≠ .invalidMeterKey → x.1 ≠ .emptyNumberedKey → before.count x = after.count x) ∧
    ((∀ meter, ∀ t ∈ splitLines text, ∀ key value, classify t = .keyValue key value →
      NamesMeter meter key value → trim t = key ++ '=' :: value) →
      ∀ x, before.count x = after.count x) := by
  have hformat : mark ∉ format text := by
    intro hm
    rcases mem_format hm with hm | hm
    · exact absurd hm (by decide)
    · exact h hm
  have hbefore := count_validate h s m present document
  have hafter := count_validate hformat s m present document
  rw [← firstContents_format] at hafter
  refine ⟨fun x => ?_, fun x hi he => ?_, fun hspelled x => ?_⟩
  · rw [hbefore, hafter]
    have hsub := (meterContents_format_sublist m text).filterMap (weigh s.level)
    exact Nat.add_le_add_left (hsub.count_le x) _
  · rw [hbefore, hafter, count_weigh_meterContents hi he, count_weigh_meterContents hi he]
  · rw [hbefore, hafter, meterContents_format_eq m hspelled]

/-- A declaration with blanks at its ends only: an unknown key below it is reported as often before
formatting as after. -/
theorem format_hides_no_diagnostic_indented :
    mark ∉ "[A]\n Meter=String \nBogus = 1".toList ∧
    ∀ x, ((validate {} {} (fun _ => false) ⟨"a.ini".toList⟩
        "[A]\n Meter=String \nBogus = 1".toList).map Diagnostic.content).count x =
      ((validate {} {} (fun _ => false) ⟨"a.ini".toList⟩
        (format "[A]\n Meter=String \nBogus = 1".toList)).map Diagnostic.content).count x := by
  have hmark : mark ∉ "[A]\n Meter=String \nBogus = 1".toList := by decide
  have hlines : splitLines "[A]\n Meter=String \nBogus = 1".toList =
      ["[A]".toList, " Meter=String ".toList, "Bogus = 1".toList] := by decide
  refine ⟨hmark, (format_hides_no_diagnostic hmark _ _ _ _).2.2 ?_⟩
  intro meter t ht key value hk hnames
  rw [hlines] at ht
  simp only [List.mem_cons, List.not_mem_nil, or_false] at ht
  rcases ht with rfl | rfl | rfl
  · have hc : classify "[A]".toList = .header "A".toList := by decide
    rw [hc] at hk
    simp at hk
  · have hc : classify " Meter=String ".toList = .keyValue "Meter".toList "String".toList := by
      decide
    rw [hc, LineKind.keyValue.injEq] at hk
    obtain ⟨rfl, rfl⟩ := hk
    decide
  · have hc : classify "Bogus = 1".toList = .keyValue "Bogus".toList "1".toList := by decide
    rw [hc, LineKind.keyValue.injEq] at hk
    obtain ⟨rfl, rfl⟩ := hk
    exact absurd hnames.1 (by decide)

end Validation

end SkinLint
