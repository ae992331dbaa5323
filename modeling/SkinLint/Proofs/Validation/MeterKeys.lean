import SkinLint.Proofs.Line
import SkinLint.Validation.MeterKeys

/-!
# Declarations of meters

A line declares a meter when it is spelled by a key and a value that do, with nothing around `=`.
The key of a declaration is one that every meter may have, so a declaration is never reported.
-/
namespace SkinLint.Validation
open Text LineKind

def NamesMeter (m : Meter) (key value : Text) : Prop :=
  eqIgnoreCase key "meter".toList = true ∧ eqIgnoreCase value m.display.toList = true

theorem declares_iff (m : Meter) {key : Text} (value : Text) (h : '=' ∉ key) :
    declares m (key ++ '=' :: value) = true ↔ NamesMeter m key value :=
  eqIgnoreCase_pair_iff (b := "meter".toList) value m.display.toList h (by decide)

theorem trimmed_display (m : Meter) : Trimmed m.display.toList := by
  cases m <;> exact trimmed_of_trim (by decide)

/-- A declaration is spelled with no blanks around `=`. -/
theorem eq_pair_of_declares {m : Meter} {t key value : Text} (h : declares m t = true)
    (hp : pair? t = some (key, value)) : t = key ++ '=' :: value := by
  obtain ⟨before, after, rfl, hb, rfl, rfl, -⟩ := (pair?_eq_some_iff _ _ _).mp hp
  obtain ⟨hkey, hvalue⟩ := (declares_iff m after hb).mp h
  have hmeter : Trimmed "meter".toList := trimmed_of_trim (by decide)
  rw [trim_of_trimmed (trimmed_of_eqIgnoreCase hkey hmeter),
    trim_of_trimmed (trimmed_of_eqIgnoreCase hvalue (trimmed_display m))]

/-- A key and a value that name a kind of meter make up a pair, and no inclusion. -/
theorem classify_of_namesMeter {m : Meter} {key value : Text} (h : NamesMeter m key value)
    (heq : '=' ∉ key) : classify (key ++ '=' :: value) = .keyValue key value := by
  have hlower := (eqIgnoreCase_iff key "meter".toList).mp h.1
  have hhead : key.head?.map lowerAscii = some 'm' := by
    rw [← List.head?_map, hlower]
    decide
  have hpair : IsPair key value := by
    refine ⟨?_, trimmed_of_eqIgnoreCase h.1 (trimmed_of_trim (by decide)), heq, ?_, ?_,
      trimmed_of_eqIgnoreCase h.2 (trimmed_display m)⟩
    · rintro rfl
      simp at hhead
    · intro hc
      rw [hc] at hhead
      exact absurd hhead (by decide)
    · intro hc
      rw [hc] at hhead
      exact absurd hhead (by decide)
  have hinclude : isIncludeKey key = false := by
    rw [isIncludeKey, ← Bool.not_eq_true, eqIgnoreCase_iff, List.map_take, hlower]
    decide
  rw [hpair.classify, ofPair, hinclude]
  rfl

theorem kind_of_declares {m : Meter} {l : Line} (h : declares m l.trimmed = true) :
    ∃ key value, l.kind = .keyValue key value := by
  cases hs : splitFirst? '=' l.trimmed with
  | none =>
    have hm : '=' ∈ l.trimmed := by
      rw [← equals_mem_map_lowerAscii, (eqIgnoreCase_iff _ _).mp h, equals_mem_map_lowerAscii]
      simp
    exact absurd hm ((splitFirst?_eq_none_iff '=' _).mp hs)
  | some parts =>
    obtain ⟨ht, heq⟩ := (splitFirst?_eq_some_iff '=' _ parts.1 parts.2).mp hs
    rw [ht] at h
    have hclass := classify_of_namesMeter ((declares_iff m _ heq).mp h) heq
    rw [← ht, Line.trimmed, classify_trim] at hclass
    exact ⟨parts.1, parts.2, hclass⟩

/-- The key of a declaration belongs to every meter and to no numbered family. -/
theorem allows_of_eq_meter {key : Text} (h : eqIgnoreCase key "meter".toList = true)
    (keys : List Text) : Meter.allows keys key = true ∧ Meter.isNumbered key = false := by
  have hlower := (eqIgnoreCase_iff key "meter".toList).mp h
  constructor
  · have hlisted : Meter.listed Meter.sharedKeys key = true := by
      rw [Meter.listed, List.any_eq_true]
      refine ⟨"Meter".toList, by decide, ?_⟩
      rw [eqIgnoreCase_iff, hlower]
      decide
    rw [Meter.allows, hlisted, Bool.or_true]
  · have hfamilies : ∀ family ∈ Meter.numberedFamilies,
        ("meter".toList.map lowerAscii).take family.length ≠ family.map lowerAscii := by decide
    rw [Meter.isNumbered, List.any_eq_false]
    intro family hf hin
    rw [Meter.inFamily, Bool.and_eq_true, eqIgnoreCase_iff, List.map_take, hlower] at hin
    exact hfamilies family hf hin.1

theorem meterKeyBreaches_of_eq_meter {key : Text} (h : eqIgnoreCase key "meter".toList = true)
    (m : Meter) (keys : List Text) (name : Text) (l : Line) (value : Text) :
    meterKeyBreaches m keys name l key value = [] := by
  obtain ⟨hallows, hnumbered⟩ := allows_of_eq_meter h keys
  simp [meterKeyBreaches, hallows, hnumbered]

theorem of_mem_meterKeyBreaches {m : Meter} {keys : List Text} {name key value : Text} {l : Line}
    {breach : Breach} (h : breach ∈ meterKeyBreaches m keys name l key value) :
    (breach.rule = .invalidMeterKey ∨ breach.rule = .emptyNumberedKey) ∧
      breach.range = keyRange l key := by
  unfold meterKeyBreaches at h
  split_ifs at h
  · rw [List.mem_singleton.mp h]
    exact ⟨.inr rfl, rfl⟩
  · simp at h
  · simp at h
  · rw [List.mem_singleton.mp h]
    exact ⟨.inl rfl, rfl⟩

section Step

variable {m : Meter} {keys : List Text} {b : Block} {l : Line} {key value name : Text}

theorem meterStep_header (hk : l.kind = .header name) :
    meterStep m keys b l = (.inSection (trim name), []) := by
  simp [meterStep, hk]

theorem meterStep_outside (hk : l.kind = .keyValue key value) :
    meterStep m keys .outside l = (.outside, []) := by
  simp [meterStep, hk, Block.section?]

theorem meterStep_declares (hk : l.kind = .keyValue key value) (hb : b.section? = some name)
    (hd : declares m l.trimmed = true) : meterStep m keys b l = (.inMeter name, []) := by
  simp [meterStep, hk, hb, hd]

theorem meterStep_inSection (hk : l.kind = .keyValue key value)
    (hd : declares m l.trimmed = false) :
    meterStep m keys (.inSection name) l = (.inSection name, []) := by
  simp [meterStep, hk, hd, Block.section?]

theorem meterStep_inMeter (hk : l.kind = .keyValue key value)
    (hd : declares m l.trimmed = false) :
    meterStep m keys (.inMeter name) l =
      (.inMeter name, meterKeyBreaches m keys name l key value) := by
  simp [meterStep, hk, hd, Block.section?]

theorem meterStep_other (hh : ∀ name, l.kind ≠ .header name)
    (hk : ∀ key value, l.kind ≠ .keyValue key value) : meterStep m keys b l = (b, []) := by
  unfold meterStep
  split
  · rename_i h
    exact absurd h (hh _)
  · rename_i h
    exact absurd h (hk _ _)
  · rfl

/-- Only pairs inside a meter are reported, and declarations never. -/
theorem mem_meterStep {breach : Breach} (h : breach ∈ (meterStep m keys b l).2) :
    ∃ name key value, b = .inMeter name ∧ l.kind = .keyValue key value ∧
      declares m l.trimmed = false ∧ breach ∈ meterKeyBreaches m keys name l key value := by
  cases hk : l.kind with
  | keyValue key value =>
    cases b with
    | outside => simp [meterStep_outside hk] at h
    | inSection name =>
      cases hd : declares m l.trimmed with
      | true =>
        rw [meterStep_declares hk rfl hd] at h
        simp at h
      | false => simp [meterStep_inSection hk hd] at h
    | inMeter name =>
      cases hd : declares m l.trimmed with
      | true =>
        rw [meterStep_declares hk rfl hd] at h
        simp at h
      | false =>
        rw [meterStep_inMeter hk hd] at h
        exact ⟨name, key, value, rfl, rfl, rfl, h⟩
  | header name => simp [meterStep_header hk] at h
  | _ => simp [meterStep_other, hk] at h

theorem rule_of_mem_meterStep {breach : Breach} (h : breach ∈ (meterStep m keys b l).2) :
    breach.rule = .invalidMeterKey ∨ breach.rule = .emptyNumberedKey := by
  obtain ⟨name, key, value, -, -, -, hm⟩ := mem_meterStep h
  exact (of_mem_meterKeyBreaches hm).1

end Step

end SkinLint.Validation
