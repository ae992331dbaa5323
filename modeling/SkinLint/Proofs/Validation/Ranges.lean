import SkinLint.Proofs.Validation.Headers

/-!
# Places of reports

Every range is counted from lengths of pieces that the line is made of: its leading blanks, the
bracket, the blanks inside the bracket, the key, what stands before the first `=`. So it lies within
its line, and what it cuts out of the line is the piece that the report is about.
-/
namespace SkinLint.Validation
open Text Document LineKind

/-- A range lies within a line and cuts a part out of it. -/
structure Covers (l : Line) (range : Range) (part : Text) : Prop where
  start_line : range.start.line = l.index
  stop_line : range.stop.line = l.index
  ordered : range.start.character ≤ range.stop.character
  within : range.stop.character ≤ l.width
  text : (l.text.drop range.start.character).take
    (range.stop.character - range.start.character) = part

/-- The part of a line that a report under a rule is about. -/
def Offending (l : Line) (part : Text) : Rule → Prop
  | .malformedKeyValue => l.kind = .malformed ∧ part = l.text
  | .unterminatedSection => l.kind = .openHeader ∧ part = l.text
  | .circularInclude => (∃ key value, l.kind = .inclusion key value) ∧ part = l.text
  | .emptySectionName => (∃ raw, l.kind = .header raw) ∧ part = l.trimmed
  | .sectionNameLength | .sectionNameChars | .duplicateSection =>
    ∃ raw, l.kind = .header raw ∧ part = trim raw
  | .duplicateKey | .invalidMeterKey | .emptyNumberedKey => ∃ value, l.kind = .keyValue part value
  | .unsupportedVariable | .includeNotFound =>
    (∃ key value, l.kind = .inclusion key value) ∧
      ∃ before, l.text = before ++ '=' :: part ∧ '=' ∉ before
  | .missingRainmeter | .missingVariables => part = []

section Covers

variable {l : Line} {before part rest raw key value : Text}

theorem covers_onLine (h : l.text = before ++ part ++ rest) :
    Covers l (Range.onLine l.index before.length (before.length + part.length)) part := by
  have hle : before.length ≤ before.length + part.length := Nat.le_add_right _ _
  constructor
  · rfl
  · rfl
  · rw [Range.onLine_stop_of_le _ hle]
    exact hle
  · rw [Range.onLine_stop_of_le _ hle, Line.width, h]
    simp
  · rw [Range.onLine_stop_of_le _ hle, Range.onLine_start, h]
    simp

/-- Pieces of the trimmed line are counted from where the line stops being blank. -/
theorem covers_of_trimmed (h : l.trimmed = before ++ part ++ rest) :
    Covers l (Range.onLine l.index (l.indent + before.length)
      (l.indent + before.length + part.length)) part := by
  obtain ⟨b, ht, -⟩ := trim_decompose_leading l.text
  rw [Line.trimmed] at h
  have hindent : l.indent = (l.text.takeWhile isBlank).length := length_sub_length_trimStart l.text
  have hpieces : l.text = l.text.takeWhile isBlank ++ before ++ part ++ (rest ++ b) := by
    conv_lhs => rw [ht, h]
    simp
  have hcovers := covers_onLine hpieces
  rwa [List.length_append, ← hindent] at hcovers

theorem covers_range (l : Line) : Covers l l.range l.text := by
  have h : l.text = [] ++ l.text ++ [] := by simp
  simpa [Line.range, Line.width] using covers_onLine h

theorem covers_trimmed (l : Line) :
    Covers l (Range.onLine l.index l.indent (l.indent + l.trimmed.length)) l.trimmed := by
  have h : l.trimmed = [] ++ l.trimmed ++ [] := by simp
  simpa using covers_of_trimmed h

theorem covers_nameRange (hk : l.kind = .header raw) : Covers l (nameRange l raw) (trim raw) := by
  obtain ⟨b, hraw, -⟩ := trim_decompose_leading raw
  have h : l.trimmed = '[' :: raw.takeWhile isBlank ++ trim raw ++ (b ++ [']']) := by
    rw [Line.trimmed, trim_of_classify_header hk]
    conv_lhs => rw [hraw]
    simp
  have hstart : l.indent + 1 + (raw.length - (trimStart raw).length) =
      l.indent + ('[' :: raw.takeWhile isBlank).length := by
    rw [length_sub_length_trimStart, List.length_cons]
    omega
  simp only [nameRange, hstart]
  exact covers_of_trimmed h

theorem covers_keyRange (hk : l.kind = .keyValue key value) : Covers l (keyRange l key) key := by
  obtain ⟨-, hp, -⟩ := isPair_of_classify (.inl hk)
  obtain ⟨rest, ht⟩ := exists_eq_append_of_pair? (trimmed_trim l.text) hp
  have h : l.trimmed = [] ++ key ++ rest := ht
  simpa [keyRange] using covers_of_trimmed h

theorem covers_valueRange (hk : l.kind = .inclusion key value) :
    ∃ before part, l.text = before ++ '=' :: part ∧ '=' ∉ before ∧
      Covers l (valueRange l) part := by
  obtain ⟨-, hp, -⟩ := isPair_of_classify (.inr hk)
  obtain ⟨_, _, ht, -⟩ := (pair?_eq_some_iff _ _ _).mp hp
  -- The range is counted on the whole line, while the pair was read from the trimmed one.
  have hm : '=' ∈ l.text := mem_of_mem_trim (by simp [ht])
  cases hs : splitFirst? '=' l.text with
  | none => exact absurd hm ((splitFirst?_eq_none_iff '=' _).mp hs)
  | some parts =>
    obtain ⟨htext, hbefore⟩ := (splitFirst?_eq_some_iff '=' _ parts.1 parts.2).mp hs
    have h : l.text = parts.1 ++ ['='] ++ parts.2 ++ [] := by simp [← htext]
    have hstart : valueStart l = (parts.1 ++ ['=']).length := by simp [valueStart, hs]
    have hstop : l.width = (parts.1 ++ ['=']).length + parts.2.length := by
      rw [Line.width, h, List.length_append, List.length_append, List.length_nil, Nat.add_zero]
    refine ⟨parts.1, parts.2, htext, hbefore, ?_⟩
    rw [valueRange, hstart, hstop]
    exact covers_onLine h

end Covers

section Fault

variable {s : ValidationSettings} {c : InclusionContext} {l : Line} {r : Rule}

theorem covers_headerRange {seen : List Text} {raw : Text} (hk : l.kind = .header raw)
    (h : HeaderFault s seen (trim raw) r) :
    ∃ part, Covers l (headerRange l raw r) part ∧ Offending l part r := by
  cases r with
  | emptySectionName => exact ⟨_, covers_trimmed l, ⟨raw, hk⟩, rfl⟩
  | sectionNameLength | sectionNameChars | duplicateSection =>
    exact ⟨_, covers_nameRange hk, raw, hk, rfl⟩
  | _ => exact h.elim

theorem covers_inclusionRange {included : List Path} {key value : Text}
    (hk : l.kind = .inclusion key value) (h : InclusionFault c included value r) :
    ∃ part, Covers l (inclusionRange l r) part ∧ Offending l part r := by
  cases r with
  | circularInclude => exact ⟨_, covers_range l, ⟨key, value, hk⟩, rfl⟩
  | unsupportedVariable | includeNotFound =>
    obtain ⟨before, part, htext, hbefore, hcovers⟩ := covers_valueRange hk
    exact ⟨part, hcovers, ⟨key, value, hk⟩, before, htext, hbefore⟩
  | _ => exact h.elim

/-- A line that the first pass finds at fault is at fault in the part that the range covers. -/
theorem covers_faultRange {state : State} (h : Fault s c state l.kind r) :
    ∃ part, Covers l (faultRange l r) part ∧ Offending l part r := by
  unfold faultRange
  cases hk : l.kind with
  | blank => simp [hk, Fault] at h
  | comment => simp [hk, Fault] at h
  | header raw =>
    rw [hk] at h
    exact covers_headerRange hk h
  | openHeader =>
    rw [hk] at h
    obtain rfl := h
    exact ⟨_, covers_range l, hk, rfl⟩
  | inclusion key value =>
    rw [hk] at h
    exact covers_inclusionRange hk h
  | keyValue key value =>
    rw [hk] at h
    obtain rfl := h.1
    exact ⟨key, covers_keyRange hk, value, hk⟩
  | malformed =>
    rw [hk] at h
    obtain rfl := h
    exact ⟨_, covers_range l, hk, rfl⟩

end Fault

theorem covers_of_mem_meterStep {m : Meter} {keys : List Text} {block : Block} {l : Line}
    {b : Breach} (h : b ∈ (meterStep m keys block l).2) :
    ∃ part, Covers l b.range part ∧ Offending l part b.rule := by
  obtain ⟨name, key, value, -, hk, -, hm⟩ := mem_meterStep h
  obtain ⟨hrule, hrange⟩ := of_mem_meterKeyBreaches hm
  refine ⟨key, hrange ▸ covers_keyRange hk, ?_⟩
  rcases hrule with hrule | hrule <;> exact hrule ▸ ⟨value, hk⟩

theorem covers_of_mem_missing {state : Sections} {b : Breach} (h : b ∈ state.missing) (t : Text) :
    Covers ⟨0, t⟩ b.range [] ∧ Offending ⟨0, t⟩ [] b.rule := by
  obtain ⟨hrule, hrange⟩ := of_mem_missing h
  have ht : (⟨0, t⟩ : Line).text = [] ++ [] ++ t := rfl
  refine ⟨hrange ▸ covers_onLine ht, ?_⟩
  rcases hrule with hrule | hrule <;> exact hrule ▸ rfl

theorem exists_first_line (t : Text) : ∃ first, (⟨0, first⟩ : Line) ∈ lines t := by
  have hne : splitLines t ≠ [] := by simp [splitLines, splitOn_ne_nil]
  obtain ⟨first, rest, hs⟩ := List.exists_cons_of_ne_nil hne
  exact ⟨first, by simp [lines, hs]⟩

theorem covers_of_mem_breaches {s : ValidationSettings} {m : MeterSettings} {c : InclusionContext}
    {t : Text} {b : Breach} (h : b ∈ breaches s m c (lines t)) :
    ∃ l ∈ lines t, ∃ part, Covers l b.range part ∧ Offending l part b.rule := by
  rw [breaches, List.mem_append, List.mem_append, List.mem_flatMap] at h
  rcases h with (hline | hmissing) | ⟨meter, -, hmeter⟩
  · rw [lineBreaches_eq_found] at hline
    obtain ⟨state, l, hl, hstep⟩ := Pass.exists_step_of_mem_found hline
    obtain ⟨hfault, hrange⟩ := fault_of_mem_step hstep
    exact ⟨l, hl, hrange ▸ covers_faultRange hfault⟩
  · obtain ⟨first, hl⟩ := exists_first_line t
    exact ⟨_, hl, [], covers_of_mem_missing hmissing first⟩
  · rw [meterBreaches_eq_found] at hmeter
    obtain ⟨block, l, hl, hstep⟩ := Pass.exists_step_of_mem_found hmeter
    exact ⟨l, hl, covers_of_mem_meterStep hstep⟩

theorem range_of_required {s : ValidationSettings} {m : MeterSettings} {c : InclusionContext}
    {ls : List Line} {b : Breach} (h : b ∈ breaches s m c ls) (name : Text)
    (hr : (b.rule, name) ∈ requiredSections) : b.range = ⟨⟨0, 0⟩, ⟨0, 0⟩⟩ := by
  have hm : b ∈ (breaches s m c ls).filter (fun b' => b'.rule = b.rule) := by simp [h]
  rw [filter_breaches_missing hr] at hm
  exact (of_mem_missing (List.mem_of_mem_filter hm)).2

/-- Every report lies within an existing line, and its range cuts out of the line the part that the
report is about; what is missing is reported in front of everything. -/
theorem report_covers_offending {s : ValidationSettings} {m : MeterSettings} {present : Path → Bool}
    {document : Path} {text : Text} {d : Diagnostic}
    (h : d ∈ validate s m present document text) :
    (∃ l, (lines (dropMark text))[d.range.start.line]? = some l ∧
      ∃ part, Covers l d.range part ∧ Offending l part d.rule) ∧
    (d.rule = .missingRainmeter ∨ d.rule = .missingVariables →
      d.range = ⟨⟨0, 0⟩, ⟨0, 0⟩⟩) := by
  rw [(perm_validate s m present document text).mem_iff, List.mem_filterMap] at h
  obtain ⟨b, hb, hd⟩ := h
  obtain ⟨hrule, hrange, -⟩ := Breach.of_diagnostic? hd
  rw [hrule, hrange]
  constructor
  · obtain ⟨l, hl, part, hcovers, hoffending⟩ := covers_of_mem_breaches hb
    refine ⟨l, ?_, part, hcovers, hoffending⟩
    rw [hcovers.start_line]
    exact (Pass.numbered_lines _).getElem?_index hl
  · rintro (hr | hr)
    · exact range_of_required hb "rainmeter".toList (by rw [hr]; decide)
    · exact range_of_required hb "variables".toList (by rw [hr]; decide)

/-- A key is found behind the blanks in front of it. -/
theorem report_covers_indented_key :
    ∃ d ∈ validate {} {} (fun _ => false) ⟨"a.ini".toList⟩ "key=1\n  KEY = 2".toList,
      d.range = ⟨⟨1, 2⟩, ⟨1, 5⟩⟩ ∧
      ∃ l, (lines (dropMark "key=1\n  KEY = 2".toList))[d.range.start.line]? = some l ∧
        ∃ part, Covers l d.range part ∧ Offending l part d.rule := by
  have hd : (⟨.duplicateKey, .warning, ⟨⟨1, 2⟩, ⟨1, 5⟩⟩,
      "Duplicate key 'KEY' found before any section."⟩ : Diagnostic) ∈
      validate {} {} (fun _ => false) ⟨"a.ini".toList⟩ "key=1\n  KEY = 2".toList := by
    rw [(perm_validate _ _ _ _ _).mem_iff]
    decide +kernel
  exact ⟨_, hd, rfl, (report_covers_offending hd).1⟩

end SkinLint.Validation
