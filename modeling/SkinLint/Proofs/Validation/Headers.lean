import SkinLint.Proofs.Validation.Sections

/-!
# Names of sections

After some lines the names that are remembered are those of the headers above, and so are the
sections that every skin should have. A header is therefore reported exactly when its own name is at
fault or an earlier header has it, and a section is missed exactly when no header opens it.
-/
namespace SkinLint.Validation
open Text Document

theorem kindAt_eq_getElem?_map (ls : List Line) (j : Nat) :
    kindAt ls j = (ls.map Line.kind)[j]? := by
  simp [kindAt]

def SectionAt (ls : List Line) (j : Nat) (name : Text) : Prop :=
  ∃ raw, kindAt ls j = some (.header raw) ∧ trim raw = name

def StrictChar (c : Char) : Prop :=
  ('A' ≤ c ∧ c ≤ 'Z') ∨ ('a' ≤ c ∧ c ≤ 'z') ∨ ('0' ≤ c ∧ c ≤ '9') ∨ c = '_' ∨ c = '-'

/-- What is wrong with the name that line `j` gives to a section. -/
def NameFault (s : ValidationSettings) (ls : List Line) (j : Nat) (name : Text) : Rule → Prop
  | .emptySectionName => name = []
  | .sectionNameLength => s.maxSectionNameLength < name.length
  | .sectionNameChars => s.strictSectionNames = true ∧ ∃ c ∈ name, ¬ StrictChar c
  | .duplicateSection =>
    name ≠ [] ∧ ∃ i < j, ∃ earlier, SectionAt ls i earlier ∧ SameName s earlier name
  | _ => False

def headerRules : List Rule :=
  [.emptySectionName, .sectionNameLength, .sectionNameChars, .duplicateSection]

def requiredSections : List (Rule × Text) :=
  [(.missingRainmeter, "rainmeter".toList), (.missingVariables, "variables".toList)]

theorem isPermittedChar_eq_false_iff (c : Char) : isPermittedChar c = false ↔ ¬ StrictChar c := by
  simp [isPermittedChar, StrictChar, isAsciiAlphanumeric, isAsciiDigit]
  tauto

/-- A name is told apart from the empty one. -/
theorem ne_nil_of_sameName {s : ValidationSettings} {a b : Text} (h : SameName s a b) (hb : b ≠ []) :
    a ≠ [] := by
  rintro rfl
  cases hs : s.caseSensitiveNames with
  | true => simp [SameName, hs, Ne.symm hb] at h
  | false =>
    simp only [SameName, hs, Bool.false_eq_true, if_false, (lower_eq_nil_iff []).mpr] at h
    exact hb ((lower_eq_nil_iff b).mp h.symm)

section Step

variable {s : ValidationSettings} {c : InclusionContext} {state : State} {l : Line}

theorem mem_step_seen_iff {x : Text} : x ∈ (step s c state l).1.sections.seen ↔
    x ∈ state.sections.seen ∨ ∃ raw, l.kind = .header raw ∧ trim raw ≠ [] ∧
      identity s (trim raw) = x := by
  cases hk : l.kind with
  | header raw =>
    by_cases h : trim raw = []
    · simp [step, hk, Sections.openSection, h]
    · simp [step, hk, Sections.openSection, h]
      tauto
  | keyValue key value =>
    by_cases h : identity s key ∈ state.sections.keys <;> simp [step, hk, Sections.recordKey, h]
  | _ => simp [step, hk]

def Sections.has (state : Sections) : Rule → Bool
  | .missingRainmeter => state.hasRainmeter
  | .missingVariables => state.hasVariables
  | _ => true

theorem requiredSections_cases {r : Rule} {name : Text} (h : (r, name) ∈ requiredSections) :
    r = .missingRainmeter ∧ name = "rainmeter".toList ∨
      r = .missingVariables ∧ name = "variables".toList := by
  simpa only [requiredSections, List.mem_cons, List.not_mem_nil, or_false, Prod.mk.injEq] using h

theorem step_has_iff {r : Rule} {name : Text} (h : (r, name) ∈ requiredSections) :
    (step s c state l).1.sections.has r = true ↔ state.sections.has r = true ∨
      ∃ raw, l.kind = .header raw ∧ eqIgnoreCase (trim raw) name = true := by
  cases hk : l.kind with
  | header raw =>
    by_cases hname : trim raw = []
    · rcases requiredSections_cases h with ⟨rfl, rfl⟩ | ⟨rfl, rfl⟩ <;>
        simp [step, hk, Sections.openSection, Sections.has, hname, eqIgnoreCase]
    · rcases requiredSections_cases h with ⟨rfl, rfl⟩ | ⟨rfl, rfl⟩ <;>
        simp [step, hk, Sections.openSection, Sections.has, hname, isRainmeter, isVariables]
  | keyValue key value =>
    by_cases hm : identity s key ∈ state.sections.keys <;>
      rcases requiredSections_cases h with ⟨rfl, rfl⟩ | ⟨rfl, rfl⟩ <;>
      simp [step, hk, Sections.recordKey, Sections.has, hm]
  | _ => simp [step, hk]

end Step

theorem sectionAt_iff {ls : List Line} {j : Nat} {l : Line} (hl : ls[j]? = some l) (name : Text) :
    SectionAt ls j name ↔ ∃ raw, l.kind = .header raw ∧ trim raw = name := by
  simp [SectionAt, kindAt_of_getElem? hl]

/-- What is remembered of the names of sections after the first `j` lines. -/
structure Opened (s : ValidationSettings) (ls : List Line) (j : Nat) (state : Sections) : Prop where
  seen : ∀ x, x ∈ state.seen ↔
    ∃ i < j, ∃ name, SectionAt ls i name ∧ name ≠ [] ∧ identity s name = x
  has : ∀ r name, (r, name) ∈ requiredSections →
    (state.has r = true ↔ ∃ i < j, ∃ title, SectionAt ls i title ∧ eqIgnoreCase title name = true)

theorem opened_zero (s : ValidationSettings) (ls : List Line) : Opened s ls 0 {} := by
  constructor
  · simp
  · intro r name h
    rcases requiredSections_cases h with ⟨rfl, -⟩ | ⟨rfl, -⟩ <;> simp [Sections.has]

theorem Opened.step {s : ValidationSettings} {ls : List Line} {j : Nat} {state : State} {l : Line}
    (h : Opened s ls j state.sections) (hl : ls[j]? = some l) (c : InclusionContext) :
    Opened s ls (j + 1) (step s c state l).1.sections := by
  constructor
  · intro x
    rw [mem_step_seen_iff, h.seen, Nat.exists_lt_succ_right]
    simp [sectionAt_iff hl]
  · intro r name hr
    rw [step_has_iff hr, h.has r name hr, Nat.exists_lt_succ_right]
    simp [sectionAt_iff hl]

theorem opened_after (s : ValidationSettings) (c : InclusionContext) {ls : List Line} {j : Nat}
    (h : j ≤ ls.length) : Opened s ls j (Pass.after (Validation.step s c) {} (ls.take j)).sections :=
  Pass.after_take_induction (P := fun j (state : State) => Opened s ls j state.sections)
    (opened_zero s ls) (fun hl hstate => hstate.step hl c) h

theorem fault_iff_of_mem_headerRules {s : ValidationSettings} {c : InclusionContext} {state : State}
    {kind : LineKind} {r : Rule} (hr : r ∈ headerRules) : Fault s c state kind r ↔
      ∃ raw, kind = .header raw ∧ HeaderFault s state.sections.seen (trim raw) r := by
  cases kind with
  | header raw => simp [Fault]
  | _ =>
    simp only [headerRules, List.mem_cons, List.not_mem_nil, or_false] at hr
    rcases hr with rfl | rfl | rfl | rfl <;> simp [Fault, InclusionFault]

/-- The names that are remembered are those of the headers above. -/
theorem Opened.fault_iff {s : ValidationSettings} {ls : List Line} {j : Nat} {state : Sections}
    (h : Opened s ls j state) (name : Text) (r : Rule) :
    HeaderFault s state.seen name r ↔ NameFault s ls j name r := by
  cases r with
  | sectionNameChars => simp [HeaderFault, NameFault, isPermittedChar_eq_false_iff]
  | duplicateSection =>
    simp only [HeaderFault, NameFault, h.seen, identity_eq_iff]
    refine and_congr_right fun hname => ⟨?_, ?_⟩
    · rintro ⟨i, hi, earlier, hat, -, hsame⟩
      exact ⟨i, hi, earlier, hat, hsame⟩
    · rintro ⟨i, hi, earlier, hat, hsame⟩
      -- Headers with no name are not remembered, but none of them has the name of this one.
      exact ⟨i, hi, earlier, hat, ne_nil_of_sameName hsame hname, hsame⟩
  | _ => simp [HeaderFault, NameFault]

theorem header_reported_iff {s : ValidationSettings} {r : Rule} (hr : r ∈ headerRules)
    (h : s.level r ≠ .ignore) (m : MeterSettings) (present : Path → Bool) (document : Path)
    (text : Text) (j : Nat) :
    (validate s m present document text).filter
        (fun d => d.rule = r ∧ d.range.start.line = j) ≠ [] ↔
      ∃ name, SectionAt (lines (dropMark text)) j name ∧
        NameFault s (lines (dropMark text)) j name r := by
  have hother : ∀ r ∈ headerRules, r ∉ otherRules := by decide
  rw [reported_iff m present document text j (hother r hr) h]
  cases hl : (lines (dropMark text))[j]? with
  | none => simp [SectionAt, kindAt, hl]
  | some l =>
    have hstate := opened_after s (context s present document)
      (List.getElem?_eq_some_iff.mp hl).1.le
    simp [fault_iff_of_mem_headerRules hr, hstate.fault_iff, sectionAt_iff hl]

section Missing

variable {s : ValidationSettings} {r : Rule} {name : Text}

theorem filter_missing (h : (r, name) ∈ requiredSections) (state : Sections) : ∃ message,
    state.missing.filter (fun b => b.rule = r) =
      if state.has r then [] else [⟨r, Range.documentStart, message⟩] := by
  rcases requiredSections_cases h with ⟨rfl, -⟩ | ⟨rfl, -⟩ <;>
    cases hr : state.hasRainmeter <;> cases hv : state.hasVariables <;>
    simp [Sections.missing, Sections.has, hr, hv]

/-- Missing sections are found at the end of the first pass and nowhere else. -/
theorem filter_breaches_missing (h : (r, name) ∈ requiredSections) (s : ValidationSettings)
    (m : MeterSettings) (c : InclusionContext) (ls : List Line) :
    (breaches s m c ls).filter (fun b => b.rule = r) =
      (run s c {} ls).sections.missing.filter (fun b => b.rule = r) := by
  have hother {b : Breach} (hb : decide (b.rule = r) = true) :
      b.rule ∈ otherRules ∧ b.rule ≠ .invalidMeterKey ∧ b.rule ≠ .emptyNumberedKey := by
    rw [of_decide_eq_true hb]
    rcases requiredSections_cases h with ⟨rfl, -⟩ | ⟨rfl, -⟩ <;> decide
  rw [breaches, List.filter_append, List.filter_append,
    filter_lineBreaches_eq_nil (fun _ hb => (hother hb).1),
    filter_meterBreaches_eq_nil (fun _ hb => (hother hb).2), List.nil_append, List.append_nil]

theorem has_run_iff (h : (r, name) ∈ requiredSections) (s : ValidationSettings)
    (c : InclusionContext) (ls : List Line) : (run s c {} ls).sections.has r = true ↔
      ∃ i title, SectionAt ls i title ∧ eqIgnoreCase title name = true := by
  have hopened := opened_after s c (Nat.le_refl ls.length)
  rw [List.take_length, ← run_eq_after] at hopened
  rw [hopened.has r name h]
  constructor
  · rintro ⟨i, -, title, hat⟩
    exact ⟨i, title, hat⟩
  · rintro ⟨i, title, hat, htitle⟩
    refine ⟨i, ?_, title, hat, htitle⟩
    by_contra hi
    obtain ⟨raw, hk, -⟩ := hat
    simp [kindAt, List.getElem?_eq_none (Nat.le_of_not_lt hi)] at hk

/-- A section that no header opens is missed once, at the start of the document. -/
theorem missing_reports (hr : (r, name) ∈ requiredSections) (h : s.level r ≠ .ignore)
    (m : MeterSettings) (present : Path → Bool) (document : Path) (text : Text) :
    let reports := (validate s m present document text).filter (fun d => d.rule = r)
    ((∃ i title, SectionAt (lines (dropMark text)) i title ∧ eqIgnoreCase title name = true) ∧
      reports = []) ∨
    (¬ ∃ i title, SectionAt (lines (dropMark text)) i title ∧ eqIgnoreCase title name = true) ∧
      ∃ d, reports = [d] ∧ d.range = Range.documentStart := by
  obtain ⟨severity, hs⟩ := Severity.exists_ofLevel? h
  have hperm := (perm_validate s m present document text).filter (fun d => d.rule = r)
  rw [filter_filterMap_diagnostic? s.level fun rule _ => rule = r,
    filterMap_diagnostic?_of_rule hs (by simp), filter_breaches_missing hr] at hperm
  obtain ⟨message, hmissing⟩ := filter_missing hr
    (run s (context s present document) {} (lines (dropMark text))).sections
  rw [hmissing] at hperm
  rw [← has_run_iff hr s (context s present document)]
  by_cases hhas : (run s (context s present document) {} (lines (dropMark text))).sections.has r
  · rw [if_pos hhas] at hperm
    exact .inl ⟨hhas, hperm.eq_nil⟩
  · rw [if_neg hhas] at hperm
    exact .inr ⟨hhas, _, hperm.eq_singleton, rfl⟩

end Missing

/-- Headers are reported exactly when their names are at fault, once under each rule and on their own
line. Sections that every skin should have are reported exactly when no header opens them, once and
at the start of the document. -/
theorem section_reported_iff (s : ValidationSettings) (m : MeterSettings) (present : Path → Bool)
    (document : Path) (text : Text) :
    let ls := lines (dropMark text)
    let found := validate s m present document text
    (∀ r ∈ headerRules, s.level r ≠ .ignore → ∀ j,
      let reports := found.filter fun d => d.rule = r ∧ d.range.start.line = j
      (reports ≠ [] ↔ ∃ name, SectionAt ls j name ∧ NameFault s ls j name r) ∧
        reports.length ≤ 1) ∧
    ∀ r name, (r, name) ∈ requiredSections → s.level r ≠ .ignore →
      let reports := found.filter fun d => d.rule = r
      (reports ≠ [] ↔ ¬ ∃ i title, SectionAt ls i title ∧ eqIgnoreCase title name = true) ∧
        reports.length ≤ 1 ∧ ∀ d ∈ reports, d.range = ⟨⟨0, 0⟩, ⟨0, 0⟩⟩ := by
  intro ls found
  constructor
  · intro r hr h j
    have hother : ∀ r ∈ headerRules, r ∉ otherRules := by decide
    exact ⟨header_reported_iff hr h m present document text j,
      length_reports_le_one m present document text j (hother r hr) h⟩
  · intro r name hr h reports
    rcases missing_reports hr h m present document text with ⟨hopen, hnil⟩ | ⟨hnone, d, hd, hrange⟩
    · change reports = [] at hnil
      rw [hnil]
      exact ⟨iff_of_false (by simp) (not_not_intro hopen), by simp, by simp⟩
    · change reports = [d] at hd
      rw [hd]
      exact ⟨iff_of_true (by simp) hnone, by simp, by simpa [Range.documentStart] using hrange⟩

/-- Another spelling of a name is reported on its line, and `[Rainmeter]` is missed. -/
theorem section_reported_respelled :
    ({} : ValidationSettings).level .duplicateSection ≠ .ignore ∧
    ({} : ValidationSettings).level .missingRainmeter ≠ .ignore ∧
    ((validate {} {} (fun _ => false) ⟨"a.ini".toList⟩ "[Clock]\nX=1\n [ CLOCK]".toList).filter
      fun d => d.rule = .duplicateSection ∧ d.range.start.line = 2) ≠ [] ∧
    ((validate {} {} (fun _ => false) ⟨"a.ini".toList⟩ "[Clock]\nX=1\n [ CLOCK]".toList).filter
      fun d => d.rule = .missingRainmeter) ≠ [] := by
  have hduplicate : ({} : ValidationSettings).level .duplicateSection ≠ .ignore := by decide
  have hmissing : ({} : ValidationSettings).level .missingRainmeter ≠ .ignore := by decide
  have hkinds : (lines (dropMark "[Clock]\nX=1\n [ CLOCK]".toList)).map Line.kind =
      [.header "Clock".toList, .keyValue "X".toList "1".toList, .header " CLOCK".toList] := by decide
  obtain ⟨hheaders, hrequired⟩ := section_reported_iff {} {} (fun _ => false) ⟨"a.ini".toList⟩
    "[Clock]\nX=1\n [ CLOCK]".toList
  refine ⟨hduplicate, hmissing,
    (hheaders .duplicateSection (by decide) hduplicate 2).1.mpr ?_,
    (hrequired .missingRainmeter "rainmeter".toList (by decide) hmissing).1.mpr ?_⟩
  · exact ⟨"CLOCK".toList, ⟨" CLOCK".toList, by decide, by decide⟩, by decide, 0, by decide,
      "Clock".toList, ⟨"Clock".toList, by decide, by decide⟩, by decide⟩
  · rintro ⟨i, title, ⟨raw, hk, rfl⟩, htitle⟩
    have hmem := List.mem_of_getElem? (kindAt_eq_getElem?_map _ i ▸ hk)
    rw [hkinds] at hmem
    simp only [List.mem_cons, LineKind.header.injEq, reduceCtorEq, List.not_mem_nil, false_or,
      or_false] at hmem
    rcases hmem with rfl | rfl <;> exact absurd htitle (by decide)

end SkinLint.Validation
