import SkinLint.Proofs.Validation.Pass

/-!
# Faults of a line

What the first pass finds a line at fault for is decided by the line and by the state above it; where
the fault lies is decided by the line alone. No line is at fault under one rule twice.
-/
namespace SkinLint.Validation
open Text Document

variable {s : ValidationSettings} {c : InclusionContext} {l : Line} {r : Rule} {b : Breach}

section Header

variable {state : Sections} {raw : Text}

/-- What a header is at fault for, given its trimmed name and the names seen above it. -/
def HeaderFault (s : ValidationSettings) (seen : List Text) (name : Text) : Rule → Prop
  | .emptySectionName => name = []
  | .sectionNameLength => s.maxSectionNameLength < name.length
  | .sectionNameChars => s.strictSectionNames = true ∧ ∃ c ∈ name, isPermittedChar c = false
  | .duplicateSection => name ≠ [] ∧ identity s name ∈ seen
  | _ => False

/-- Where a header is at fault: as a whole if it has no name, else in its name. -/
def headerRange (l : Line) (raw : Text) : Rule → Range
  | .emptySectionName => Range.onLine l.index l.indent (l.indent + l.trimmed.length)
  | _ => nameRange l raw

theorem openSection_of_nil (h : trim raw = []) (s : ValidationSettings) (state : Sections)
    (l : Line) : ∃ message, (state.openSection s l raw).2 =
      [⟨.emptySectionName, headerRange l raw .emptySectionName, message⟩] := by
  simp [Sections.openSection, headerRange, h]

theorem openSection_of_ne_nil (h : trim raw ≠ []) :
    (state.openSection s l raw).2 = headerBreaches s state.seen l raw := by
  simp [Sections.openSection, h]

theorem fault_of_mem_openSection (h : b ∈ (state.openSection s l raw).2) :
    HeaderFault s state.seen (trim raw) b.rule ∧ b.range = headerRange l raw b.rule := by
  by_cases hname : trim raw = []
  · obtain ⟨message, hopen⟩ := openSection_of_nil hname s state l
    rw [hopen] at h
    rw [List.mem_singleton.mp h]
    exact ⟨hname, rfl⟩
  · rw [openSection_of_ne_nil hname] at h
    simp only [headerBreaches, List.mem_append, List.mem_ite_nil_right, List.mem_singleton] at h
    rcases h with (⟨hlong, rfl⟩ | ⟨hchars, rfl⟩) | ⟨hseen, rfl⟩
    · exact ⟨hlong, rfl⟩
    · exact ⟨by simpa [HeaderFault] using hchars, rfl⟩
    · exact ⟨⟨hname, by simpa using hseen⟩, rfl⟩

theorem exists_mem_openSection (h : HeaderFault s state.seen (trim raw) r) (l : Line) :
    ∃ b ∈ (state.openSection s l raw).2, b.rule = r := by
  by_cases hname : trim raw = []
  · obtain ⟨message, hopen⟩ := openSection_of_nil hname s state l
    rw [hopen]
    cases r <;> simp_all [HeaderFault]
  · rw [openSection_of_ne_nil hname]
    simp only [headerBreaches, List.mem_append, List.mem_ite_nil_right, List.mem_singleton]
    cases r with
    | emptySectionName => exact absurd h hname
    | sectionNameLength => exact ⟨_, .inl (.inl ⟨h, rfl⟩), rfl⟩
    | sectionNameChars => exact ⟨_, .inl (.inr ⟨by simpa [HeaderFault] using h, rfl⟩), rfl⟩
    | duplicateSection => exact ⟨_, .inr ⟨by simpa using h.2, rfl⟩, rfl⟩
    | _ => exact h.elim

theorem nodup_openSection : ((state.openSection s l raw).2.map Breach.rule).Nodup := by
  by_cases h : trim raw = []
  · simp [Sections.openSection, h]
  · rw [openSection_of_ne_nil h, headerBreaches]
    split_ifs <;> simp

end Header

section Inclusion

variable {included : List Path} {value : Text}

def expansion (c : InclusionContext) (value : Text) : Text :=
  c.pathVariables.expand (includedText value)

def includedFile (c : InclusionContext) (value : Text) : Path :=
  target c.directory (expansion c value)

/-- Some variable in the value of an inclusion has no replacement. -/
def Unsupported (c : InclusionContext) (value : Text) : Prop :=
  PathVariables.hasVariable (expansion c value) = true

instance (c : InclusionContext) (value : Text) : Decidable (Unsupported c value) :=
  inferInstanceAs (Decidable (PathVariables.hasVariable (expansion c value) = true))

/-- An inclusion names nothing, or nothing that exists. -/
def Unfound (c : InclusionContext) (value : Text) : Prop :=
  includedText value = [] ∨ c.present (includedFile c value) = false

instance (c : InclusionContext) (value : Text) : Decidable (Unfound c value) :=
  inferInstanceAs (Decidable (includedText value = [] ∨ c.present (includedFile c value) = false))

/-- What an inclusion is at fault for, given the files included above it. -/
def InclusionFault (c : InclusionContext) (included : List Path) (value : Text) : Rule → Prop
  | .unsupportedVariable => Unsupported c value
  | .includeNotFound => ¬ Unsupported c value ∧ Unfound c value
  | .circularInclude =>
    ¬ Unsupported c value ∧ ¬ Unfound c value ∧ includedFile c value ∈ included
  | _ => False

def inclusionRange (l : Line) : Rule → Range
  | .circularInclude => l.range
  | _ => valueRange l

theorem InclusionFault.unique {r' : Rule} (h : InclusionFault c included value r)
    (h' : InclusionFault c included value r') : r = r' := by
  cases r <;> cases r' <;> simp_all [InclusionFault]

/-- An inclusion is at fault under one rule and changes nothing, or it is at fault under none and its
file joins those included so far. -/
theorem checkInclusion_cases (c : InclusionContext) (included : List Path) (l : Line)
    (value : Text) :
    (∃ r message, InclusionFault c included value r ∧
      checkInclusion c included l value = (included, [⟨r, inclusionRange l r, message⟩])) ∨
    (∀ r, ¬ InclusionFault c included value r) ∧
      checkInclusion c included l value = (includedFile c value :: included, []) := by
  by_cases hvariable : Unsupported c value
  · refine .inl ⟨.unsupportedVariable, ?_⟩
    simp_all [checkInclusion, InclusionFault, inclusionRange, Unsupported, expansion]
  by_cases hfound : Unfound c value
  · refine .inl ⟨.includeNotFound, ?_⟩
    simp_all [checkInclusion, InclusionFault, inclusionRange, Unsupported, Unfound, includedFile,
      expansion]
  by_cases hseen : includedFile c value ∈ included
  · refine .inl ⟨.circularInclude, ?_⟩
    simp_all [checkInclusion, InclusionFault, inclusionRange, Unsupported, Unfound, includedFile,
      expansion]
  · refine .inr ⟨fun r => by cases r <;> simp_all [InclusionFault], ?_⟩
    simp_all [checkInclusion, Unsupported, Unfound, includedFile, expansion]

theorem fault_of_mem_checkInclusion (h : b ∈ (checkInclusion c included l value).2) :
    InclusionFault c included value b.rule ∧ b.range = inclusionRange l b.rule := by
  rcases checkInclusion_cases c included l value with ⟨r, message, hfault, heq⟩ | ⟨-, heq⟩
  · rw [heq] at h
    rw [List.mem_singleton.mp h]
    exact ⟨hfault, rfl⟩
  · simp [heq] at h

theorem exists_mem_checkInclusion (h : InclusionFault c included value r) (l : Line) :
    ∃ b ∈ (checkInclusion c included l value).2, b.rule = r := by
  rcases checkInclusion_cases c included l value with ⟨r', message, hfault, heq⟩ | ⟨hnone, -⟩
  · simp [heq, hfault.unique h]
  · exact absurd h (hnone r)

end Inclusion

section Step

variable {state : State}

/-- What a line of a given kind is at fault for, given the state above it. -/
def Fault (s : ValidationSettings) (c : InclusionContext) (state : State) : LineKind → Rule → Prop
  | .header raw, r => HeaderFault s state.sections.seen (trim raw) r
  | .openHeader, r => r = .unterminatedSection
  | .inclusion _ value, r => InclusionFault c state.included value r
  | .keyValue key _, r => r = .duplicateKey ∧ identity s key ∈ state.sections.keys
  | .malformed, r => r = .malformedKeyValue
  | _, _ => False

def faultRange (l : Line) (r : Rule) : Range :=
  match l.kind with
  | .header raw => headerRange l raw r
  | .inclusion _ _ => inclusionRange l r
  | .keyValue key _ => keyRange l key
  | _ => l.range

theorem fault_of_mem_step (h : b ∈ (step s c state l).2) :
    Fault s c state l.kind b.rule ∧ b.range = faultRange l b.rule := by
  cases hk : l.kind with
  | blank => simp [step, hk] at h
  | comment => simp [step, hk] at h
  | header raw =>
    simp only [step, hk] at h
    simpa only [Fault, faultRange, hk] using fault_of_mem_openSection h
  | openHeader =>
    simp only [step, hk, List.mem_singleton] at h
    simp [Fault, faultRange, hk, h]
  | inclusion key value =>
    simp only [step, hk] at h
    simpa only [Fault, faultRange, hk] using fault_of_mem_checkInclusion h
  | keyValue key value =>
    by_cases hm : identity s key ∈ state.sections.keys
    · simp only [step, hk, Sections.recordKey, List.contains_iff_mem, hm, if_true,
        List.mem_singleton] at h
      simp [Fault, faultRange, hk, hm, h]
    · simp [step, hk, Sections.recordKey, hm] at h
  | malformed =>
    simp only [step, hk, List.mem_singleton] at h
    simp [Fault, faultRange, hk, h]

theorem exists_mem_step (h : Fault s c state l.kind r) : ∃ b ∈ (step s c state l).2, b.rule = r := by
  cases hk : l.kind with
  | header raw =>
    simp only [step, hk]
    exact exists_mem_openSection (by simpa only [Fault, hk] using h) l
  | inclusion key value =>
    simp only [step, hk]
    exact exists_mem_checkInclusion (by simpa only [Fault, hk] using h) l
  | keyValue key value =>
    simp only [Fault, hk] at h
    simp [step, hk, Sections.recordKey, h]
  | _ => simp_all [Fault, step]

theorem nodup_step : ((step s c state l).2.map Breach.rule).Nodup := by
  cases hk : l.kind with
  | header raw =>
    simp only [step, hk]
    exact nodup_openSection
  | inclusion key value =>
    simp only [step, hk]
    rcases checkInclusion_cases c state.included l value with ⟨_, _, -, heq⟩ | ⟨-, heq⟩ <;>
      simp [heq]
  | keyValue key value =>
    by_cases hm : identity s key ∈ state.sections.keys <;>
      simp [step, hk, Sections.recordKey, hm]
  | _ => simp [step, hk]

theorem faultRange_line (l : Line) (r : Rule) : (faultRange l r).start.line = l.index := by
  cases hk : l.kind with
  | header raw => cases r <;> simp [faultRange, hk, headerRange, nameRange, Range.onLine]
  | inclusion key value =>
    cases r <;> simp [faultRange, hk, inclusionRange, valueRange, Line.range, Range.onLine]
  | keyValue key value => simp [faultRange, hk, keyRange, Range.onLine]
  | _ => simp [faultRange, hk, Line.range, Range.onLine]

theorem step_onLine (s : ValidationSettings) (c : InclusionContext) : Pass.OnLine (step s c) := by
  intro state l b h
  rw [(fault_of_mem_step h).2, faultRange_line]

end Step

end SkinLint.Validation
