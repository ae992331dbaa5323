import SkinLint.Proofs.Text
import SkinLint.Refresh

/-!
# What a save asks the skin engine for

An engine that writes down its requests shows what a save asks for. It is one request at most, and
only for a file with the right extension; for a single skin, it is the folder of the file below the
first skins folder of its path, without unsafe characters. What the engine answers decides the
outcome, and where it is not asked, the outcome says why.
-/
namespace SkinLint.Refresh
open Text

section Marks

/-- The mark stands between two parts of a text, up to the case of ASCII letters. -/
def MarkBetween (mark t before behind : Text) : Prop :=
  ∃ found, t = before ++ found ++ behind ∧ eqIgnoreCase found mark = true

/-- What stands behind the first of all the places where the mark is. -/
def BehindFirst (mark t behind : Text) : Prop :=
  ∃ before, MarkBetween mark t before behind ∧
    ∀ before' behind', MarkBetween mark t before' behind' → before.length ≤ before'.length

variable {mark t before behind : Text} {c : Char}

theorem markBetween_nil_iff : MarkBetween mark t [] behind ↔
    eqIgnoreCase (t.take mark.length) mark = true ∧ behind = t.drop mark.length := by
  constructor
  · rintro ⟨found, rfl, hfound⟩
    simp [← length_eq_of_eqIgnoreCase hfound, hfound]
  · rintro ⟨hfound, rfl⟩
    exact ⟨_, (List.take_append_drop mark.length t).symm, hfound⟩

/-- A mark that does not stand in front stands further on. -/
theorem markBetween_cons_iff (h : ¬eqIgnoreCase ((c :: t).take mark.length) mark = true) :
    MarkBetween mark (c :: t) before behind ↔
      ∃ between, before = c :: between ∧ MarkBetween mark t between behind := by
  constructor
  · intro hmark
    cases before with
    | nil => exact absurd (markBetween_nil_iff.mp hmark).1 h
    | cons d between =>
      rcases hmark with ⟨found, ht, hfound⟩
      rcases List.cons.inj ht with ⟨rfl, hrest⟩
      exact ⟨between, rfl, found, hrest, hfound⟩
  · rintro ⟨between, rfl, found, rfl, hfound⟩
    exact ⟨found, rfl, hfound⟩

theorem not_markBetween_nil (hne : mark ≠ []) : ¬MarkBetween mark [] before behind := by
  rintro ⟨found, ht, hfound⟩
  have hnil : found = [] := by simp_all
  have hlength := length_eq_of_eqIgnoreCase hfound
  rw [hnil, List.length_nil, eq_comm, List.length_eq_zero_iff] at hlength
  exact hne hlength

theorem after?_eq_none_iff (hne : mark ≠ []) :
    after? mark t = none ↔ ∀ before behind, ¬MarkBetween mark t before behind := by
  induction t with
  | nil => exact iff_of_true rfl fun before behind => not_markBetween_nil hne
  | cons c t ih =>
    rw [after?]
    by_cases hhere : eqIgnoreCase ((c :: t).take mark.length) mark = true
    · rw [if_pos hhere]
      refine iff_of_false (by simp) fun hnone => ?_
      exact hnone [] _ (markBetween_nil_iff.mpr ⟨hhere, rfl⟩)
    · rw [if_neg hhere, ih]
      simp only [markBetween_cons_iff hhere, not_exists, not_and]
      constructor
      · intro hnone before behind between _
        exact hnone between behind
      · intro hnone before behind
        exact hnone (c :: before) behind before rfl

theorem after?_eq_some_iff (hne : mark ≠ []) :
    after? mark t = some behind ↔ BehindFirst mark t behind := by
  induction t with
  | nil =>
    refine iff_of_false (by simp [after?]) ?_
    rintro ⟨before, hmark, -⟩
    exact not_markBetween_nil hne hmark
  | cons c t ih =>
    rw [after?]
    by_cases hhere : eqIgnoreCase ((c :: t).take mark.length) mark = true
    · have hfront := markBetween_nil_iff.mpr ⟨hhere, rfl⟩
      rw [if_pos hhere, Option.some.injEq]
      constructor
      · rintro rfl
        exact ⟨[], hfront, fun _ _ _ => Nat.zero_le _⟩
      · rintro ⟨before, hmark, hfirst⟩
        obtain rfl : before = [] := by simpa using hfirst [] _ hfront
        exact (markBetween_nil_iff.mp hmark).2.symm
    · rw [if_neg hhere, ih]
      constructor
      · rintro ⟨before, hmark, hfirst⟩
        refine ⟨c :: before, (markBetween_cons_iff hhere).mpr ⟨before, rfl, hmark⟩, ?_⟩
        intro before' behind' hmark'
        rcases (markBetween_cons_iff hhere).mp hmark' with ⟨between, rfl, hbetween⟩
        exact Nat.succ_le_succ (hfirst between behind' hbetween)
      · rintro ⟨before, hmark, hfirst⟩
        rcases (markBetween_cons_iff hhere).mp hmark with ⟨between, rfl, hbetween⟩
        refine ⟨between, hbetween, ?_⟩
        intro before' behind' hmark'
        have hle := hfirst _ _ ((markBetween_cons_iff hhere).mpr ⟨before', rfl, hmark'⟩)
        exact Nat.le_of_succ_le_succ hle

end Marks

section Configurations

def backslashed (path : Path) : Text := path.text.map fun c => if c = '/' then '\\' else c

/-- What stands before the last backslash, or nothing. -/
def FolderOf (relative folder : Text) : Prop :=
  (∃ name, relative = folder ++ '\\' :: name ∧ '\\' ∉ name) ∨ '\\' ∉ relative ∧ folder = []

/-- The configuration of a file: its folder below the first skins folder, trimmed and then without
the characters that are no ASCII letters or digits, underscores, dashes, backslashes or blanks. -/
def IsConfig (path : Path) (config : Text) : Prop :=
  ∃ relative folder, BehindFirst "\\skins\\".toList (backslashed path) relative ∧
    FolderOf relative folder ∧ config = (trim folder).filter fun c =>
      c.isAlphanum || c == '_' || c == '-' || c == '\\' || isBlank c

variable {path : Path} {config : Text}

theorem isConfigChar_eq (c : Char) :
    isConfigChar c = (c.isAlphanum || c == '_' || c == '-' || c == '\\' || isBlank c) := by
  have hdigit : isAsciiDigit c = c.isDigit := rfl
  have hlower : (decide ('a' ≤ c) && decide (c ≤ 'z')) = c.isLower := rfl
  have hupper : (decide ('A' ≤ c) && decide (c ≤ 'Z')) = c.isUpper := (Bool.decide_and ..).symm
  have halphanumeric : isAsciiAlphanumeric c = c.isAlphanum :=
    calc isAsciiAlphanumeric c = (c.isDigit || c.isLower || c.isUpper) := by
          rw [isAsciiAlphanumeric, hdigit, hlower, hupper]
      _ = (c.isUpper || c.isLower || c.isDigit) := by ac_rfl
      _ = c.isAlphanum := rfl
  rw [isConfigChar, halphanumeric]

theorem folderOf_iff {relative folder : Text} : FolderOf relative folder ↔
    folder = ((splitLast? '\\' relative).map Prod.fst).getD [] := by
  cases hsplit : splitLast? '\\' relative with
  | none =>
    have hnone := (splitLast?_eq_none_iff _ _).mp hsplit
    constructor
    · rintro (⟨name, rfl, -⟩ | ⟨-, rfl⟩)
      · simp at hnone
      · rfl
    · rintro rfl
      exact .inr ⟨hnone, rfl⟩
  | some parts =>
    rcases (splitLast?_eq_some_iff _ _ parts.1 parts.2).mp hsplit with ⟨hrelative, hname⟩
    constructor
    · rintro (⟨name, hfolder, hlast⟩ | ⟨hnone, -⟩)
      · have hsame := (splitLast?_eq_some_iff _ _ folder name).mpr ⟨hfolder, hlast⟩
        rw [hsplit] at hsame
        rw [Option.some.inj hsame]
        rfl
      · simp [hrelative] at hnone
    · rintro rfl
      exact .inl ⟨parts.2, hrelative, hname⟩

theorem configOf_eq (path : Path) : configOf path =
    match after? skinsMark (backslashed path) with
    | none => .error (.outsideSkins path)
    | some relative =>
      .ok ((trim (((splitLast? '\\' relative).map Prod.fst).getD [])).filter isConfigChar) := by
  unfold configOf backslashed
  cases after? skinsMark _ with
  | none => rfl
  | some relative =>
    dsimp only
    cases splitLast? '\\' relative <;> rfl

theorem configOf_eq_ok_iff : configOf path = .ok config ↔ IsConfig path config := by
  have hchars : isConfigChar = fun c =>
      c.isAlphanum || c == '_' || c == '-' || c == '\\' || isBlank c := funext isConfigChar_eq
  have hmark (relative : Text) : BehindFirst "\\skins\\".toList (backslashed path) relative ↔
      after? skinsMark (backslashed path) = some relative :=
    (after?_eq_some_iff (by decide)).symm
  rw [configOf_eq]
  simp only [IsConfig, hmark, folderOf_iff, ← hchars]
  cases after? skinsMark (backslashed path) with
  | none => simp
  | some relative => simp [eq_comm]

/-- Only a file that is below no skins folder has no configuration. -/
theorem configOf_eq_error_iff {e : Error} : configOf path = .error e ↔ e = .outsideSkins path ∧
    ∀ before behind, ¬MarkBetween "\\skins\\".toList (backslashed path) before behind := by
  have hmark : after? skinsMark (backslashed path) = none ↔
      ∀ before behind, ¬MarkBetween "\\skins\\".toList (backslashed path) before behind :=
    after?_eq_none_iff (by decide)
  rw [configOf_eq, ← hmark]
  cases after? skinsMark (backslashed path) with
  | none => simp [eq_comm]
  | some relative => simp

theorem exists_isConfig_iff : (∃ config, IsConfig path config) ↔
    ∃ before behind, MarkBetween "\\skins\\".toList (backslashed path) before behind := by
  simp only [← configOf_eq_ok_iff]
  constructor
  · rintro ⟨config, hconfig⟩
    by_contra hnone
    push Not at hnone
    rw [configOf_eq_error_iff.mpr ⟨rfl, hnone⟩] at hconfig
    cases hconfig
  · rintro ⟨before, behind, hmark⟩
    cases hconfig : configOf path with
    | ok config => exact ⟨config, rfl⟩
    | error e => exact absurd hmark ((configOf_eq_error_iff.mp hconfig).2 before behind)

end Configurations

section Requests

def HasExtension (path : Path) (extensions : List String) : Prop :=
  ∃ extension, path.extension? = some extension ∧
    ∃ known ∈ extensions, eqIgnoreCase extension known.toList = true

def Covered (path : Path) : RefreshMode → Prop
  | .specific => HasExtension path ["ini"]
  | .all => HasExtension path ["ini", "inc", "nek"]

def CallsFor (s : RefreshSettings) (path : Path) : Request → Prop
  | .target config => s.autoRefreshOnSave = true ∧ s.mode = .specific ∧
      HasExtension path ["ini"] ∧ s.executable.isEmpty = false ∧ IsConfig path config
  | .all => s.autoRefreshOnSave = true ∧ s.mode = .all ∧
      HasExtension path ["ini", "inc", "nek"] ∧ s.executable.isEmpty = false

theorem hasExtension_iff {path : Path} {extensions : List String}
    (h : ∀ known ∈ extensions, known.toList ≠ [] ∧ known.toList.map lowerAscii = known.toList) :
    HasExtension path extensions ↔
      (path.extension?.getD []).map lowerAscii ∈ extensions.map String.toList := by
  simp only [HasExtension, List.mem_map, eqIgnoreCase_iff]
  cases path.extension? with
  | none =>
    refine iff_of_false (by simp) ?_
    rintro ⟨known, hknown, hnil⟩
    exact (h known hknown).1 hnil
  | some extension =>
    constructor
    · rintro ⟨extension', hsome, known, hknown, hsame⟩
      rw [(h known hknown).2, ← Option.some.inj hsome] at hsame
      exact ⟨known, hknown, hsame.symm⟩
    · rintro ⟨known, hknown, hsame⟩
      exact ⟨extension, rfl, known, hknown, hsame.symm.trans (h known hknown).2.symm⟩

variable {s : RefreshSettings} {path : Path}

theorem covered_specific_iff : Covered path .specific ↔
    (path.extension?.getD []).map lowerAscii = "ini".toList := by
  rw [Covered, hasExtension_iff (by decide)]
  simp

theorem covered_all_iff : Covered path .all ↔
    refreshable.contains ((path.extension?.getD []).map lowerAscii) = true := by
  rw [Covered, hasExtension_iff (by decide), List.contains_iff_mem]
  rfl

theorem requestFor_of_uncovered (h : s.autoRefreshOnSave = true → ¬Covered path s.mode) :
    requestFor s path = .ok none := by
  unfold requestFor
  cases hauto : s.autoRefreshOnSave with
  | false => rfl
  | true =>
    have huncovered := h hauto
    cases hmode : s.mode with
    | specific =>
      rw [hmode, covered_specific_iff] at huncovered
      simp only [bne_iff_ne, ne_eq, huncovered, not_false_eq_true, if_true]
      rfl
    | all =>
      rw [hmode, covered_all_iff, Bool.not_eq_true] at huncovered
      simp only [huncovered]
      rfl

theorem requestFor_of_covered (hauto : s.autoRefreshOnSave = true) (h : Covered path s.mode) :
    requestFor s path = if s.executable.isEmpty then .error .notConfigured else
      match s.mode with
      | .specific => (configOf path).map fun config => some (.target config)
      | .all => .ok (some .all) := by
  unfold requestFor
  rw [hauto]
  cases hmode : s.mode with
  | specific =>
    rw [hmode, covered_specific_iff] at h
    simp only [h]
    rfl
  | all =>
    rw [hmode, covered_all_iff] at h
    simp only [h]
    rfl

theorem CallsFor.covered {request : Request} (h : CallsFor s path request) :
    s.autoRefreshOnSave = true ∧ Covered path s.mode ∧ s.executable.isEmpty = false := by
  cases request with
  | all =>
    rcases h with ⟨hauto, hmode, hextension, hexecutable⟩
    rw [hmode]
    exact ⟨hauto, hextension, hexecutable⟩
  | target config =>
    rcases h with ⟨hauto, hmode, hextension, hexecutable, -⟩
    rw [hmode]
    exact ⟨hauto, hextension, hexecutable⟩

theorem CallsFor.requestFor_eq {request : Request} (h : CallsFor s path request) :
    requestFor s path = .ok (some request) := by
  rcases h.covered with ⟨hauto, hcovered, hexecutable⟩
  rw [requestFor_of_covered hauto hcovered, hexecutable, if_neg Bool.false_ne_true]
  cases request with
  | all => rw [h.2.1]
  | target config =>
    rw [h.2.1, configOf_eq_ok_iff.mpr h.2.2.2.2]
    rfl

/-- Why a save asks for nothing, and what it comes to. -/
inductive Unasked (s : RefreshSettings) (path : Path) : Except Error Outcome → Prop
  | skipped : ¬(s.autoRefreshOnSave = true ∧ Covered path s.mode) → Unasked s path (.ok .skipped)
  | notConfigured : s.autoRefreshOnSave = true → Covered path s.mode →
      s.executable.isEmpty = true → Unasked s path (.error .notConfigured)
  | outsideSkins : s.autoRefreshOnSave = true → Covered path s.mode → s.mode = .specific →
      s.executable.isEmpty = false →
      (∀ before behind, ¬MarkBetween "\\skins\\".toList (backslashed path) before behind) →
      Unasked s path (.error (.outsideSkins path))

theorem requestFor_cases (s : RefreshSettings) (path : Path) :
    (∃ request, CallsFor s path request ∧ requestFor s path = .ok (some request)) ∨
      (Unasked s path (.ok .skipped) ∧ requestFor s path = .ok none) ∨
      ∃ e, Unasked s path (.error e) ∧ requestFor s path = .error e := by
  by_cases hcovered : s.autoRefreshOnSave = true ∧ Covered path s.mode
  · rcases hcovered with ⟨hauto, hextension⟩
    have hrequest := requestFor_of_covered hauto hextension
    cases hexecutable : s.executable.isEmpty with
    | true =>
      rw [hexecutable, if_pos rfl] at hrequest
      exact .inr (.inr ⟨_, .notConfigured hauto hextension hexecutable, hrequest⟩)
    | false =>
      rw [hexecutable, if_neg Bool.false_ne_true] at hrequest
      cases hmode : s.mode with
      | all =>
        rw [hmode] at hrequest hextension
        exact .inl ⟨.all, ⟨hauto, hmode, hextension, hexecutable⟩, hrequest⟩
      | specific =>
        rw [hmode] at hrequest
        cases hconfig : configOf path with
        | ok config =>
          rw [hmode] at hextension
          have hcalls : CallsFor s path (.target config) :=
            ⟨hauto, hmode, hextension, hexecutable, configOf_eq_ok_iff.mp hconfig⟩
          exact .inl ⟨_, hcalls, hcalls.requestFor_eq⟩
        | error e =>
          rcases configOf_eq_error_iff.mp hconfig with ⟨rfl, hnone⟩
          rw [hconfig] at hrequest
          exact .inr (.inr ⟨_, .outsideSkins hauto hextension hmode hexecutable hnone, hrequest⟩)
  · have hnone := requestFor_of_uncovered fun hauto hextension => hcovered ⟨hauto, hextension⟩
    exact .inr (.inl ⟨.skipped hcovered, hnone⟩)

end Requests

section Saves

variable {σ : Type} {s : RefreshSettings} {engine : Engine σ} {path : Path} {state : σ}
  {request : Request} {log : List Request}

def recording (engine : Engine σ) : Engine (σ × List Request) := fun request (state, log) =>
  ((engine request state).1, (engine request state).2, log ++ [request])

def asked (s : RefreshSettings) (engine : Engine σ) (path : Path) (state : σ) : List Request :=
  (onSave s (recording engine) path (state, [])).2.2

theorem onSave_of_callsFor (h : CallsFor s path request) : onSave s engine path state =
    ((engine request state).1.map fun _ => .refreshed request, (engine request state).2) := by
  simp only [onSave, h.requestFor_eq]
  rcases engine request state with ⟨_ | _, _⟩ <;> rfl

theorem onSave_of_no_request (h : ∀ request, ¬CallsFor s path request) :
    ∃ result, Unasked s path result ∧
      ∀ {σ : Type} (engine : Engine σ) (state : σ),
        onSave s engine path state = (result, state) := by
  rcases requestFor_cases s path with ⟨request, hcalls, -⟩ | ⟨hunasked, hnone⟩ | ⟨e, hunasked, he⟩
  · exact absurd hcalls (h request)
  · exact ⟨_, hunasked, fun engine state => by rw [onSave, hnone]⟩
  · exact ⟨_, hunasked, fun engine state => by rw [onSave, he]⟩

theorem asked_of_callsFor (h : CallsFor s path request) :
    asked s engine path state = [request] := by
  rw [asked, onSave_of_callsFor h]
  rfl

theorem asked_of_no_request (h : ∀ request, ¬CallsFor s path request) :
    asked s engine path state = [] := by
  rcases onSave_of_no_request h with ⟨result, -, hresult⟩
  rw [asked, hresult]

/-- Writing the requests down changes nothing else. -/
theorem onSave_recording : onSave s (recording engine) path (state, log) =
    ((onSave s engine path state).1, (onSave s engine path state).2,
      log ++ asked s engine path state) := by
  by_cases hcalls : ∃ request, CallsFor s path request
  · rcases hcalls with ⟨request, hcalls⟩
    rw [onSave_of_callsFor hcalls, onSave_of_callsFor hcalls, asked_of_callsFor hcalls]
    rfl
  · rw [not_exists] at hcalls
    rcases onSave_of_no_request hcalls with ⟨result, -, hresult⟩
    rw [hresult, hresult, asked_of_no_request hcalls, List.append_nil]

theorem onSave_cases (s : RefreshSettings) (engine : Engine σ) (path : Path) (state : σ) :
    (asked s engine path state = [] ∧ Unasked s path (onSave s engine path state).1) ∨
    ∃ request, asked s engine path state = [request] ∧ CallsFor s path request ∧
      (onSave s engine path state).1 =
        (engine request state).1.map fun _ => .refreshed request := by
  by_cases hcalls : ∃ request, CallsFor s path request
  · rcases hcalls with ⟨request, hcalls⟩
    exact .inr ⟨request, asked_of_callsFor hcalls, hcalls, by rw [onSave_of_callsFor hcalls]⟩
  · rw [not_exists] at hcalls
    rcases onSave_of_no_request hcalls with ⟨result, hunasked, hresult⟩
    left
    rw [hresult]
    exact ⟨asked_of_no_request hcalls, hunasked⟩

theorem mem_asked_iff : request ∈ asked s engine path state ↔ CallsFor s path request := by
  constructor
  · intro hrequest
    rcases onSave_cases s engine path state with ⟨hasked, -⟩ | ⟨request', hasked, hcalls, -⟩
    · simp [hasked] at hrequest
    · obtain rfl : request = request' := by simpa [hasked] using hrequest
      exact hcalls
  · intro hcalls
    simp [asked_of_callsFor hcalls]

theorem asked_of_refreshed (h : (onSave s engine path state).1 = .ok (.refreshed request)) :
    asked s engine path state = [request] ∧ (engine request state).1 = .ok () := by
  rcases onSave_cases s engine path state with ⟨-, hunasked⟩ | ⟨request', hasked, -, houtcome⟩
  · rw [h] at hunasked
    cases hunasked
  · rw [h] at houtcome
    cases hanswer : (engine request' state).1 with
    | error e =>
      rw [hanswer] at houtcome
      cases houtcome
    | ok answer =>
      rw [hanswer] at houtcome
      cases houtcome
      exact ⟨hasked, hanswer⟩

theorem asked_of_skipped (h : (onSave s engine path state).1 = .ok .skipped) :
    asked s engine path state = [] := by
  rcases onSave_cases s engine path state with ⟨hasked, -⟩ | ⟨request, -, -, houtcome⟩
  · exact hasked
  · rw [h] at houtcome
    cases hanswer : (engine request state).1 <;> rw [hanswer] at houtcome <;> cases houtcome

theorem asked_of_error {e : Error} (h : (onSave s engine path state).1 = .error e) :
    asked s engine path state = [] ∨
      ∃ request ∈ asked s engine path state, (engine request state).1 = .error e := by
  rcases onSave_cases s engine path state with ⟨hasked, -⟩ | ⟨request, hasked, -, houtcome⟩
  · exact .inl hasked
  · rw [h] at houtcome
    cases hanswer : (engine request state).1 with
    | ok answer =>
      rw [hanswer] at houtcome
      cases houtcome
    | error e' =>
      rw [hanswer] at houtcome
      cases houtcome
      exact .inr ⟨request, by simp [hasked], hanswer⟩

/-- A save asks the engine for what it calls for, once, and for nothing else. The engine's answer is
the outcome, and a save that asks for nothing says why. Errors of the engine are passed on as they
are: an error comes from a save that asked for nothing, unless the engine gave it. -/
theorem save_asks_what_it_calls_for (s : RefreshSettings) (engine : Engine σ) (path : Path)
    (state : σ) :
    let run := onSave s (recording engine) path (state, [])
    let requests := run.2.2
    let outcome := (onSave s engine path state).1
    (run.1, run.2.1) = onSave s engine path state ∧ requests.length ≤ 1 ∧
      (∀ request, request ∈ requests ↔ CallsFor s path request) ∧
      ((∃ config, IsConfig path config) ↔
        ∃ before behind, MarkBetween "\\skins\\".toList (backslashed path) before behind) ∧
      (∀ request, outcome = .ok (.refreshed request) →
        requests = [request] ∧ (engine request state).1 = .ok ()) ∧
      (∀ request ∈ requests,
        outcome = (engine request state).1.map fun _ => .refreshed request) ∧
      (outcome = .ok .skipped → requests = []) ∧
      (∀ e, outcome = .error e →
        requests = [] ∨ ∃ request ∈ requests, (engine request state).1 = .error e) ∧
      (requests = [] → Unasked s path outcome) := by
  intro run requests outcome
  have hrequests : requests = asked s engine path state := rfl
  have hcases := onSave_cases s engine path state
  rw [hrequests]
  refine ⟨?_, ?_, fun _ => mem_asked_iff, exists_isConfig_iff, fun _ => asked_of_refreshed, ?_,
    asked_of_skipped, fun _ => asked_of_error, ?_⟩
  · exact congrArg (fun run => (run.1, run.2.1)) onSave_recording
  · rcases hcases with ⟨hasked, -⟩ | ⟨request, hasked, -⟩ <;> simp [hasked]
  · intro request hrequest
    exact congrArg Prod.fst (onSave_of_callsFor (mem_asked_iff.mp hrequest))
  · intro hnone
    rcases hcases with ⟨-, hunasked⟩ | ⟨request, hasked, -⟩
    · exact hunasked
    · simp [hasked] at hnone

/-- A file below two skins folders, with both slashes in its path, is refreshed with the folders
below the first one; an engine that fails has its say; a sound is no skin. -/
theorem save_asks_what_it_calls_for_nested :
    let s : RefreshSettings := { mode := .specific }
    let path := Path.ofString "C:/Rainmeter/SKINS\\My.Skin (v2)/skins\\Main.INI"
    let config := "MySkin v2\\skins".toList
    let request := Request.target config
    let failure := Error.refreshTargetFailed config "exit 1"
    let sound := Path.ofString "C:/Rainmeter/Skins/a/b.wav"
    let works : Engine Nat := fun _ calls => (.ok (), calls + 1)
    let fails : Engine Nat := fun _ calls => (.error failure, calls + 1)
    ((onSave s works path 0).1 = .ok (.refreshed request) ∧ asked s works path 0 = [request]) ∧
    (request ∈ asked s fails path 0 ∧ (onSave s fails path 0).1 = .error failure) ∧
    ((onSave s works sound 0).1 = .ok .skipped ∧ asked s works sound 0 = []) := by
  intro s path config request failure sound works fails
  have hrefreshed : (onSave s works path 0).1 = .ok (.refreshed request) := by decide
  have hrequest : request ∈ asked s fails path 0 := by decide
  have hskipped : (onSave s works sound 0).1 = .ok .skipped := by decide
  have hworks := save_asks_what_it_calls_for s works path 0
  have hfails := save_asks_what_it_calls_for s fails path 0
  have hsound := save_asks_what_it_calls_for s works sound 0
  exact ⟨⟨hrefreshed, (hworks.2.2.2.2.1 request hrefreshed).1⟩,
    ⟨hrequest, hfails.2.2.2.2.2.1 request hrequest⟩,
    ⟨hskipped, hsound.2.2.2.2.2.2.1 hskipped⟩⟩

end Saves

end SkinLint.Refresh
