import SkinLint.Proofs.Validation.Blocks
import SkinLint.Proofs.Validation.Order

/-!
# How far an edit is seen

Every pass reads a document from its first line on, so what is reported above a line does not depend
on what stands below it; only sections that are missing are a matter of the whole document. Lines
that hold neither a header nor a pair leave every pass in the state it was in, so emptying one takes
away what was reported on it and nothing else.
-/
namespace SkinLint.Validation
open Text Document

section Below

/-- Does a finding lie on the first `n` lines, and is it about them? What is missing is placed in
front of everything but is about the whole document. -/
def Above (n : Nat) (r : Rule) (range : Range) : Prop :=
  range.start.line < n ∧ r ≠ .missingRainmeter ∧ r ≠ .missingVariables

instance (n : Nat) (r : Rule) (range : Range) : Decidable (Above n r range) :=
  inferInstanceAs (Decidable (_ ∧ _))

/-- What is found above a line does not depend on the lines below it. -/
theorem filter_breaches_append (s : ValidationSettings) (m : MeterSettings) (c : InclusionContext)
    (xs : List Line) {ys : List Line} {n : Nat} (hys : ∀ l ∈ ys, n ≤ l.index) :
    (breaches s m c (xs ++ ys)).filter (fun b => Above n b.rule b.range) =
      (breaches s m c xs).filter (fun b => Above n b.rule b.range) := by
  have hline : ∀ b : Breach, decide (Above n b.rule b.range) = true → b.range.start.line < n :=
    fun b hb => (of_decide_eq_true hb).1
  have hmissing : ∀ b : Breach, decide (Above n b.rule b.range) = true →
      b.rule ≠ .missingRainmeter ∧ b.rule ≠ .missingVariables :=
    fun b hb => (of_decide_eq_true hb).2
  simp only [breaches, List.filter_append, List.filter_flatMap, lineBreaches_eq_found,
    meterBreaches_eq_found, filter_missing_eq_nil hmissing,
    Pass.filter_found_append (step_onLine s c) hys hline,
    Pass.filter_found_append (meterStep_onLine _ _) hys hline]

variable (s : ValidationSettings) (m : MeterSettings) (present : Path → Bool) (document : Path)

/-- The reports on the first `n` lines of a text, those of missing sections apart. -/
def reportsAbove (n : Nat) (text : Text) : List Diagnostic :=
  (validate s m present document text).filter fun d => Above n d.rule d.range

/-- What is reported above a newline is what is reported on the text above it alone. -/
theorem reportsAbove_append (above below : Text) :
    reportsAbove s m present document (splitLines above).length (above ++ '\n' :: below) =
      reportsAbove s m present document (splitLines above).length above := by
  obtain ⟨ls, hlines, hls⟩ := lines_append (dropMark above) below
  rw [length_splitLines_dropMark] at hls
  rw [reportsAbove, reportsAbove, filter_validate (Above _), filter_validate (Above _),
    dropMark_append, hlines, filter_breaches_append s m _ _ hls]

/-- An edit is not seen above it: texts that agree down to a line have the same reports down to that
line, save for the sections that are missing from the whole. -/
theorem edit_unseen_above (above below below' : Text) :
    reportsAbove s m present document (splitLines above).length (above ++ '\n' :: below) =
      reportsAbove s m present document (splitLines above).length (above ++ '\n' :: below') := by
  rw [reportsAbove_append, reportsAbove_append]

end Below

section Emptied

/-- The kinds of lines that hold nothing for a pass to remember. -/
def inertKinds : List LineKind := [.malformed, .openHeader, .comment]

def unreadableRules : List Rule := [.malformedKeyValue, .unterminatedSection]

def UnreadableAt (i : Nat) (r : Rule) (range : Range) : Prop :=
  r ∈ unreadableRules ∧ range.start.line = i

instance (i : Nat) (r : Rule) (range : Range) : Decidable (UnreadableAt i r range) :=
  inferInstanceAs (Decidable (_ ∧ _))

variable {s : ValidationSettings} {c : InclusionContext} {l : Line}

theorem step_of_inert (hk : l.kind ∈ inertKinds) (state : State) :
    (step s c state l).1 = state ∧ (step s c state l).2.length ≤ 1 ∧
      ∀ b ∈ (step s c state l).2, b.rule ∈ unreadableRules := by
  simp only [inertKinds, List.mem_cons, List.not_mem_nil, or_false] at hk
  rcases hk with hk | hk | hk <;> simp [step, hk, unreadableRules]

theorem meterStep_of_inert (hk : l.kind ∈ inertKinds) (m : Meter) (keys : List Text)
    (block : Block) : meterStep m keys block l = (block, []) := by
  simp only [inertKinds, List.mem_cons, List.not_mem_nil, or_false] at hk
  rcases hk with hk | hk | hk <;> exact meterStep_other (by simp [hk]) (by simp [hk])

theorem step_empty (i : Nat) (state : State) : step s c state ⟨i, []⟩ = (state, []) := rfl

theorem meterStep_empty (m : Meter) (keys : List Text) (i : Nat) (block : Block) :
    meterStep m keys block ⟨i, []⟩ = (block, []) := rfl

/-- When such a line is emptied, what was found on it goes and everything else stays. -/
theorem breaches_set (m : MeterSettings) {ls : List Line} (hn : Pass.Numbered ls) {i : Nat}
    (hl : ls[i]? = some l) (hk : l.kind ∈ inertKinds) :
    breaches s m c (ls.set i ⟨i, []⟩) =
      (breaches s m c ls).filter (fun b => ¬ UnreadableAt i b.rule b.range) := by
  have hother : ∀ b : Breach, b.range.start.line ≠ i →
      decide (¬ UnreadableAt i b.rule b.range) = true := by
    intro b hb
    simp [UnreadableAt, hb]
  have hhere : ∀ state, ∀ b ∈ (step s c state l).2,
      decide (¬ UnreadableAt i b.rule b.range) = false := by
    intro state b hb
    have hline := step_onLine s c state l b hb
    rw [hn i l hl] at hline
    simp [UnreadableAt, hline, (step_of_inert hk state).2.2 b hb]
  obtain ⟨hafter, hfound⟩ := Pass.found_set (step_onLine s c) hn hl
    (fun state => (step_of_inert hk state).1) (step_empty i) hother hhere {}
  have hmissing (state : Sections) :
      state.missing.filter (fun b => ¬ UnreadableAt i b.rule b.range) = state.missing := by
    rw [List.filter_eq_self]
    intro b hb
    rcases (of_mem_missing hb).1 with hr | hr <;> simp [UnreadableAt, unreadableRules, hr]
  have hmeter (meter : Meter) (keys : List Text) :
      Pass.found (meterStep meter keys) .outside (ls.set i ⟨i, []⟩) =
        (Pass.found (meterStep meter keys) .outside ls).filter
          (fun b => ¬ UnreadableAt i b.rule b.range) := by
    refine (Pass.found_set (meterStep_onLine meter keys) hn hl ?_
      (meterStep_empty meter keys i) hother ?_ _).2
    · intro block
      rw [meterStep_of_inert hk]
    · intro block b hb
      simp [meterStep_of_inert hk] at hb
  simp only [breaches, lineBreaches_eq_found, run_eq_after, meterBreaches_eq_found, hafter, hfound,
    hmeter, List.filter_append, List.filter_flatMap, hmissing]

theorem length_unreadable_le_one (s : ValidationSettings) (m : MeterSettings)
    (present : Path → Bool) (document : Path) {text : Text} {i : Nat}
    (hl : (lines (dropMark text))[i]? = some l) (hk : l.kind ∈ inertKinds) :
    ((validate s m present document text).filter
      (fun d => UnreadableAt i d.rule d.range)).length ≤ 1 := by
  have hperm := perm_reportsUnder (R := (· ∈ unreadableRules)) (s := s) m present document
    (by decide) hl
  calc
    _ = _ := hperm.length_eq
    _ ≤ _ := List.length_filterMap_le _ _
    _ ≤ _ := List.length_filter_le _ _
    _ ≤ 1 := (step_of_inert hk _).2.1

/-- A line that is malformed, that opens a header without closing it or that is a comment is not
seen on other lines: when it is emptied, the one report on it goes, if there is one, and all others
stay as they are and in their order. -/
theorem emptied_line_unseen (s : ValidationSettings) (m : MeterSettings) (present : Path → Bool)
    (document : Path) (text : Text) {i : Nat} (hmark : text.head? ≠ some mark)
    (hl : (lines text)[i]? = some l)
    (hk : l.kind = .malformed ∨ l.kind = .openHeader ∨ l.kind = .comment) :
    splitLines (emptyLine i text) = (splitLines text).set i [] ∧
    ((validate s m present document text).filter
      (fun d => UnreadableAt i d.rule d.range)).length ≤ 1 ∧
    ∀ text', splitLines text' = (splitLines text).set i [] →
      validate s m present document text' =
        (validate s m present document text).filter
          (fun d => ¬ UnreadableAt i d.rule d.range) := by
  have hinert : l.kind ∈ inertKinds := by simpa [inertKinds] using hk
  have hdrop := dropMark_of_head? hmark
  refine ⟨splitLines_emptyLine i text, ?_, ?_⟩
  · exact length_unreadable_le_one s m present document (hdrop.symm ▸ hl) hinert
  · intro text' htext
    have hdrop' := dropMark_of_head? (head?_ne_mark_of_set hmark htext)
    rw [filter_validate (fun r range => ¬ UnreadableAt i r range), validate, hdrop, hdrop',
      lines_of_splitLines_set htext, breaches_set m (Pass.numbered_lines text) hl hinert]

/-- A malformed first line starts where missing sections are reported. -/
theorem emptied_line_unseen_first :
    let text := "broken\r\n[A]\nkey=1\nKEY=2".toList
    let found := validate {} {} (fun _ => false) ⟨"a.ini".toList⟩
    text.head? ≠ some mark ∧ (lines text)[0]? = some ⟨0, "broken".toList⟩ ∧
      LineKind.classify "broken".toList = .malformed ∧
      emptyLine 0 text = "\r\n[A]\nkey=1\nKEY=2".toList ∧
      found (emptyLine 0 text) =
        (found text).filter (fun d => ¬ UnreadableAt 0 d.rule d.range) := by
  intro text found
  have hmark : text.head? ≠ some mark := by decide
  have hl : (lines text)[0]? = some ⟨0, "broken".toList⟩ := by decide
  have hk : LineKind.classify "broken".toList = .malformed := by decide
  obtain ⟨hlines, -, hfound⟩ := emptied_line_unseen {} {} (fun _ => false) ⟨"a.ini".toList⟩
    text hmark hl (.inl hk)
  exact ⟨hmark, hl, hk, by decide, hfound _ hlines⟩

end Emptied

end SkinLint.Validation
