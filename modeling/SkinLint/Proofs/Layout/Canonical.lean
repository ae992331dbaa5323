import Mathlib.Data.List.Forall2
import SkinLint.Proofs.Layout

/-!
# Texts in their layout

A text is in its layout when its lines are: they have no blanks at their ends and none around the
`=` of a pair, and an empty line stands in front of every header but a first line, and nowhere
else. Formatting yields such texts and leaves them as they are. A line says the same before and
after, whatever its kind, so no content gets lost on the way.
-/
namespace SkinLint.Layout
open Text LineKind Document

section Fixed

/-- The empty lines are those with a header right below them. -/
def Spaced (ls : List Text) : Prop :=
  ∀ i l, ls[i]? = some l → (l = [] ↔ ∃ next ∈ ls[i + 1]?, isHeader next)

structure InLayout (ls : List Text) : Prop where
  newline : ∀ l ∈ ls, '\n' ∉ l
  trimmed : ∀ l ∈ ls, Trimmed l
  pair : ∀ l ∈ ls, ∀ key value,
    classify l = .keyValue key value ∨ classify l = .inclusion key value → l = key ++ '=' :: value
  first : ∃ l ∈ ls.head?, l ≠ []
  spaced : Spaced ls

theorem spaced_cons_iff (l : Text) (rest : List Text) :
    Spaced (l :: rest) ↔ (l = [] ↔ ∃ next ∈ rest.head?, isHeader next) ∧ Spaced rest := by
  constructor
  · intro h
    constructor
    · simpa [List.head?_eq_getElem?] using h 0 l rfl
    · intro i l' hl'
      simpa using h (i + 1) l' hl'
  · rintro ⟨hfirst, hrest⟩ i l' hl'
    cases i with
    | zero =>
      obtain rfl : l = l' := by simpa using hl'
      simpa [List.head?_eq_getElem?] using hfirst
    | succ i => simpa using hrest i l' (by simpa using hl')

theorem isHeader_nil : isHeader [] = false := rfl

/-- A line is in its layout if it has no blanks at its ends and none around the `=` of its pair. -/
theorem laid?_eq_self_iff (l : Text) : laid? l = some l ↔ l ≠ [] ∧ Trimmed l ∧ ∀ key value,
    classify l = .keyValue key value ∨ classify l = .inclusion key value →
      l = key ++ '=' :: value := by
  constructor
  · intro h
    refine ⟨laid_ne_nil h, trimmed_laid h, fun key value hk => ?_⟩
    unfold laid? at h
    rcases hk with hk | hk
    · simpa [hk] using h.symm
    · simpa [hk] using h.symm
  · rintro ⟨hne, htrimmed, hpair⟩
    unfold laid?
    split
    · rename_i hblank
      rw [classify_eq_blank_iff, trim_of_trimmed htrimmed] at hblank
      exact absurd hblank hne
    · rename_i key value hk
      rw [← hpair key value (.inl hk)]
    · rename_i key value hk
      rw [← hpair key value (.inr hk)]
    · rw [trim_of_trimmed htrimmed]

theorem head?_arrange_true (ls : List Text) : [] ∉ (arrange true ls).head? := by
  induction ls with
  | nil => simp [arrange]
  | cons t rest ih =>
    cases h : laid? t with
    | none => rwa [arrange_cons_blank true rest h]
    | some l => simp [arrange, place_of_laid true h, laid_ne_nil h]

/-- Below another line a header does not come first: an empty line does. -/
theorem head?_arrange_false (ls : List Text) :
    ¬∃ next ∈ (arrange false ls).head?, isHeader next := by
  induction ls with
  | nil => simp [arrange]
  | cons t rest ih =>
    cases h : laid? t with
    | none => rwa [arrange_cons_blank false rest h]
    | some l =>
      rw [arrange, place_of_laid false h]
      by_cases hheader : isHeader t
      · simp [hheader, isHeader_nil]
      · simp [hheader, isHeader_laid h]

theorem spaced_arrange (first : Bool) (ls : List Text) : Spaced (arrange first ls) := by
  induction ls generalizing first with
  | nil => simp [Spaced, arrange]
  | cons t rest ih =>
    cases h : laid? t with
    | none =>
      rw [arrange_cons_blank first rest h]
      exact ih first
    | some l =>
      -- Below `l` no header comes next without an empty line, so `l` is rightly not empty.
      have hbelow : Spaced (l :: arrange false rest) := by
        rw [spaced_cons_iff]
        exact ⟨iff_of_false (laid_ne_nil h) (head?_arrange_false rest), ih false⟩
      rw [arrange, place_of_laid first h]
      split
      · rename_i hheader
        have hl : isHeader l := by
          rw [isHeader_laid h]
          exact (Bool.and_eq_true_iff.mp hheader).1
        simp only [List.isEmpty_cons, Bool.and_false, List.cons_append, List.nil_append]
        rw [spaced_cons_iff]
        exact ⟨iff_of_true rfl ⟨l, rfl, hl⟩, hbelow⟩
      · simpa using hbelow

/-- Lines in their layout stay in place below another line, where a header among them that comes
first gets an empty line. -/
theorem arrange_false_of_spaced {ls : List Text} (h : Spaced ls)
    (hlaid : ∀ l ∈ ls, l ≠ [] → laid? l = some l) :
    arrange false ls = if ∃ next ∈ ls.head?, isHeader next then [] :: ls else ls := by
  induction ls with
  | nil => simp [arrange]
  | cons l rest ih =>
    rw [spaced_cons_iff] at h
    have hrest := ih h.2 fun l' hl' => hlaid l' (List.mem_cons_of_mem _ hl')
    by_cases hl : l = []
    -- The empty line goes, and comes back with the header below it.
    · rw [hl, arrange_cons_blank false rest laid?_nil, hrest, if_pos (h.1.mp hl)]
      simp [isHeader_nil]
    · rw [if_neg (mt h.1.mpr hl)] at hrest
      rw [arrange, place_of_laid false (hlaid l List.mem_cons_self hl)]
      by_cases hheader : isHeader l
      · simp [hheader, hrest]
      · simp [hheader, hrest]

theorem InLayout.laid {ls : List Text} (h : InLayout ls) {l : Text} (hl : l ∈ ls) (hne : l ≠ []) :
    laid? l = some l :=
  (laid?_eq_self_iff l).mpr ⟨hne, h.trimmed l hl, h.pair l hl⟩

theorem InLayout.arrange_eq {ls : List Text} (h : InLayout ls) : arrange true ls = ls := by
  rcases h.first with ⟨l, hhead, hne⟩
  cases ls with
  | nil => simp at hhead
  | cons l' rest =>
    obtain rfl : l' = l := by simpa using hhead
    have hspaced := (spaced_cons_iff l' rest).mp h.spaced
    have hrest := arrange_false_of_spaced hspaced.2 fun l hl =>
      h.laid (List.mem_cons_of_mem _ hl)
    rw [if_neg (mt hspaced.1.mpr hne)] at hrest
    simp [arrange, place_of_laid true (h.laid List.mem_cons_self hne), hrest]

theorem inLayout_arrange {text : Text} (hne : arrange true (splitLines text) ≠ []) :
    InLayout (arrange true (splitLines text)) where
  newline _ hl := newline_notMem_of_mem_arrange hl
  trimmed _ hl := trimmed_of_mem_arrange hl
  pair l hl key value hk := by
    rcases mem_arrange hl with rfl | ⟨t, -, ht⟩
    · rcases hk with hk | hk <;> cases hk
    · exact ((laid?_eq_self_iff l).mp (laid?_laid ht)).2.2 key value hk
  first := by
    rcases List.exists_cons_of_ne_nil hne with ⟨l, rest, hcons⟩
    have hhead := head?_arrange_true (splitLines text)
    rw [hcons] at hhead ⊢
    exact ⟨l, rfl, fun hnil => hhead (by simp [hnil])⟩
  spaced := spaced_arrange true _

theorem InLayout.format_eq {ls : List Text} (h : InLayout ls) :
    format (ls.flatMap (· ++ ['\n'])) = ls.flatMap (· ++ ['\n']) := by
  have hlines := splitLines_flatMap_newline h.newline h.trimmed
  have harrange : arrange true (splitLines (ls.flatMap (· ++ ['\n']))) = ls := by
    rw [hlines, arrange_concat_nil]
    exact h.arrange_eq
  have hne : ls ≠ [] := by
    rintro rfl
    rcases h.first with ⟨l, hl, -⟩
    simp at hl
  rw [format_eq_flatMap (by rwa [harrange]), harrange]

/-- Formatting a text twice is formatting it once, and the texts that it leaves as they are, are the
single newline and those whose lines are in their layout, each closed by a newline. -/
theorem format_projects_onto_layout (text : Text) :
    format (format text) = format text ∧
    (format text = text ↔
      text = ['\n'] ∨ ∃ ls, InLayout ls ∧ text = ls.flatMap (· ++ ['\n'])) := by
  refine ⟨format_format text, ?_, ?_⟩
  · intro h
    by_cases hnil : arrange true (splitLines text) = []
    · left
      rw [← h, format, hnil]
      rfl
    · right
      exact ⟨_, inLayout_arrange hnil, h.symm.trans (format_eq_flatMap hnil)⟩
  · rintro (rfl | ⟨ls, hls, rfl⟩)
    · rfl
    · exact hls.format_eq

end Fixed

section Content

/-- What a line says: its kind, and its text if the kind does not hold any. -/
def content (t : Text) : LineKind × Text :=
  match classify t with
  | .comment => (.comment, trim t)
  | .openHeader => (.openHeader, trim t)
  | .malformed => (.malformed, trim t)
  | kind => (kind, [])

theorem content_laid {t l : Text} (h : laid? t = some l) : content l = content t := by
  have hkind := classify_laid h
  rcases laid?_cases h with ⟨key, value, -, -, hpair, -⟩ | ⟨rfl, -⟩
  · unfold content
    rw [hkind, hpair]
    rcases ofPair_eq_cases key value with ho | ho <;> rw [ho]
  · unfold content
    rw [hkind, trim_trim]

theorem map_content_filterMap_laid? (ls : List Text) :
    (ls.filterMap laid?).map content = (ls.filter fun t => classify t != .blank).map content := by
  have h := (forall₂_filterMap_laid? ls).imp fun t l hlaid => (content_laid hlaid).symm
  rw [eq_comm, ← List.forall₂_eq_eq_eq, List.forall₂_map_left_iff, List.forall₂_map_right_iff]
  exact h

/-- The lines of a text that are not blank say the same in its layout, in the same order. -/
theorem format_keeps_content (text : Text) :
    ((lines (format text)).filter fun l => l.kind != .blank).map (fun l => content l.text) =
      ((lines text).filter fun l => l.kind != .blank).map (fun l => content l.text) := by
  have htexts (t : Text) :
      ((lines t).filter fun l => l.kind != .blank).map (fun l => content l.text) =
        ((splitLines t).filter fun line => classify line != .blank).map content := by
    rw [← map_text_lines, List.filter_map, List.map_map]
    rfl
  rw [htexts, htexts, filter_splitLines_format, map_content_filterMap_laid?]

end Content

end SkinLint.Layout
