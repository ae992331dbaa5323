import Mathlib.Data.List.Forall2
import SkinLint.Fold
import SkinLint.Proofs.Layout

/-!
# Folding a formatted document

Folding passes over blank lines, and of the others it looks at the trimmed text alone: at headers
and at markers, which a layout leaves as they are. So a text and its layout fold alike, if lines are
counted without the blank ones.
-/
namespace SkinLint.Fold
open Text LineKind Layout Document

def isFilled (t : Text) : Bool := !(trim t).isEmpty

/-- The number of filled lines above a line, which is the number of that line among them. -/
def filledBefore (lines : List Text) (n : Nat) : Nat := (lines.take n).countP isFilled

def Span.renumber (f : Nat → Nat) (s : Span) : Span := ⟨f s.start, f s.stop, s.kind⟩

theorem isFilled_eq_false_iff (t : Text) : isFilled t = false ↔ trim t = [] := by
  simp [isFilled]

def lineIs (test : Text → Bool) (ls : List Text) (n : Nat) : Bool := ls[n]?.any fun t => test (trim t)

theorem lineIs_iff (test : Text → Bool) (ls : List Text) (n : Nat) :
    lineIs test ls n = true ↔ ∃ t, ls[n]? = some t ∧ test (trim t) = true := by
  simp [lineIs, Option.any_eq_true]

theorem exists_append_of_lineIs {test : Text → Bool} {ls : List Text} {n : Nat}
    (h : lineIs test ls n = true) :
    ∃ above t below, ls = above ++ t :: below ∧ above.length = n ∧ test (trim t) = true := by
  obtain ⟨t, hget, ht⟩ := (lineIs_iff test ls n).1 h
  refine ⟨ls.take n, t, ls.drop (n + 1), eq_take_append_cons_drop hget, ?_, ht⟩
  rw [List.length_take, Nat.min_eq_left (List.getElem?_eq_some_iff.1 hget).1.le]

section Counting

/-- Going down some lines, `f` goes up by one behind each filled line. -/
def Counts (f : Nat → Nat) : Nat → List Text → Prop
  | _, [] => True
  | index, t :: rest =>
    f (index + 1) = (if isFilled t then f index + 1 else f index) ∧ Counts f (index + 1) rest

theorem Counts.of_isPrefix {f : Nat → Nat} {index : Nat} {ls ls' : List Text} (hp : ls <+: ls')
    (h : Counts f index ls') : Counts f index ls := by
  induction ls generalizing index ls' with
  | nil => trivial
  | cons t rest ih =>
    obtain ⟨behind, rfl⟩ := hp
    exact ⟨h.1, ih (List.prefix_append rest behind) h.2⟩

theorem counts_filledBefore (above lines : List Text) :
    Counts (filledBefore (above ++ lines)) above.length lines := by
  induction lines generalizing above with
  | nil => trivial
  | cons t rest ih =>
    have hrest := ih (above ++ [t])
    rw [List.append_assoc, List.singleton_append, List.length_append, List.length_singleton] at hrest
    refine ⟨?_, hrest⟩
    have hbehind : (above ++ t :: rest).take (above.length + 1) = above ++ [t] := by
      rw [List.take_length_add_append]
      rfl
    rw [filledBefore, filledBefore, hbehind, List.take_left, List.countP_append]
    by_cases ht : isFilled t <;> simp [ht]

theorem map_lastFilled? {f : Nat → Nat} {index : Nat} {ls : List Text} (h : Counts f index ls) :
    (lastFilled? index ls).map f = lastFilled? (f index) (ls.filter isFilled) := by
  induction ls generalizing index with
  | nil => rfl
  | cons t rest ih =>
    obtain ⟨hnext, hrest⟩ := h
    have hbelow := ih hrest
    by_cases ht : isFilled t
    · rw [if_pos ht] at hnext
      have hne : (trim t).isEmpty = false := by simpa [isFilled] using ht
      rw [List.filter_cons_of_pos ht, lastFilled?, lastFilled?, hne, ← hnext, ← hbelow]
      cases lastFilled? (index + 1) rest <;> rfl
    · rw [if_neg ht] at hnext
      have hempty : (trim t).isEmpty = true := by simpa [isFilled] using ht
      rw [List.filter_cons_of_neg ht, lastFilled?, hempty, ← hnext, ← hbelow]
      cases lastFilled? (index + 1) rest <;> rfl

theorem not_header_of_blank {t : Text} (h : isFilled t = false) : isHeader (trim t) = false := by
  rw [(isFilled_eq_false_iff t).1 h]
  rfl

theorem filter_takeWhile_header (ls : List Text) :
    (ls.takeWhile fun u => !isHeader (trim u)).filter isFilled =
      (ls.filter isFilled).takeWhile fun u => !isHeader (trim u) := by
  induction ls with
  | nil => rfl
  | cons t rest ih =>
    by_cases ht : isFilled t
    · by_cases hheader : isHeader (trim t) <;> simp [ht, hheader, ih]
    · have hplain := not_header_of_blank (by simpa using ht)
      simp [ht, hplain, ih]

/-- Sections are those of the filled lines, under their numbers. -/
theorem map_sections {f : Nat → Nat} {index : Nat} {ls : List Text} (h : Counts f index ls) :
    (sections index ls).map (Span.renumber f) = sections (f index) (ls.filter isFilled) := by
  induction ls generalizing index with
  | nil => rfl
  | cons t rest ih =>
    obtain ⟨hnext, hrest⟩ := h
    have hbelow := ih hrest
    by_cases ht : isFilled t
    · rw [if_pos ht] at hnext
      have hstop := map_lastFilled?
        (hrest.of_isPrefix (List.takeWhile_prefix fun u => !isHeader (trim u)))
      rw [filter_takeWhile_header] at hstop
      rw [List.filter_cons_of_pos ht, sections, sections, List.map_append, ← hnext, ← hbelow, ← hstop]
      congr 1
      split
      · cases lastFilled? (index + 1) (rest.takeWhile fun u => !isHeader (trim u)) <;> rfl
      · rfl
    · rw [if_neg ht] at hnext
      have hplain := not_header_of_blank (by simpa using ht)
      rw [List.filter_cons_of_neg ht, sections, hplain, ← hnext, ← hbelow]
      rfl

/-- A marker begins a region, or ends the one begun last. -/
theorem regions_cons (index : Nat) (pending : List Nat) (t : Text) (rest : List Text) :
    regions index pending (t :: rest) =
      if opensRegion (trim t) then regions (index + 1) (index :: pending) rest
      else if closesRegion (trim t) then
        pending.head?.toList.map (⟨·, index, .region⟩) ++ regions (index + 1) pending.tail rest
      else regions (index + 1) pending rest := by
  cases pending <;> rfl

/-- Regions are those of the filled lines, under their numbers. -/
theorem map_regions {f : Nat → Nat} {index : Nat} {pending : List Nat} {ls : List Text}
    (h : Counts f index ls) : (regions index pending ls).map (Span.renumber f) =
      regions (f index) (pending.map f) (ls.filter isFilled) := by
  induction ls generalizing index pending with
  | nil => rfl
  | cons t rest ih =>
    obtain ⟨hnext, hrest⟩ := h
    by_cases ht : isFilled t
    · rw [if_pos ht] at hnext
      rw [List.filter_cons_of_pos ht, regions_cons, regions_cons, ← hnext, ← List.map_cons,
        ← List.map_tail, List.head?_map, ← ih hrest, ← ih hrest, ← ih hrest]
      split
      · rfl
      · split
        · cases pending <;> rfl
        · rfl
    · rw [if_neg ht] at hnext
      have hempty : trim t = [] := by simpa [isFilled] using ht
      have hopens : opensRegion [] = false := rfl
      have hcloses : closesRegion [] = false := rfl
      rw [List.filter_cons_of_neg ht, regions_cons, hempty, hopens, hcloses, ← hnext]
      exact ih hrest

end Counting

section Ends

/-- A filled line, by its number among lines numbered from `index`. -/
def FilledAt (index : Nat) (ls : List Text) (n : Nat) : Prop :=
  ∃ i t, n = index + i ∧ ls[i]? = some t ∧ isFilled t

variable {index n : Nat} {t : Text} {ls rest : List Text}

theorem filledAt_cons_self (ht : isFilled t) : FilledAt index (t :: rest) index :=
  ⟨0, t, rfl, rfl, ht⟩

theorem FilledAt.cons (h : FilledAt (index + 1) rest n) : FilledAt index (t :: rest) n := by
  obtain ⟨i, u, rfl, hu, hfilled⟩ := h
  exact ⟨i + 1, u, by omega, hu, hfilled⟩

theorem FilledAt.of_isPrefix {ls' : List Text} (hp : ls <+: ls') (h : FilledAt index ls n) :
    FilledAt index ls' n := by
  obtain ⟨i, t, rfl, ht, hfilled⟩ := h
  obtain ⟨behind, rfl⟩ := hp
  refine ⟨i, t, rfl, ?_, hfilled⟩
  rw [List.getElem?_append_left (List.getElem?_eq_some_iff.1 ht).1, ht]

theorem filledAt_lastFilled? (h : lastFilled? index ls = some n) : FilledAt index ls n := by
  induction ls generalizing index with
  | nil => cases h
  | cons t rest ih =>
    rw [lastFilled?, Option.or_eq_some_iff] at h
    obtain hbelow | ⟨-, hself⟩ := h
    · exact (ih hbelow).cons
    · split at hself
      next => cases hself
      next hne =>
        obtain rfl := Option.some.inj hself
        exact filledAt_cons_self (by simpa [isFilled] using hne)

/-- A line that is told from a blank one has something on it. -/
theorem isFilled_of_trim {test : Text → Bool} (hnil : test [] = false) (h : test (trim t)) :
    isFilled t := by
  by_contra hblank
  rw [Bool.not_eq_true, isFilled_eq_false_iff] at hblank
  rw [hblank, hnil] at h
  cases h

theorem filledAt_sections {span : Span} (h : span ∈ sections index ls) :
    FilledAt index ls span.start ∧ FilledAt index ls span.stop := by
  induction ls generalizing index with
  | nil => cases h
  | cons t rest ih =>
    rw [sections, List.mem_append] at h
    obtain hself | hbelow := h
    · split at hself
      next hheader =>
        split at hself
        next stop hstop =>
          obtain rfl := List.mem_singleton.1 hself
          have hinit := List.takeWhile_prefix (l := rest) fun u => !isHeader (trim u)
          exact ⟨filledAt_cons_self (isFilled_of_trim rfl hheader),
            ((filledAt_lastFilled? hstop).of_isPrefix hinit).cons⟩
        next => cases hself
      next => cases hself
    · obtain ⟨hstart, hstop⟩ := ih hbelow
      exact ⟨hstart.cons, hstop.cons⟩

theorem filledAt_regions {pending : List Nat} {span : Span} (h : span ∈ regions index pending ls) :
    (span.start ∈ pending ∨ FilledAt index ls span.start) ∧ FilledAt index ls span.stop := by
  induction ls generalizing index pending with
  | nil => cases h
  | cons t rest ih =>
    rw [regions_cons] at h
    split at h
    next hopens =>
      obtain ⟨hstart, hstop⟩ := ih h
      refine ⟨?_, hstop.cons⟩
      obtain hpending | hstart := hstart
      · obtain hself | hpending := List.mem_cons.1 hpending
        · exact .inr (hself ▸ filledAt_cons_self (isFilled_of_trim rfl hopens))
        · exact .inl hpending
      · exact .inr hstart.cons
    next =>
      split at h
      next hcloses =>
        obtain hself | hbelow := List.mem_append.1 h
        · obtain ⟨start, hfirst, rfl⟩ := List.mem_map.1 hself
          have hmem := List.mem_of_head? (Option.mem_toList.1 hfirst)
          exact ⟨.inl hmem, filledAt_cons_self (isFilled_of_trim rfl hcloses)⟩
        · obtain ⟨hstart, hstop⟩ := ih hbelow
          exact ⟨hstart.imp List.mem_of_mem_tail FilledAt.cons, hstop.cons⟩
      next =>
        obtain ⟨hstart, hstop⟩ := ih h
        exact ⟨hstart.imp_right FilledAt.cons, hstop.cons⟩

end Ends

section Kinds

def spansOf (kind : Kind) (text : Text) : List Span := (spans text).filter fun s => s.kind = kind

theorem mem_spansOf_iff {kind : Kind} {text : Text} {span : Span} :
    span ∈ spansOf kind text ↔ span ∈ spans text ∧ span.kind = kind := by
  simp [spansOf]

def upToHeader (ls : List Text) : List Text := ls.takeWhile fun t => !isHeader (trim t)

/-- The section that starts on the line `t`, which has the number `index` and `rest` below it. -/
def sectionAt? (index : Nat) (t : Text) (rest : List Text) : Option Span :=
  if isHeader (trim t) then
    (lastFilled? (index + 1) (upToHeader rest)).map (⟨index, ·, .sectionFold⟩)
  else none

theorem sections_cons (index : Nat) (t : Text) (rest : List Text) :
    sections index (t :: rest) =
      (sectionAt? index t rest).toList ++ sections (index + 1) rest := by
  rw [sections, sectionAt?, upToHeader]
  split
  · cases lastFilled? (index + 1) (rest.takeWhile fun u => !isHeader (trim u)) <;> rfl
  · rfl

theorem sectionAt?_eq_some_iff {index : Nat} {t : Text} {rest : List Text} {span : Span} :
    sectionAt? index t rest = some span ↔ isHeader (trim t) = true ∧
      lastFilled? (index + 1) (upToHeader rest) = some span.stop ∧ span.start = index ∧
      span.kind = .sectionFold := by
  rw [sectionAt?]
  split
  next ht =>
    rw [Option.map_eq_some_iff]
    constructor
    · rintro ⟨stop, hstop, rfl⟩
      exact ⟨ht, hstop, rfl, rfl⟩
    · rintro ⟨-, hstop, rfl, hkind⟩
      exact ⟨span.stop, hstop, by rw [← hkind]⟩
  next ht => simp [ht]

theorem mem_sections_cons {index : Nat} {t : Text} {rest : List Text} {span : Span} :
    span ∈ sections index (t :: rest) ↔
      sectionAt? index t rest = some span ∨ span ∈ sections (index + 1) rest := by
  rw [sections_cons, List.mem_append, Option.mem_toList]

variable {index : Nat} {ls : List Text} {span : Span}

theorem kind_of_mem_sections (h : span ∈ sections index ls) : span.kind = .sectionFold := by
  induction ls generalizing index with
  | nil => cases h
  | cons t rest ih =>
    obtain hself | hbelow := mem_sections_cons.1 h
    · exact (sectionAt?_eq_some_iff.1 hself).2.2.2
    · exact ih hbelow

theorem kind_of_mem_regions {pending : List Nat} (h : span ∈ regions index pending ls) :
    span.kind = .region := by
  induction ls generalizing index pending with
  | nil => cases h
  | cons t rest ih =>
    rw [regions_cons] at h
    split at h
    next => exact ih h
    next =>
      split at h
      next =>
        obtain hself | hbelow := List.mem_append.1 h
        · obtain ⟨start, -, rfl⟩ := List.mem_map.1 hself
          rfl
        · exact ih hbelow
      next => exact ih h

theorem spansOf_sectionFold (text : Text) :
    spansOf .sectionFold text = sections 0 (splitLines text) := by
  rw [spansOf, spans, List.filter_append, List.filter_eq_self.2, List.filter_eq_nil_iff.2,
    List.append_nil]
  · intro span hspan
    rw [kind_of_mem_regions hspan]
    decide
  · intro span hspan
    rw [kind_of_mem_sections hspan]
    decide

theorem spansOf_region (text : Text) :
    spansOf .region text = regions 0 [] (splitLines text) := by
  rw [spansOf, spans, List.filter_append, List.filter_eq_nil_iff.2, List.filter_eq_self.2,
    List.nil_append]
  · intro span hspan
    rw [kind_of_mem_regions hspan]
    decide
  · intro span hspan
    rw [kind_of_mem_sections hspan]
    decide

end Kinds

section Laying

/-- Lines that folding cannot tell apart. -/
structure Alike (t u : Text) : Prop where
  empty : (trim u).isEmpty = (trim t).isEmpty
  header : isHeader (trim u) = isHeader (trim t)
  opens : opensRegion (trim u) = opensRegion (trim t)
  closes : closesRegion (trim u) = closesRegion (trim t)

theorem head?_of_isHeader {t : Text} (h : isHeader t) : t.head? = some '[' := by
  unfold isHeader at h
  split at h
  · rfl
  · cases h

theorem head?_of_isMarker {tag t : Text} (h : isMarker tag t) : t.head? = some ';' := by
  unfold isMarker at h
  split at h
  · rfl
  · cases h

/-- A line that starts with neither of the two marks is no header and no marker. -/
theorem alike_of_head? {t u : Text} (hsame : (trim u).head? = (trim t).head?)
    (hcomment : (trim u).head? ≠ some ';') (hbracket : (trim u).head? ≠ some '[') : Alike t u := by
  have hheader (v : Text) (hv : v.head? = (trim u).head?) : isHeader v = false := by
    by_contra h
    exact hbracket (hv ▸ head?_of_isHeader (by simpa using h))
  have hmarker (tag v : Text) (hv : v.head? = (trim u).head?) : isMarker tag v = false := by
    by_contra h
    exact hcomment (hv ▸ head?_of_isMarker (by simpa using h))
  constructor
  · rw [Bool.eq_iff_iff, List.isEmpty_iff, List.isEmpty_iff, ← List.head?_eq_none_iff, hsame,
      List.head?_eq_none_iff]
  · rw [hheader _ rfl, hheader _ hsame.symm]
  · rw [opensRegion, opensRegion, hmarker _ _ rfl, hmarker _ _ hsame.symm]
  · rw [closesRegion, closesRegion, hmarker _ _ rfl, hmarker _ _ hsame.symm]

theorem alike_of_laid {t l : Text} (h : laid? t = some l) : Alike t l := by
  have hlaid := trim_of_trimmed (trimmed_laid h)
  have hhead : l.head? = (trim t).head? := (head?_laid h).trans (head?_trim t).symm
  rcases laid?_cases h with ⟨key, value, hpair, -, -, hl⟩ | ⟨rfl, -⟩
  · have hkey : l.head? = key.head? := by rw [hl, List.head?_append_of_ne_nil _ hpair.key_ne_nil]
    apply alike_of_head?
    · rw [hlaid, hhead]
    · rw [hlaid, hkey]
      exact hpair.key_comment
    · rw [hlaid, hkey]
      exact hpair.key_bracket
  · constructor <;> rw [hlaid]

variable {index : Nat} {ls ls' : List Text} (h : List.Forall₂ Alike ls ls')
include h

theorem lastFilled?_alike : lastFilled? index ls = lastFilled? index ls' := by
  induction h generalizing index with
  | nil => rfl
  | cons hself _ ih => rw [lastFilled?, lastFilled?, ih, hself.empty]

theorem forall₂_takeWhile_header :
    List.Forall₂ Alike (ls.takeWhile fun u => !isHeader (trim u))
      (ls'.takeWhile fun u => !isHeader (trim u)) := by
  induction h with
  | nil => exact .nil
  | cons hself _ ih =>
    rw [List.takeWhile_cons, List.takeWhile_cons, hself.header]
    split
    · exact .cons hself ih
    · exact .nil

theorem sections_alike : sections index ls = sections index ls' := by
  induction h generalizing index with
  | nil => rfl
  | cons hself hrest ih =>
    rw [sections, sections, ih, hself.header, lastFilled?_alike (forall₂_takeWhile_header hrest)]

theorem regions_alike {pending : List Nat} : regions index pending ls = regions index pending ls' := by
  induction h generalizing index pending with
  | nil => rfl
  | cons hself _ ih =>
    rw [regions_cons, regions_cons, hself.opens, hself.closes, ih, ih, ih]

end Laying

/-- The parts that can be folded, by the numbers of their lines among the filled ones. -/
def filledSpans (text : Text) : List Span :=
  (spans text).map (Span.renumber (filledBefore (splitLines text)))

/-- The filled lines alone decide what can be folded. -/
theorem filledSpans_eq (text : Text) : filledSpans text =
    sections 0 ((splitLines text).filter isFilled) ++
      regions 0 [] ((splitLines text).filter isFilled) := by
  have hcounts : Counts (filledBefore (splitLines text)) 0 (splitLines text) :=
    counts_filledBefore [] (splitLines text)
  rw [filledSpans, spans, List.map_append, map_sections hcounts, map_regions hcounts]
  rfl

theorem forall₂_alike (text : Text) :
    List.Forall₂ Alike ((splitLines text).filter isFilled)
      ((splitLines (format text)).filter isFilled) := by
  have hfilled : (fun t => classify t != .blank) = isFilled := by
    funext t
    rw [Bool.eq_iff_iff, bne_iff_ne, Ne, classify_eq_blank_iff, isFilled]
    simp
  have hlaid := forall₂_filterMap_laid? (splitLines text)
  rw [← filter_splitLines_format, hfilled] at hlaid
  exact hlaid.imp fun _ _ => alike_of_laid

/-- A part that can be folded starts and ends on filled lines, and a text and its layout have the
same ones, in the same order and of the same kinds, if only filled lines are counted. -/
theorem format_keeps_folds (text : Text) :
    (∀ span ∈ spans text, FilledAt 0 (splitLines text) span.start ∧
      FilledAt 0 (splitLines text) span.stop) ∧
    (spans text).map (Span.renumber (filledBefore (splitLines text))) =
      (spans (format text)).map (Span.renumber (filledBefore (splitLines (format text)))) := by
  constructor
  · intro span hspan
    obtain hsection | hregion := List.mem_append.1 hspan
    · exact filledAt_sections hsection
    · obtain ⟨hstart, hstop⟩ := filledAt_regions hregion
      exact ⟨hstart.resolve_left (by simp), hstop⟩
  · calc filledSpans text
      _ = _ := filledSpans_eq text
      _ = sections 0 ((splitLines (format text)).filter isFilled) ++
          regions 0 [] ((splitLines (format text)).filter isFilled) := by
        rw [sections_alike (forall₂_alike text), regions_alike (forall₂_alike text)]
      _ = filledSpans (format text) := (filledSpans_eq _).symm

end SkinLint.Fold
