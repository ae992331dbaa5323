import Mathlib.Data.Nat.Find
import Mathlib.Order.Bounds.Basic
import SkinLint.Proofs.Fold

/-!
# Sections and the lines below their headers

A filled line that is no header belongs to the nearest header above it. A section can be folded if
some line belongs to its header, and the fold ends on the last of these lines. So the folds of a
document follow one another, and each line that belongs to a header lies in the fold of that header
and in no other.
-/
namespace SkinLint.Fold
open Text Document

section Lines

abbrev isHeaderAt (ls : List Text) (n : Nat) : Bool := lineIs isHeader ls n

abbrev isFilledAt (ls : List Text) (n : Nat) : Bool := lineIs (fun t => !t.isEmpty) ls n

/-- The filled line `n` is no header, and `h` is the nearest header above it. -/
structure Belongs (ls : List Text) (h n : Nat) : Prop where
  header : isHeaderAt ls h = true
  lt : h < n
  filled : isFilledAt ls n = true
  nearest : ∀ m, h < m → m ≤ n → isHeaderAt ls m = false

variable {ls : List Text} {h h' n : Nat}

theorem Belongs.header_unique (hn : Belongs ls h n) (hn' : Belongs ls h' n) : h = h' := by
  rcases Nat.lt_trichotomy h h' with hlt | rfl | hlt
  · have := hn.nearest h' hlt hn'.lt.le
    rw [hn'.header] at this
    cases this
  · rfl
  · have := hn'.nearest h hlt hn.lt.le
    rw [hn.header] at this
    cases this

theorem exists_belongs (hfilled : isFilledAt ls n = true) (hn : isHeaderAt ls n = false)
    (hh : isHeaderAt ls h = true) (hlt : h < n) : ∃ h, Belongs ls h n := by
  refine ⟨Nat.findGreatest (fun m => isHeaderAt ls m = true) (n - 1), ?_, ?_, hfilled, ?_⟩
  · exact Nat.findGreatest_spec (P := fun m => isHeaderAt ls m = true) (Nat.le_pred_of_lt hlt) hh
  · have hle := Nat.findGreatest_le (P := fun m => isHeaderAt ls m = true) (n - 1)
    omega
  · intro m hm hmn
    obtain rfl | hmn := Nat.eq_or_lt_of_le hmn
    · exact hn
    · exact Bool.eq_false_iff.2 (Nat.findGreatest_is_greatest hm (Nat.le_pred_of_lt hmn))

end Lines

section Ending

variable {index : Nat} {ls : List Text}

theorem isFilledAt_eq_false (h : lastFilled? index ls = none) (m : Nat) :
    isFilledAt ls m = false := by
  induction ls generalizing index m with
  | nil => rfl
  | cons t rest ih =>
    rw [lastFilled?, Option.or_eq_none_iff] at h
    cases m with
    | zero => simpa [lineIs] using h.2
    | succ m => exact ih h.1 m

theorem exists_of_lastFilled? {n : Nat} (h : lastFilled? index ls = some n) :
    ∃ k, n = index + k ∧ IsGreatest {m | isFilledAt ls m = true} k := by
  induction ls generalizing index with
  | nil => cases h
  | cons t rest ih =>
    rw [lastFilled?, Option.or_eq_some_iff] at h
    obtain hbelow | ⟨hnone, hself⟩ := h
    · obtain ⟨k, rfl, hk, hlast⟩ := ih hbelow
      refine ⟨k + 1, by omega, hk, ?_⟩
      intro m hm
      cases m with
      | zero => exact Nat.zero_le _
      | succ m => exact Nat.succ_le_succ (hlast hm)
    · split at hself
      next => cases hself
      next hne =>
        obtain rfl := Option.some.inj hself
        refine ⟨0, rfl, ?_, ?_⟩
        · simpa [lineIs] using hne
        · intro m hm
          cases m with
          | zero => exact le_rfl
          | succ m =>
            have hrest := isFilledAt_eq_false hnone m
            exact absurd (hrest.symm.trans hm) (by decide)

end Ending

section Cutting

variable {index : Nat} {ls : List Text} {span : Span}

theorem isFilledAt_upToHeader_iff (ls : List Text) (k : Nat) :
    isFilledAt (upToHeader ls) k = true ↔
      isFilledAt ls k = true ∧ ∀ m ≤ k, isHeaderAt ls m = false := by
  induction ls generalizing k with
  | nil => simp [upToHeader, lineIs]
  | cons t rest ih =>
    by_cases ht : isHeader (trim t) = true
    · have hstop : upToHeader (t :: rest) = [] := by simp [upToHeader, ht]
      rw [hstop]
      refine iff_of_false (by simp [lineIs]) ?_
      rintro ⟨-, hnone⟩
      have hself : isHeader (trim t) = false := hnone 0 (Nat.zero_le k)
      rw [ht] at hself
      cases hself
    · have hnext : upToHeader (t :: rest) = t :: upToHeader rest := by simp [upToHeader, ht]
      rw [hnext]
      cases k with
      | zero => simpa [lineIs] using fun _ => ht
      | succ k =>
        refine (ih k).trans ?_
        constructor
        · rintro ⟨hfilled, hnone⟩
          refine ⟨hfilled, ?_⟩
          intro m hm
          cases m with
          | zero => exact Bool.eq_false_iff.2 ht
          | succ m => exact hnone m (Nat.le_of_succ_le_succ hm)
        · rintro ⟨hfilled, hnone⟩
          exact ⟨hfilled, fun m hm => hnone (m + 1) (Nat.succ_le_succ hm)⟩

theorem sections_suffix (index : Nat) (above rest : List Text) :
    sections (index + above.length) rest <:+ sections index (above ++ rest) := by
  induction above generalizing index with
  | nil => exact List.suffix_rfl
  | cons t above ih =>
    rw [List.cons_append, sections_cons, List.length_cons, Nat.add_comm above.length, ← Nat.add_assoc]
    exact (ih (index + 1)).trans (List.suffix_append _ _)

/-- A fold starts at a header and ends on the last filled line before the next one. -/
theorem exists_of_mem_sections (h : span ∈ sections index ls) : ∃ above t below,
    ls = above ++ t :: below ∧ isHeader (trim t) = true ∧ span.start = index + above.length ∧
      lastFilled? (index + above.length + 1) (upToHeader below) = some span.stop := by
  induction ls generalizing index with
  | nil => cases h
  | cons t rest ih =>
    obtain hself | hbelow := mem_sections_cons.1 h
    · obtain ⟨ht, hstop, hstart, -⟩ := sectionAt?_eq_some_iff.1 hself
      exact ⟨[], t, rest, rfl, ht, hstart, hstop⟩
    · obtain ⟨above, u, below, rfl, hu, hstart, hstop⟩ := ih hbelow
      have hlen : index + (t :: above).length = index + 1 + above.length := by
        rw [List.length_cons]
        omega
      exact ⟨t :: above, u, below, rfl, hu, hlen ▸ hstart, hlen ▸ hstop⟩

theorem mem_sections_of_header {above below : List Text} {t : Text} {stop : Nat}
    (ht : isHeader (trim t) = true)
    (hstop : lastFilled? (above.length + 1) (upToHeader below) = some stop) :
    (⟨above.length, stop, .sectionFold⟩ : Span) ∈ sections 0 (above ++ t :: below) := by
  apply (sections_suffix 0 above (t :: below)).subset
  rw [Nat.zero_add]
  exact mem_sections_cons.2 (.inl (sectionAt?_eq_some_iff.2 ⟨ht, hstop, rfl, rfl⟩))

theorem pairwise_start_sections : (sections index ls).Pairwise fun a b => a.start < b.start := by
  induction ls generalizing index with
  | nil => exact .nil
  | cons t rest ih =>
    rw [sections_cons, List.pairwise_append]
    refine ⟨?_, ih, ?_⟩
    · cases sectionAt? index t rest <;> simp
    · intro a ha b hb
      obtain ⟨-, -, hfirst, -⟩ := sectionAt?_eq_some_iff.1 (Option.mem_toList.1 ha)
      obtain ⟨above, -, -, -, -, hstart, -⟩ := exists_of_mem_sections hb
      omega

theorem belongs_append_iff {above below : List Text} {t : Text} (ht : isHeader (trim t) = true)
    (k : Nat) : Belongs (above ++ t :: below) above.length (above.length + 1 + k) ↔
      isFilledAt (upToHeader below) k = true := by
  have hline (test : Text → Bool) (m : Nat) :
      lineIs test (above ++ t :: below) (above.length + 1 + m) = lineIs test below m := by
    rw [lineIs, Nat.add_assoc, List.getElem?_append_right (Nat.le_add_right _ _),
      Nat.add_sub_cancel_left, Nat.add_comm 1, List.getElem?_cons_succ]
    rfl
  rw [isFilledAt_upToHeader_iff]
  constructor
  · intro hk
    refine ⟨(hline _ k).symm.trans hk.filled, ?_⟩
    intro m hm
    exact (hline _ m).symm.trans (hk.nearest _ (by omega) (by omega))
  · rintro ⟨hfilled, hnone⟩
    refine ⟨by simpa [lineIs] using ht, by omega, (hline _ k).trans hfilled, ?_⟩
    intro m hm hmk
    obtain ⟨m, rfl⟩ := Nat.exists_eq_add_of_le hm
    exact (hline _ m).trans (hnone m (by omega))

/-- A fold reaches from its header to the last line that belongs to it. -/
theorem isGreatest_of_mem_sections (h : span ∈ sections 0 ls) :
    IsGreatest {n | Belongs ls span.start n} span.stop := by
  obtain ⟨above, t, below, rfl, ht, hstart, hstop⟩ := exists_of_mem_sections h
  rw [Nat.zero_add] at hstart hstop
  obtain ⟨k, hk, hfilled, hlast⟩ := exists_of_lastFilled? hstop
  rw [hstart, hk]
  refine ⟨(belongs_append_iff ht k).2 hfilled, ?_⟩
  intro n hn
  obtain ⟨m, rfl⟩ := Nat.exists_eq_add_of_le (Nat.succ_le_of_lt hn.lt)
  have hle := hlast ((belongs_append_iff ht m).1 hn)
  omega

theorem exists_mem_sections {h n : Nat} (hn : Belongs ls h n) :
    ∃ s ∈ sections 0 ls, s.start = h := by
  obtain ⟨above, t, below, rfl, rfl, ht⟩ := exists_append_of_lineIs hn.header
  obtain ⟨m, rfl⟩ := Nat.exists_eq_add_of_le (Nat.succ_le_of_lt hn.lt)
  have hfilled := (belongs_append_iff ht m).1 hn
  cases hstop : lastFilled? (above.length + 1) (upToHeader below) with
  | none =>
    rw [isFilledAt_eq_false hstop m] at hfilled
    cases hfilled
  | some stop => exact ⟨_, mem_sections_of_header ht hstop, rfl⟩

end Cutting

section Folds

variable {ls : List Text} {h n : Nat} {s s' : Span}

theorem eq_of_start_eq (hs : s ∈ sections 0 ls) (hs' : s' ∈ sections 0 ls)
    (hstart : s.start = s'.start) : s = s' := by
  have hlast := isGreatest_of_mem_sections hs
  rw [hstart] at hlast
  have hstop := hlast.unique (isGreatest_of_mem_sections hs')
  have hkind := (kind_of_mem_sections hs).trans (kind_of_mem_sections hs').symm
  obtain ⟨start, stop, kind⟩ := s
  obtain ⟨start', stop', kind'⟩ := s'
  rw [Span.mk.injEq]
  exact ⟨hstart, hstop, hkind⟩

theorem pairwise_sections : (sections 0 ls).Pairwise fun a b => a.stop < b.start := by
  refine pairwise_start_sections.imp_of_mem ?_
  intro a b ha hb hlt
  by_contra hle
  have hnone := (isGreatest_of_mem_sections ha).1.nearest b.start hlt (Nat.not_lt.1 hle)
  rw [(isGreatest_of_mem_sections hb).1.header] at hnone
  cases hnone

/-- A fold around a line that is no header is that of the nearest header above the line. -/
theorem belongs_of_mem_sections (hs : s ∈ sections 0 ls) (hfilled : isFilledAt ls n = true)
    (hn : isHeaderAt ls n = false) (hstart : s.start ≤ n) (hstop : n ≤ s.stop) :
    Belongs ls s.start n := by
  have hlast := (isGreatest_of_mem_sections hs).1
  refine ⟨hlast.header, ?_, hfilled, fun m hm hmn => hlast.nearest m hm (hmn.trans hstop)⟩
  refine Nat.lt_of_le_of_ne hstart ?_
  rintro rfl
  rw [hlast.header] at hn
  cases hn

/-- The folds of the sections divide up what stands below the headers. They follow one another; each
reaches from a header to a filled line above the next header, and there is one if there is such a
line. A filled line below the first header that is no header itself lies in the fold of the nearest
header above it and in no other. -/
theorem sections_divide_body (text : Text) :
    let ls := splitLines text
    let found := spansOf .sectionFold text
    found.Pairwise (fun a b => a.stop < b.start) ∧
    (∀ s ∈ found, isHeaderAt ls s.start = true ∧ s.start < s.stop ∧ isFilledAt ls s.stop = true ∧
      ∀ m, s.start < m → m ≤ s.stop → isHeaderAt ls m = false) ∧
    (∀ h, isHeaderAt ls h = true → ((∃ s ∈ found, s.start = h) ↔ ∃ n, h < n ∧
      isFilledAt ls n = true ∧ ∀ m, h < m → m ≤ n → isHeaderAt ls m = false)) ∧
    ∀ n h, isFilledAt ls n = true → isHeaderAt ls n = false → isHeaderAt ls h = true → h < n →
      ∃ s ∈ found, s.start < n ∧ n ≤ s.stop ∧
        (∀ m, s.start < m → m < n → isHeaderAt ls m = false) ∧
        ∀ s' ∈ found, s'.start ≤ n → n ≤ s'.stop → s' = s := by
  intro ls found
  have hfound : found = sections 0 ls := spansOf_sectionFold text
  rw [hfound]
  refine ⟨pairwise_sections, ?_, ?_, ?_⟩
  · intro s hs
    have hstop := (isGreatest_of_mem_sections hs).1
    exact ⟨hstop.header, hstop.lt, hstop.filled, hstop.nearest⟩
  · intro h hh
    constructor
    · rintro ⟨s, hs, rfl⟩
      have hstop := (isGreatest_of_mem_sections hs).1
      exact ⟨s.stop, hstop.lt, hstop.filled, hstop.nearest⟩
    · rintro ⟨n, hlt, hfilled, hnearest⟩
      exact exists_mem_sections ⟨hh, hlt, hfilled, hnearest⟩
  · intro n h hfilled hn hh hlt
    obtain ⟨h, hbelongs⟩ := exists_belongs hfilled hn hh hlt
    obtain ⟨s, hs, rfl⟩ := exists_mem_sections hbelongs
    refine ⟨s, hs, hbelongs.lt, (isGreatest_of_mem_sections hs).2 hbelongs,
      fun m hm hmn => hbelongs.nearest m hm hmn.le, ?_⟩
    intro s' hs' hstart hstop
    have hbelongs' := belongs_of_mem_sections hs' hfilled hn hstart hstop
    exact eq_of_start_eq hs' hs (hbelongs'.header_unique hbelongs)

/-- Text above the first header, a blank line within a section, and a header with nothing below it. -/
theorem sections_divide_body_around_empty :
    let text := "x=1\n[A]\na=1\n\nb=2\n\n[B] ; empty\n[C]\nc=3\n".toList
    let ls := splitLines text
    let found : List Span := [⟨1, 4, .sectionFold⟩, ⟨7, 8, .sectionFold⟩]
    spansOf .sectionFold text = found ∧
      (isHeaderAt ls 6 = true ∧ ¬∃ n, 6 < n ∧ isFilledAt ls n = true ∧
        ∀ m, 6 < m → m ≤ n → isHeaderAt ls m = false) ∧
      (isFilledAt ls 4 = true ∧ isHeaderAt ls 4 = false ∧ isHeaderAt ls 1 = true ∧
        ∃ s ∈ found, s.start < 4 ∧ 4 ≤ s.stop ∧
          (∀ m, s.start < m → m < 4 → isHeaderAt ls m = false) ∧
          ∀ s' ∈ found, s'.start ≤ 4 → 4 ≤ s'.stop → s' = s) := by
  intro text ls found
  have hfound : spansOf .sectionFold text = found := by decide +kernel
  have hfilled : isFilledAt ls 4 = true := by decide +kernel
  have hplain : isHeaderAt ls 4 = false := by decide +kernel
  have hfirst : isHeaderAt ls 1 = true := by decide +kernel
  have hempty : isHeaderAt ls 6 = true := by decide +kernel
  obtain ⟨-, -, hfolded, hline⟩ := sections_divide_body text
  rw [hfound] at hfolded hline
  refine ⟨hfound, ⟨hempty, ?_⟩, hfilled, hplain, hfirst, ?_⟩
  · rw [← hfolded 6 hempty]
    decide
  · exact hline 4 1 hfilled hplain hfirst (by decide)

end Folds

end SkinLint.Fold
