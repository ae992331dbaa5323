import SkinLint.Layout
import SkinLint.Proofs.Document

/-!
# The layout of a document

A line in its layout has the kind and the characters of the line it was made from, and laying it
out again changes nothing. So the lines of a formatted text are those of the text, with blank lines
in other places, and a second run finds nothing to do.
-/
namespace SkinLint.Layout
open Text LineKind Document

theorem laid?_eq_none_iff (t : Text) : laid? t = none ↔ classify t = .blank := by
  unfold laid?
  split <;> simp_all

theorem laid?_cases {t l : Text} (h : laid? t = some l) :
    (∃ key value, IsPair key value ∧ pair? (trim t) = some (key, value) ∧
      classify t = ofPair key value ∧ l = key ++ '=' :: value) ∨
    (l = trim t ∧ classify t ≠ .blank ∧ ∀ key value,
      classify t ≠ .keyValue key value ∧ classify t ≠ .inclusion key value) := by
  unfold laid? at h
  split at h
  · simp at h
  · rename_i key value hk
    obtain ⟨hpair, hp, ho⟩ := isPair_of_classify (.inl hk)
    exact .inl ⟨key, value, hpair, hp, hk ▸ ho, (Option.some.inj h).symm⟩
  · rename_i key value hk
    obtain ⟨hpair, hp, ho⟩ := isPair_of_classify (.inr hk)
    exact .inl ⟨key, value, hpair, hp, hk ▸ ho, (Option.some.inj h).symm⟩
  · rename_i hb hkv hin
    exact .inr ⟨(Option.some.inj h).symm, hb, fun key value => ⟨hkv key value, hin key value⟩⟩

theorem classify_laid {t l : Text} (h : laid? t = some l) : classify l = classify t := by
  rcases laid?_cases h with ⟨key, value, hpair, -, hk, rfl⟩ | ⟨rfl, -⟩
  · rw [hpair.classify, hk]
  · exact classify_trim t

theorem trimmed_laid {t l : Text} (h : laid? t = some l) : Trimmed l := by
  rcases laid?_cases h with ⟨key, value, hpair, -, -, rfl⟩ | ⟨rfl, -⟩
  · exact hpair.trimmed
  · exact trimmed_trim t

theorem laid_ne_nil {t l : Text} (h : laid? t = some l) : l ≠ [] := by
  rintro rfl
  have hb : classify t = .blank := (classify_laid h).symm
  rw [(laid?_eq_none_iff t).mpr hb] at h
  simp at h

theorem laid?_laid {t l : Text} (h : laid? t = some l) : laid? l = some l := by
  have hk := classify_laid h
  rcases laid?_cases h with ⟨key, value, -, -, ho, hl⟩ | ⟨-, hb, hn⟩
  · unfold laid?
    rw [hk, ho]
    rcases ofPair_eq_cases key value with h' | h' <;> simp [h', hl]
  · unfold laid?
    rw [hk, trim_of_trimmed (trimmed_laid h)]
    split
    · rename_i hc
      exact absurd hc hb
    · rename_i key value hc
      exact absurd hc (hn key value).1
    · rename_i key value hc
      exact absurd hc (hn key value).2
    · rfl

theorem mem_of_mem_laid {c : Char} {t l : Text} (h : laid? t = some l) (hc : c ∈ l) : c ∈ t := by
  rcases laid?_cases h with ⟨key, value, -, hp, -, rfl⟩ | ⟨rfl, -⟩
  · obtain ⟨before, after, ht, -, rfl, rfl, -⟩ := (pair?_eq_some_iff _ _ _).mp hp
    apply mem_of_mem_trim
    rw [ht]
    rw [List.mem_append, List.mem_cons] at hc ⊢
    exact hc.imp mem_of_mem_trim (Or.imp id mem_of_mem_trim)
  · exact mem_of_mem_trim hc

theorem head?_laid {t l : Text} (h : laid? t = some l) : l.head? = (trimStart t).head? := by
  rw [← head?_trim]
  rcases laid?_cases h with ⟨key, value, hpair, hp, -, rfl⟩ | ⟨rfl, -⟩
  · rw [List.head?_append_of_ne_nil _ hpair.key_ne_nil, head?_of_pair? (trimmed_trim t) hp]
  · rfl

theorem isHeader_laid {t l : Text} (h : laid? t = some l) : isHeader l = isHeader t := by
  unfold isHeader
  rw [classify_laid h]

theorem laid?_dropReturn (t : Text) : laid? (dropReturn t) = laid? t := by
  unfold laid?
  rw [classify_dropReturn, trim_dropReturn]

theorem place_of_blank {t : Text} (first : Bool) (h : laid? t = none) : place first t = [] := by
  simp [place, h]

theorem place_of_laid {t l : Text} (first : Bool) (h : laid? t = some l) :
    place first t = if isHeader t && !first then [[], l] else [l] := by
  simp [place, h]

theorem place_dropReturn (first : Bool) (t : Text) : place first (dropReturn t) = place first t := by
  unfold place isHeader
  rw [laid?_dropReturn, classify_dropReturn]

theorem arrange_map_dropReturn (first : Bool) (ls : List Text) :
    arrange first (ls.map dropReturn) = arrange first ls := by
  induction ls generalizing first with
  | nil => rfl
  | cons t rest ih => rw [List.map_cons, arrange, arrange, place_dropReturn, ih]

theorem arrange_append (first : Bool) (xs ys : List Text) :
    arrange first (xs ++ ys) =
      arrange first xs ++ arrange (first && (arrange first xs).isEmpty) ys := by
  induction xs generalizing first with
  | nil => simp [arrange]
  | cons t rest ih =>
    rw [List.cons_append, arrange, ih, arrange, List.append_assoc]
    cases place first t <;> simp

theorem arrange_cons_blank {t : Text} (first : Bool) (rest : List Text) (h : laid? t = none) :
    arrange first (t :: rest) = arrange first rest := by
  rw [arrange, place_of_blank first h]
  simp

theorem laid?_nil : laid? [] = none := rfl

theorem arrange_arrange (first : Bool) (ls : List Text) :
    arrange first (arrange first ls) = arrange first ls := by
  induction ls generalizing first with
  | nil => rfl
  | cons t rest ih =>
    cases h : laid? t with
    | none => rw [arrange_cons_blank first rest h, ih]
    | some l =>
      rw [arrange, place_of_laid first h]
      by_cases hh : (isHeader t && !first) = true
      · obtain ⟨hheader, hfirst⟩ := by simpa using hh
        subst hfirst
        rw [if_pos hh, List.cons_append, List.cons_append, List.nil_append,
          arrange_cons_blank _ _ laid?_nil, arrange, place_of_laid _ (laid?_laid h),
          isHeader_laid h, if_pos hh]
        simp [ih]
      · rw [if_neg hh, List.cons_append, List.nil_append, arrange, place_of_laid _ (laid?_laid h),
          isHeader_laid h, if_neg hh]
        simp [ih]

/-- Apart from blank lines, a text in its layout consists of its lines in theirs. -/
theorem filter_arrange (first : Bool) (ls : List Text) :
    (arrange first ls).filter (fun l => !l.isEmpty) = ls.filterMap laid? := by
  induction ls generalizing first with
  | nil => rfl
  | cons t rest ih =>
    rw [arrange, List.filter_append, ih, List.filterMap_cons]
    cases h : laid? t with
    | none => simp [place_of_blank first h]
    | some l =>
      rw [place_of_laid first h]
      have hl := laid_ne_nil h
      split <;> simp [hl]

theorem mem_arrange {l : Text} {first : Bool} {ls : List Text} (h : l ∈ arrange first ls) :
    l = [] ∨ ∃ t ∈ ls, laid? t = some l := by
  by_cases hl : l = []
  · exact .inl hl
  · have hm : l ∈ (arrange first ls).filter (fun l => !l.isEmpty) := by
      rw [List.mem_filter]
      exact ⟨h, by simpa using hl⟩
    rw [filter_arrange, List.mem_filterMap] at hm
    exact .inr hm

theorem trimmed_of_mem_arrange {l : Text} {first : Bool} {ls : List Text}
    (h : l ∈ arrange first ls) : Trimmed l := by
  rcases mem_arrange h with rfl | ⟨t, -, ht⟩
  · exact trimmed_nil
  · exact trimmed_laid ht

theorem newline_notMem_of_mem_arrange {l text : Text} {first : Bool}
    (h : l ∈ arrange first (splitLines text)) : '\n' ∉ l := by
  rcases mem_arrange h with rfl | ⟨t, hm, ht⟩
  · simp
  · exact fun hc => newline_notMem_of_mem_splitLines hm (mem_of_mem_laid ht hc)

theorem format_eq_flatMap {text : Text} (h : arrange true (splitLines text) ≠ []) :
    format text = (arrange true (splitLines text)).flatMap (· ++ ['\n']) :=
  joinWith_concat h

/-- The lines of a formatted text: those put in place, and an empty one behind the last newline. -/
theorem splitLines_format (text : Text) : splitLines (format text) =
    (if arrange true (splitLines text) = [] then [[]] else arrange true (splitLines text)) ++
      [[]] := by
  split
  · rename_i h
    rw [format, h]
    rfl
  · rename_i h
    rw [format_eq_flatMap h]
    exact splitLines_flatMap_newline (fun l hl => newline_notMem_of_mem_arrange hl)
      fun l hl => trimmed_of_mem_arrange hl

/-- The empty line at the end has no place of its own. -/
theorem arrange_concat_nil (first : Bool) (ls : List Text) :
    arrange first (ls ++ [[]]) = arrange first ls := by
  rw [arrange_append, arrange_cons_blank _ _ laid?_nil, arrange, List.append_nil]

theorem arrange_splitLines_format (text : Text) :
    arrange true (splitLines (format text)) = arrange true (splitLines text) := by
  rw [splitLines_format, arrange_concat_nil]
  split
  · rename_i h
    rw [h]
    rfl
  · exact arrange_arrange true _

theorem format_format (text : Text) : format (format text) = format text := by
  rw [format, arrange_splitLines_format]
  rfl

/-- A line of a formatted text is empty or in its layout. -/
theorem laid?_of_mem_splitLines_format {l text : Text} (h : l ∈ splitLines (format text)) :
    l = [] ∨ laid? l = some l := by
  rw [splitLines_format, List.mem_append, List.mem_singleton] at h
  rcases h with h | h
  · split at h
    · exact .inl (List.mem_singleton.mp h)
    · exact (mem_arrange h).imp_right fun ⟨_, _, ht⟩ => laid?_laid ht
  · exact .inl h

theorem filterMap_laid?_splitLines_format (text : Text) :
    (splitLines (format text)).filterMap laid? = (splitLines text).filterMap laid? := by
  rw [← filter_arrange true, ← filter_arrange true, arrange_splitLines_format]

theorem forall₂_filterMap_laid? (ts : List Text) :
    List.Forall₂ (fun t l => laid? t = some l) (ts.filter fun t => classify t != .blank)
      (ts.filterMap laid?) := by
  induction ts with
  | nil => exact .nil
  | cons t rest ih =>
    cases h : laid? t with
    | none =>
      rw [List.filterMap_cons_none h, List.filter_cons_of_neg]
      · exact ih
      · simpa using (laid?_eq_none_iff t).mp h
    | some l =>
      have hb : classify t ≠ .blank := by
        rw [Ne, ← laid?_eq_none_iff, h]
        simp
      rw [List.filterMap_cons_some h, List.filter_cons_of_pos (by simpa using hb)]
      exact .cons h ih

/-- The filled lines of a formatted text are laid out already. -/
theorem filter_splitLines_format (text : Text) :
    ((splitLines (format text)).filter fun t => classify t != .blank) =
      (splitLines text).filterMap laid? := by
  rw [← filterMap_laid?_splitLines_format, ← List.filterMap_eq_filter]
  apply List.filterMap_congr
  intro l hl
  rcases laid?_of_mem_splitLines_format hl with rfl | hlaid
  · rfl
  · have hb : classify l ≠ .blank := by
      rw [Ne, ← laid?_eq_none_iff, hlaid]
      simp
    simp [hlaid, Option.guard, hb]

theorem mem_format {c : Char} {text : Text} (h : c ∈ format text) : c = '\n' ∨ c ∈ text := by
  rw [format, List.mem_append, List.mem_singleton] at h
  rcases h with h | h
  · rcases mem_joinWith h with h | ⟨l, hl, hc⟩
    · exact .inl (by simpa using h)
    · rcases mem_arrange hl with rfl | ⟨t, ht, hlaid⟩
      · simp at hc
      · exact .inr (mem_of_mem_splitLines ht (mem_of_mem_laid hlaid hc))
  · exact .inl h

/-- What comes first in a layout is the first character that is no blank. -/
theorem head?_joinWith_arrange (ls : List Text) :
    (joinWith ['\n'] (arrange true ls)).head? = (trimStart (joinWith ['\n'] ls)).head? := by
  induction ls with
  | nil => rfl
  | cons t rest ih =>
    cases h : laid? t with
    | none =>
      have hb : ∀ c ∈ t, isBlank c = true := by
        rw [← trim_eq_nil_iff, ← classify_eq_blank_iff]
        exact (laid?_eq_none_iff t).mp h
      rw [arrange_cons_blank true rest h, ih]
      cases rest with
      | nil =>
        have ht := trimStart_append [] hb
        rw [List.append_nil] at ht
        rw [joinWith, joinWith, ht]
      | cons next rest =>
        have hb' : ∀ c ∈ t ++ ['\n'], isBlank c = true := by
          intro c hc
          rcases List.mem_append.mp hc with hc | hc
          · exact hb c hc
          · rw [List.mem_singleton.mp hc]
            exact isBlank_newline
        rw [joinWith_cons_cons, trimStart_append _ hb']
    | some l =>
      have hp : place true t = [l] := by simp [place_of_laid true h]
      have hl := laid_ne_nil h
      have hh := head?_laid h
      have ht : trimStart t ≠ [] := by
        intro he
        rw [he] at hh
        simp [hl] at hh
      obtain ⟨tail, htail⟩ := joinWith_cons ['\n'] t rest
      obtain ⟨tail', htail'⟩ := joinWith_cons ['\n'] l (arrange false rest)
      rw [arrange, hp, htail, head?_trimStart_append _ ht, ← hh]
      change (joinWith ['\n'] (l :: arrange false rest)).head? = _
      rw [htail', List.head?_append_of_ne_nil _ hl]

/-- A formatted text starts with the first character that is no blank, or is a newline. -/
theorem head?_format (text : Text) :
    (format text).head? = some ((trimStart text).head?.getD '\n') := by
  have hlines : arrange true (splitLines text) = arrange true (splitOn '\n' text) :=
    arrange_map_dropReturn true _
  rw [format, hlines, List.head?_append, head?_joinWith_arrange, joinWith_splitOn]
  cases (trimStart text).head? <;> rfl

end SkinLint.Layout
