import SkinLint.Proofs.Fold
import SkinLint.Proofs.Line.Grammar

/-!
# Headers that fold and headers that open a section

Folding takes a name between brackets for a header, with blanks and a comment behind it; reading
takes all that stands between the outer brackets of a line for the name. The two differ only where
there is a comment: it makes a header that folds one that is left open, unless it ends in a bracket.
-/
namespace SkinLint.Fold
open Text LineKind

/-- A name between brackets, then blanks, then a comment or nothing. -/
structure HeaderParts (t name gap tail : Text) : Prop where
  text : t = '[' :: (name ++ ']' :: (gap ++ tail))
  name_ne_nil : name ≠ []
  name_bracket : ']' ∉ name
  gap_blank : ∀ c ∈ gap, isBlank c = true
  tail_comment : tail = [] ∨ tail.head? = some ';'

theorem isHeader_bracket (rest : Text) : isHeader ('[' :: rest) =
    (splitFirst? ']' rest).any fun (name, after) =>
      !name.isEmpty && (trimStart after).head?.all (· == ';') := by
  rw [isHeader, splitFirst?]
  cases rest.dropWhile (· != ']') with
  | nil => simp
  | cons c after =>
    simp only [Option.any_some]
    cases trimStart after <;> rfl

theorem isHeader_iff (t : Text) :
    isHeader t = true ↔ ∃ name gap tail, HeaderParts t name gap tail := by
  constructor
  · intro h
    rcases List.head?_eq_some_iff.mp (head?_of_isHeader h) with ⟨rest, rfl⟩
    rw [isHeader_bracket, Option.any_eq_true] at h
    rcases h with ⟨⟨name, after⟩, hcut, hheader⟩
    rcases (splitFirst?_eq_some_iff _ _ _ _).mp hcut with ⟨rfl, hbracket⟩
    rw [Bool.and_eq_true, Bool.not_eq_true', List.isEmpty_eq_false_iff,
      Option.all_eq_true] at hheader
    refine ⟨name, after.takeWhile isBlank, trimStart after, ?_, hheader.1, hbracket, ?_, ?_⟩
    · rw [trimStart, List.takeWhile_append_dropWhile]
    · exact fun c hc => List.mem_takeWhile_imp hc
    · cases htail : trimStart after with
      | nil => exact .inl rfl
      | cons c tail => simpa [htail] using hheader.2
  · rintro ⟨name, gap, tail, h⟩
    have hcut : splitFirst? ']' (name ++ ']' :: (gap ++ tail)) = some (name, gap ++ tail) :=
      (splitFirst?_eq_some_iff _ _ _ _).mpr ⟨rfl, h.name_bracket⟩
    have hbehind : trimStart (gap ++ tail) = tail := by
      rw [trimStart_append tail h.gap_blank, trimStart_eq_self_iff]
      intro c hc
      rcases h.tail_comment with rfl | hcomment
      · cases hc
      · obtain rfl : ';' = c := by simpa [hcomment] using hc
        decide
    rw [h.text, isHeader_bracket, hcut]
    change (!name.isEmpty && (trimStart (gap ++ tail)).head?.all (· == ';')) = true
    rw [hbehind]
    rcases h.tail_comment with rfl | hcomment
    · simp [h.name_ne_nil]
    · simp [h.name_ne_nil, hcomment]

namespace HeaderParts

variable {line name gap tail : Text} (h : HeaderParts (trim line) name gap tail)
include h

theorem gap_eq_nil (htail : tail = []) : gap = [] := by
  rcases List.eq_nil_or_concat' gap with hnil | ⟨front, c, hgap⟩
  · exact hnil
  · have htext : trim line = '[' :: (name ++ ']' :: front) ++ [c] := by simp [h.text, hgap, htail]
    have hblank : isBlank c = true := h.gap_blank c (by simp [hgap])
    have hlast := (trimmed_trim line).2 c
    rw [htext, List.getLast?_concat, hblank] at hlast
    cases hlast rfl

theorem classify_of_nil (htail : tail = []) : classify line = .header name := by
  apply Unpaired.classify
  rw [h.text, h.gap_eq_nil htail, htail]
  exact .header name

/-- A comment that ends in a bracket is read as a part of the name. -/
theorem classify_of_closed {front : Text} (htail : tail = front ++ [']']) :
    classify line = .header (name ++ ']' :: (gap ++ front)) := by
  apply Unpaired.classify
  rw [h.text, htail]
  simpa using Unpaired.header (name ++ ']' :: (gap ++ front))

theorem classify_of_open (hne : tail ≠ []) (hlast : tail.getLast? ≠ some ']') :
    classify line = .openHeader := by
  apply Unpaired.classify
  rw [h.text]
  apply Unpaired.openHeader
  rwa [List.getLast?_append_cons, ← List.cons_append, List.getLast?_append_of_ne_nil _ hne]

end HeaderParts

/-- A line folds if it is a name between brackets with at most a comment behind it. So a header
folds if its name has no bracket in it, and a line that folds is read as a header, or as one that is
left open. It is left open just if there is a comment that does not end in a bracket. -/
theorem folding_agrees_on_headers (line : Text) :
    (isHeader (trim line) = true ↔ ∃ name gap tail, HeaderParts (trim line) name gap tail) ∧
    (∀ name, classify line = .header name → name ≠ [] → ']' ∉ name →
      isHeader (trim line) = true) ∧
    ∀ name gap tail, HeaderParts (trim line) name gap tail →
      ((∃ name', name' ≠ [] ∧ classify line = .header name') ∨ classify line = .openHeader) ∧
      (classify line = .openHeader ↔ tail ≠ [] ∧ tail.getLast? ≠ some ']') := by
  refine ⟨isHeader_iff (trim line), ?_, ?_⟩
  · intro name hheader hne hbracket
    rw [isHeader_iff]
    refine ⟨name, [], [], ?_, hne, hbracket, by simp, .inl rfl⟩
    exact trim_of_classify_header hheader
  · intro name gap tail h
    by_cases hnil : tail = []
    · have hclassify := h.classify_of_nil hnil
      exact ⟨.inl ⟨name, h.name_ne_nil, hclassify⟩, by simp [hclassify, hnil]⟩
    by_cases hlast : tail.getLast? = some ']'
    · rcases List.getLast?_eq_some_iff.mp hlast with ⟨front, hfront⟩
      have hclassify := h.classify_of_closed hfront
      exact ⟨.inl ⟨_, by simp, hclassify⟩, by simp [hclassify, hlast]⟩
    · have hclassify := h.classify_of_open hnil hlast
      exact ⟨.inr hclassify, by simp [hclassify, hnil, hlast]⟩

/-- A comment that ends in a bracket, on a line that folds and is read as a header with another
name; and one that does not, on a line that is read as left open. -/
theorem folding_agrees_on_headers_commented :
    let closed := " [A] ;see [B]".toList
    let left := "[A]\u3000; see B ".toList
    isHeader (trim closed) = true ∧ (∃ name, name ≠ [] ∧ classify closed = .header name) ∧
    isHeader (trim left) = true ∧ classify left = .openHeader := by
  intro closed left
  have hclosed : HeaderParts (trim closed) ['A'] [' '] ";see [B]".toList :=
    ⟨by decide, by decide, by decide, List.all_eq_true.mp (by decide), by decide⟩
  have hleft : HeaderParts (trim left) ['A'] ['\u3000'] "; see B".toList :=
    ⟨by decide, by decide, by decide, List.all_eq_true.mp (by decide), by decide⟩
  have hread := (folding_agrees_on_headers closed).2.2 _ _ _ hclosed
  have hunread := (folding_agrees_on_headers left).2.2 _ _ _ hleft
  refine ⟨(isHeader_iff _).mpr ⟨_, _, _, hclosed⟩, hread.1.resolve_right ?_,
    (isHeader_iff _).mpr ⟨_, _, _, hleft⟩, hunread.2.mpr (by decide)⟩
  rw [hread.2]
  decide

end SkinLint.Fold
