import SkinLint.Document
import SkinLint.Proofs.Line

/-!
# Lines of a document

A carriage return at the end of a line is blank, so it plays no part in the line's kind. The
numbered lines carry the split text, each under its own position; text that is added below them, a
line that is emptied, or a part of a line that is replaced, leaves the others as they are.
-/
namespace SkinLint.Document
open Text

theorem isBlank_return : isBlank '\r' = true := by decide

theorem trim_dropReturn (t : Text) : trim (dropReturn t) = trim t := by
  unfold dropReturn
  split
  · rename_i h
    have ht := trim_append (a := []) (b := ['\r']) t.dropLast (by simp) (by simp [isBlank_return])
    rw [List.nil_append, List.dropLast_append_getLast? _ h] at ht
    exact ht.symm
  · rfl

theorem classify_dropReturn (t : Text) :
    LineKind.classify (dropReturn t) = LineKind.classify t := by
  rw [LineKind.classify, LineKind.classify, trim_dropReturn]

theorem dropReturn_of_trimmed {t : Text} (h : Trimmed t) : dropReturn t = t := by
  unfold dropReturn
  rw [if_neg]
  intro hr
  have hb := h.2 '\r' hr
  exact absurd hb (by decide)

theorem mem_of_mem_dropReturn {c : Char} {t : Text} (h : c ∈ dropReturn t) : c ∈ t := by
  unfold dropReturn at h
  split at h
  · exact List.dropLast_subset t h
  · exact h

theorem mem_of_mem_splitLines {c : Char} {t line : Text} (h : line ∈ splitLines t)
    (hc : c ∈ line) : c ∈ t := by
  obtain ⟨piece, hp, rfl⟩ := List.mem_map.mp h
  exact mem_of_mem_splitOn hp (mem_of_mem_dropReturn hc)

theorem newline_notMem_of_mem_splitLines {t line : Text} (h : line ∈ splitLines t) :
    '\n' ∉ line := by
  obtain ⟨piece, hp, rfl⟩ := List.mem_map.mp h
  exact fun hc => notMem_of_mem_splitOn hp (mem_of_mem_dropReturn hc)

theorem dropMark_of_head? {t : Text} (h : t.head? ≠ some mark) : dropMark t = t := by
  cases t with
  | nil => rfl
  | cons c t => rw [dropMark, if_neg (by simpa using h)]

theorem head?_dropReturn_iff {c : Char} (hc : c ≠ '\r') (t : Text) :
    (dropReturn t).head? = some c ↔ t.head? = some c := by
  unfold dropReturn
  split
  · rename_i hr
    cases t with
    | nil => rfl
    | cons d t =>
      cases t with
      | nil =>
        obtain rfl : d = '\r' := by simpa using hr
        simp [Ne.symm hc]
      | cons e t => rfl
  · rfl

theorem head?_eq_mark_iff (t : Text) :
    t.head? = some mark ↔ (splitLines t).head?.bind List.head? = some mark := by
  cases t with
  | nil => decide
  | cons c t =>
    by_cases hc : c = '\n'
    · subst hc
      simp [splitLines, splitOn, dropReturn, mark]
    · obtain ⟨piece, rest, hs⟩ := List.exists_cons_of_ne_nil (splitOn_ne_nil '\n' t)
      simp [splitLines, splitOn, hc, hs, head?_dropReturn_iff (c := mark) (by decide)]

theorem map_text_lines (t : Text) : (lines t).map Line.text = splitLines t := by
  rw [lines, List.map_map]
  exact List.zipIdx_map_fst 0 _

theorem eq_take_append_cons_drop {α : Type} {l : List α} {j : Nat} {a : α} (h : l[j]? = some a) :
    l = l.take j ++ a :: l.drop (j + 1) := by
  obtain ⟨hj, rfl⟩ := List.getElem?_eq_some_iff.1 h
  rw [List.getElem_cons_drop, List.take_append_drop]

theorem getElem?_lines (t : Text) (j : Nat) :
    (lines t)[j]? = (splitLines t)[j]?.map fun text => ⟨j, text⟩ := by
  rw [lines, List.getElem?_map, List.getElem?_zipIdx]
  cases (splitLines t)[j]? <;> simp

theorem pairwise_index_lines (t : Text) : (lines t).Pairwise fun l m => l.index < m.index := by
  rw [List.pairwise_iff_getElem]
  intro i j hi hj hlt
  simpa [lines] using hlt

theorem splitLines_append (a b : Text) :
    splitLines (a ++ '\n' :: b) = splitLines a ++ splitLines b := by
  rw [splitLines, splitOn_append, List.map_append]
  rfl

/-- Lines closed by newlines, with an empty one behind the last newline. -/
theorem splitLines_flatMap_newline {ls : List Text} (hnewline : ∀ l ∈ ls, '\n' ∉ l)
    (htrimmed : ∀ l ∈ ls, Trimmed l) : splitLines (ls.flatMap (· ++ ['\n'])) = ls ++ [[]] := by
  induction ls with
  | nil => rfl
  | cons l rest ih =>
    have hl : splitLines l = [l] := by
      have hsplit : splitOn '\n' (joinWith ['\n'] [l]) = [l] :=
        splitOn_joinWith (by simp) (by simpa using hnewline l List.mem_cons_self)
      rw [joinWith] at hsplit
      rw [splitLines, hsplit, List.map_singleton,
        dropReturn_of_trimmed (htrimmed l List.mem_cons_self)]
    have hrest := ih (fun l' hl' => hnewline l' (List.mem_cons_of_mem _ hl'))
      fun l' hl' => htrimmed l' (List.mem_cons_of_mem _ hl')
    simp only [List.flatMap_cons, List.append_assoc, List.singleton_append]
    rw [splitLines_append, hl, hrest]
    rfl

/-- What follows a newline is numbered on from the lines above it. -/
theorem lines_append (a b : Text) :
    ∃ below, lines (a ++ '\n' :: b) = lines a ++ below ∧
      ∀ l ∈ below, (splitLines a).length ≤ l.index := by
  refine ⟨_, by rw [lines, splitLines_append, List.zipIdx_append, List.map_append]; rfl, ?_⟩
  intro l hl
  obtain ⟨⟨text, index⟩, hm, rfl⟩ := List.mem_map.mp hl
  simpa using List.le_snd_of_mem_zipIdx hm

/-- The mark does not span lines. -/
theorem dropMark_append (a b : Text) : dropMark (a ++ '\n' :: b) = dropMark a ++ '\n' :: b := by
  cases a with
  | nil => rfl
  | cons c a =>
    simp only [List.cons_append, dropMark]
    split <;> rfl

theorem length_splitLines_dropMark (t : Text) :
    (splitLines (dropMark t)).length = (splitLines t).length := by
  cases t with
  | nil => rfl
  | cons c t =>
    rw [dropMark]
    split
    · rename_i hc
      obtain ⟨piece, rest, hs⟩ := List.exists_cons_of_ne_nil (splitOn_ne_nil '\n' t)
      have hne : c ≠ '\n' := by
        rw [hc]
        decide
      simp [splitLines, splitOn, hne, hs]
    · rfl

theorem lines_of_splitLines_set {t t' line : Text} {i : Nat}
    (h : splitLines t' = (splitLines t).set i line) : lines t' = (lines t).set i ⟨i, line⟩ := by
  apply List.ext_getElem?
  intro j
  rw [getElem?_lines, h, List.getElem?_set, List.getElem?_set, getElem?_lines]
  have hlen : (lines t).length = (splitLines t).length := by simp [lines]
  by_cases hij : i = j
  · subst hij
    by_cases hi : i < (splitLines t).length <;> simp [hi, hlen]
  · simp [hij]

/-- No mark comes to the front of a text when a line is emptied. -/
theorem head?_ne_mark_of_set {t t' : Text} {i : Nat} (ht : t.head? ≠ some mark)
    (h : splitLines t' = (splitLines t).set i []) : t'.head? ≠ some mark := by
  rw [Ne, head?_eq_mark_iff] at ht ⊢
  rw [h]
  cases hs : splitLines t with
  | nil => simp
  | cons first rest =>
    cases i with
    | zero => simp
    | succ i => simpa [hs] using ht

/-- The text with one line emptied. The carriage return that may end the line stays. -/
def emptyLine (i : Nat) (t : Text) : Text :=
  joinWith ['\n'] ((splitOn '\n' t).modify i fun piece => piece.drop (dropReturn piece).length)

theorem dropReturn_drop (t : Text) : dropReturn (t.drop (dropReturn t).length) = [] := by
  by_cases h : t.getLast? = some '\r'
  · have hdrop : dropReturn t = t.dropLast := if_pos h
    rw [hdrop]
    conv_lhs => rw [← List.dropLast_append_getLast? _ h, List.dropLast_concat, List.drop_left]
    rfl
  · have hkeep : dropReturn t = t := if_neg h
    rw [hkeep, List.drop_length]
    rfl

theorem splitLines_emptyLine (i : Nat) (t : Text) :
    splitLines (emptyLine i t) = (splitLines t).set i [] := by
  rw [splitLines, emptyLine, splitOn_joinWith]
  · apply List.ext_getElem?
    intro j
    rw [List.getElem?_map, List.getElem?_modify, List.getElem?_set, splitLines, List.getElem?_map,
      List.length_map]
    by_cases hij : i = j
    · subst hij
      cases hp : (splitOn '\n' t)[i]? with
      | none => simpa using hp
      | some piece =>
        obtain ⟨hi, -⟩ := List.getElem?_eq_some_iff.mp hp
        simp [hi, dropReturn_drop]
    · simp [hij]
  · simp [splitOn_ne_nil]
  · intro piece hp
    obtain ⟨j, hj⟩ := List.mem_iff_getElem?.mp hp
    rw [List.getElem?_modify, Option.map_eq_map, Option.map_eq_some_iff] at hj
    obtain ⟨old, hold, rfl⟩ := hj
    have hnone := notMem_of_mem_splitOn (List.mem_of_getElem? hold)
    split
    · exact fun hc => hnone (List.mem_of_mem_drop hc)
    · exact hnone

/-- How many characters of a text stand before a position: those of the lines above, each with its
newline, and those before its column. -/
def offset (p : Position) (t : Text) : Nat :=
  (((splitOn '\n' t).take p.line).flatMap (· ++ ['\n'])).length + p.character

def replace (r : Range) (new t : Text) : Text :=
  t.take (offset r.start t) ++ new ++ t.drop (offset r.stop t)

theorem splitOn_replace {t piece new : Text} {i start stop : Nat}
    (hpiece : (splitOn '\n' t)[i]? = some piece) (hle : start ≤ stop) (hstop : stop ≤ piece.length)
    (hnew : '\n' ∉ new) :
    splitOn '\n' (replace (.onLine i start stop) new t) =
      (splitOn '\n' t).set i (piece.take start ++ new ++ piece.drop stop) := by
  obtain ⟨hi, hget⟩ := List.getElem?_eq_some_iff.1 hpiece
  obtain ⟨front, hfront⟩ :
    ∃ front, front = ((splitOn '\n' t).take i).flatMap (· ++ ['\n']) := ⟨_, rfl⟩
  obtain ⟨tail, htail⟩ :
    ∃ tail, tail = ((splitOn '\n' t).drop (i + 1)).flatMap ('\n' :: ·) := ⟨_, rfl⟩
  have hjoin : ∀ line, joinWith ['\n'] ((splitOn '\n' t).set i line) = front ++ line ++ tail := by
    intro line
    rw [List.set_eq_take_append_cons_drop, if_pos hi, joinWith_append_cons, hfront, htail]
  have ht : t = front ++ piece ++ tail := by
    rw [← hjoin, ← hget, List.set_getElem_self, joinWith_splitOn]
  have hoffset : ∀ character, offset ⟨i, character⟩ t = front.length + character := by
    intro character
    rw [offset, hfront]
  have hreplace : replace (.onLine i start stop) new t =
      joinWith ['\n'] ((splitOn '\n' t).set i (piece.take start ++ new ++ piece.drop stop)) := by
    rw [hjoin, replace, Range.onLine_start, Range.onLine_stop_of_le _ hle, hoffset, hoffset, ht]
    rw [List.append_assoc front, List.take_length_add_append, List.drop_length_add_append,
      List.take_append_of_le_length (hle.trans hstop), List.drop_append_of_le_length hstop]
    simp
  rw [hreplace, splitOn_joinWith]
  · simp [splitOn_ne_nil]
  · intro line hline
    obtain hline | rfl := List.mem_or_eq_of_mem_set hline
    · exact notMem_of_mem_splitOn hline
    · have hnone := notMem_of_mem_splitOn (List.mem_of_getElem? hpiece)
      simp only [List.mem_append, not_or]
      exact ⟨⟨fun h => hnone (List.mem_of_mem_take h), hnew⟩,
        fun h => hnone (List.mem_of_mem_drop h)⟩

theorem dropReturn_return (t : Text) : dropReturn (t ++ ['\r']) = t := by
  rw [dropReturn, if_pos (by simp), List.dropLast_concat]

/-- What is put in place of a part of a line leaves its carriage return as it is. -/
theorem dropReturn_replaced {piece new : Text} {start stop : Nat} (hle : start ≤ stop)
    (hstop : stop ≤ (dropReturn piece).length) (hne : new ≠ []) (hnew : '\r' ∉ new) :
    dropReturn (piece.take start ++ new ++ piece.drop stop) =
      (dropReturn piece).take start ++ new ++ (dropReturn piece).drop stop := by
  by_cases h : piece.getLast? = some '\r'
  · have hpiece : piece = dropReturn piece ++ ['\r'] := by
      rw [dropReturn, if_pos h, List.dropLast_append_getLast? _ h]
    generalize dropReturn piece = line at hstop hpiece ⊢
    rw [hpiece, List.take_append_of_le_length (hle.trans hstop),
      List.drop_append_of_le_length hstop, ← List.append_assoc, dropReturn_return]
  · have hpiece : dropReturn piece = piece := if_neg h
    rw [hpiece] at hstop ⊢
    rw [dropReturn, if_neg]
    by_cases hrest : piece.drop stop = []
    · rw [hrest, List.append_nil, List.getLast?_append_of_ne_nil _ hne]
      exact fun hlast => hnew (List.mem_of_getLast? hlast)
    · rw [List.getLast?_append_of_ne_nil _ hrest]
      rwa [← List.take_append_drop stop piece, List.getLast?_append_of_ne_nil _ hrest] at h

/-- What is put in place of a part of one line changes that line only. -/
theorem splitLines_replace {t line new : Text} {i start stop : Nat}
    (hline : (splitLines t)[i]? = some line) (hle : start ≤ stop) (hstop : stop ≤ line.length)
    (hne : new ≠ []) (hnewline : '\n' ∉ new) (hreturn : '\r' ∉ new) :
    splitLines (replace (.onLine i start stop) new t) =
      (splitLines t).set i (line.take start ++ new ++ line.drop stop) := by
  rw [splitLines, List.getElem?_map] at hline
  obtain ⟨piece, hpiece, rfl⟩ := Option.map_eq_some_iff.1 hline
  have hlen : (dropReturn piece).length ≤ piece.length := by
    unfold dropReturn
    split <;> simp
  rw [splitLines, splitOn_replace hpiece hle (hstop.trans hlen) hnewline, List.map_set,
    dropReturn_replaced hle hstop hne hreturn, splitLines]

end SkinLint.Document
