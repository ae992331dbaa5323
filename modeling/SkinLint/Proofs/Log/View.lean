import SkinLint.Log.File
import SkinLint.Proofs.Log.Follower

/-!
# The view of a log beside its follower

The view reads the whole text of a log strictly and turns it round; the follower reads the bytes up
to the last newline leniently. On a log that is sound text both find the same entries, but for the
line that has no newline yet, which only the view shows. That a log is empty is told from the text as
a whole by the view, and it comes to there being no entry.
-/
namespace SkinLint.Log
open Text

theorem isBlankText_dropReturns (line : Text) : isBlankText (dropReturns line) = isBlankText line := by
  have hreturns : isBlankText (line.rtakeWhile (· == '\r')) = true := by
    rw [isBlankText, List.all_eq_true]
    intro c hc
    obtain rfl : c = '\r' := by simpa using List.mem_rtakeWhile_imp hc
    decide
  have hcut : dropReturns line ++ line.rtakeWhile (· == '\r') = line :=
    List.rdropWhile_append_rtakeWhile
  calc isBlankText (dropReturns line)
      = (isBlankText (dropReturns line) && isBlankText (line.rtakeWhile (· == '\r'))) := by
        rw [hreturns, Bool.and_true]
    _ = isBlankText (dropReturns line ++ line.rtakeWhile (· == '\r')) := List.all_append.symm
    _ = isBlankText line := by rw [hcut]

theorem isBlankText_iff_splitOn (t : Text) :
    isBlankText t = true ↔ ∀ line ∈ splitOn '\n' t, isBlankText line = true := by
  simp only [isBlankText, List.all_eq_true]
  constructor
  · exact fun h line hl c hc => h c (mem_of_mem_splitOn hl hc)
  · intro h c hc
    rw [← joinWith_splitOn '\n' t] at hc
    rcases mem_joinWith hc with hc | ⟨line, hl, hc⟩
    · obtain rfl := List.mem_singleton.mp hc
      decide
    · exact h line hl c hc

/-- Nothing to show in a text that is blank as a whole, and only there. -/
theorem entries_eq_nil_iff (t : Text) : entries t = [] ↔ isBlankText t = true := by
  rw [entries_eq, List.map_eq_nil_iff, List.filter_eq_nil_iff, isBlankText_iff_splitOn]
  simp [isBlankText_dropReturns]

/-- The entry of a line without the returns at its end; a blank line has none. -/
def lineEntries (line : Text) : List Entry :=
  if isBlankText line then [] else [⟨Level.detect (dropReturns line), dropReturns line⟩]

theorem entries_of_newline_notMem {line : Text} (h : '\n' ∉ line) :
    entries line = lineEntries line := by
  rw [entries_eq, splitOn_of_notMem h, lineEntries, ← isBlankText_dropReturns]
  cases hb : isBlankText (dropReturns line) <;> simp [hb]

theorem View.ofText_eq (t : Text) : View.ofText t =
    if Log.entries (dropMarks t) = [] then .empty
    else .entries (Log.entries (dropMarks t)).reverse := by
  rw [View.ofText, isEmpty_trim]
  simp only [entries_eq_nil_iff]

/-- The line that has no newline yet: what stands behind the last newline. Where that is the first
line, marks are dropped from its front. -/
def unfinished (t : Text) : Text :=
  match splitLast? '\n' t with
  | some (_, line) => line
  | none => dropMarks t

namespace Follower

theorem poll_fresh (bytes : Bytes) :
    poll {} (some bytes) = (⟨(complete bytes).length⟩, entriesIn (complete bytes)) := by
  simpa using @poll_append {} [] rfl bytes

theorem complete_of_notMem {bytes : Bytes} (h : 10 ∉ bytes) : complete bytes = [] := by
  rw [complete_eq_rdropWhile, List.rdropWhile_eq_nil_iff]
  intro b hb
  rw [bne_iff_ne]
  rintro rfl
  exact h hb

theorem complete_encode {t : Text} (h : '\n' ∉ t) : complete (Utf8.encode t) = [] :=
  complete_of_notMem fun hin => h (Utf8.mem_of_mem_encode (by decide) hin)

/-- The whole lines of a text are those in front of its last newline. -/
theorem complete_encode_append (above : Text) {line : Text} (h : '\n' ∉ line) :
    complete (Utf8.encode (above ++ '\n' :: line)) = Utf8.encode (above ++ ['\n']) := by
  have hcut : Utf8.encode (above ++ '\n' :: line) =
      Utf8.encode (above ++ ['\n']) ++ Utf8.encode line := by
    simp [Utf8.encode]
  have hends : EndsLine (Utf8.encode (above ++ ['\n'])) := by
    refine .inr (List.getLast?_eq_some_iff.mpr ⟨Utf8.encode above, ?_⟩)
    rw [Utf8.encode, List.flatMap_append]
    rfl
  rw [hcut, complete_append hends, complete_encode h, List.append_nil]

/-- The whole lines and the unfinished one make up the entries of a text. -/
theorem entriesIn_complete_encode (text : Text) :
    entriesIn (complete (Utf8.encode text)) ++ lineEntries (unfinished text) =
      entries (dropMarks text) := by
  rw [unfinished]
  cases hs : splitLast? '\n' text with
  | none =>
    -- the follower reads nothing yet, and the marks stand in front of the unfinished line
    rw [splitLast?_eq_none_iff] at hs
    have hline : '\n' ∉ dropMarks text := fun hin => hs (List.dropWhile_subset _ hin)
    rw [complete_encode hs, entries_of_newline_notMem hline]
    rfl
  | some parts =>
    -- the marks stand in front of what the follower reads
    obtain ⟨rfl, hline⟩ := (splitLast?_eq_some_iff '\n' text parts.1 parts.2).mp hs
    have hnone : entries [] = [] := rfl
    rw [complete_encode_append _ hline, entriesIn, Utf8.decodeLossy_encode, dropMarks_append,
      dropMarks_append, entries_append, entries_append, hnone, List.append_nil,
      entries_of_newline_notMem hline]

end Follower

/-- The view and the follower show the same log. For a file that is sound text, take what a new
follower reads off it and then the entry of the line that has no newline yet, unless that line is
blank. The view is empty when these are none, and otherwise it shows them with the newest first. -/
theorem view_shows_followed {t : FileTree} {path : Path} {bytes : Bytes} {text : Text}
    (hread : t.read path = .ok bytes) (htext : Utf8.decode? bytes = some text) :
    ∃ f polled, Follower.pollFile {} t path = .ok (f, polled) ∧
      let shown := polled ++ lineEntries (unfinished text)
      (view t path = .ok .empty ↔ shown = []) ∧
      (shown ≠ [] → view t path = .ok (.entries shown.reverse)) := by
  obtain rfl := Utf8.encode_of_decode? htext
  have hpoll : Follower.pollFile {} t path =
      .ok (⟨(Follower.complete (Utf8.encode text)).length⟩,
        entriesIn (Follower.complete (Utf8.encode text))) := by
    simp only [Follower.pollFile, hread, Follower.poll_fresh]
  have hview : view t path = .ok (View.ofText text) := by
    rw [view, FileTree.readText, hread]
    simp only [htext]
  have hshown := Follower.entriesIn_complete_encode text
  refine ⟨_, _, hpoll, ?_⟩
  simp only [hview, View.ofText_eq, hshown]
  by_cases h : entries (dropMarks text) = [] <;> simp [h]

/-- Marks in front, a blank line, a mark on a later line and returns on the line without a newline. -/
theorem view_shows_followed_unfinished :
    let text := "\uFEFF\uFEFFNOTE a\r\n \r\nERRO b\n\uFEFFWARN c\r\r".toList
    let t : FileTree := ⟨[(["a.log".toList], .file (Utf8.encode text) false)], []⟩
    let path : Path := ⟨"/a.log".toList⟩
    t.read path = .ok (Utf8.encode text) ∧ Utf8.decode? (Utf8.encode text) = some text ∧
      (∃ f polled, Follower.pollFile {} t path = .ok (f, polled) ∧
        let shown := polled ++ lineEntries (unfinished text)
        (view t path = .ok .empty ↔ shown = []) ∧
        (shown ≠ [] → view t path = .ok (.entries shown.reverse))) ∧
      view t path = .ok (.entries [⟨.warning, "\uFEFFWARN c".toList⟩, ⟨.error, "ERRO b".toList⟩,
        ⟨.note, "NOTE a".toList⟩]) := by
  intro text t path
  have hread : t.read path = .ok (Utf8.encode text) := by decide +kernel
  have htext : Utf8.decode? (Utf8.encode text) = some text := Utf8.decode?_encode text
  exact ⟨hread, htext, view_shows_followed hread htext, by decide +kernel⟩

end SkinLint.Log
