import Mathlib.Data.List.Chain
import Mathlib.Data.List.Infix
import SkinLint.Log
import SkinLint.Proofs.Document
import SkinLint.Proofs.Encoding.Lossy

/-!
# Following a log

A follower has read the complete lines of the log, and what it reads next starts with the line after
them. So however a log grows between two looks at it, every complete line is read once and in its
turn, even where a character, a line break or the line itself arrives in parts. A log that went away
or became shorter is followed as a new one.
-/
namespace SkinLint.Log
open Text

/-- There is one entry for each line that is not blank, and its level is told by that line. -/
theorem entries_eq (t : Text) : entries t =
    (((splitOn '\n' t).map dropReturns).filter fun line => !isBlankText line).map
      fun line => ⟨Level.detect line, line⟩ := by
  rw [entries]
  induction splitOn '\n' t with
  | nil => rfl
  | cons line rest ih =>
    rw [List.filterMap_cons, entry?, isEmpty_trim, ih]
    cases h : isBlankText (dropReturns line) <;> simp [h]

theorem entries_append (a b : Text) : entries (a ++ '\n' :: b) = entries a ++ entries b := by
  rw [entries, splitOn_append, List.filterMap_append]
  rfl

/-- Marks are dropped from the front of the first line only. -/
theorem dropMarks_append (a b : Text) : dropMarks (a ++ '\n' :: b) = dropMarks a ++ '\n' :: b := by
  have hstop : ('\n' :: b).dropWhile (· == Document.mark) = '\n' :: b := by
    rw [List.dropWhile_cons_of_neg (by decide)]
  rw [dropMarks, List.dropWhile_append, hstop, dropMarks]
  cases List.dropWhile (· == Document.mark) a <;> rfl

def entriesIn (bytes : Bytes) : List Entry := entries (dropMarks (Utf8.decodeLossy bytes))

def EndsLine (bytes : Bytes) : Prop := bytes = [] ∨ bytes.getLast? = some 10

def MarkedOnce (bytes : Bytes) : Prop := ¬ 10 :: Utf8.encodeChar Document.mark <:+: bytes

instance (bytes : Bytes) : Decidable (MarkedOnce bytes) :=
  inferInstanceAs (Decidable (¬ _))

theorem dropMarks_decodeLossy {bytes : Bytes}
    (h : ¬ Utf8.encodeChar Document.mark <+: bytes) :
    dropMarks (Utf8.decodeLossy bytes) = Utf8.decodeLossy bytes := by
  have hhead : (Utf8.decodeLossy bytes).head? ≠ some Document.mark :=
    fun hm => h (Utf8.encodeChar_prefix_of_head? (by decide) hm)
  cases hd : Utf8.decodeLossy bytes with
  | nil => rfl
  | cons c t =>
    rw [hd] at hhead
    rw [dropMarks, List.dropWhile_cons_of_neg (by simpa using hhead)]

/-- The entries of lines that are read apart are those of the lines read together. -/
theorem entriesIn_append {xs ys : Bytes} (hx : EndsLine xs) (hm : MarkedOnce (xs ++ ys)) :
    entriesIn (xs ++ ys) = entriesIn xs ++ entriesIn ys := by
  rcases hx with rfl | hx
  · rfl
  · obtain ⟨line, rfl⟩ := List.getLast?_eq_some_iff.mp hx
    have hstart : ¬ Utf8.encodeChar Document.mark <+: ys := by
      rintro ⟨rest, rfl⟩
      exact hm ⟨line, rest, by simp⟩
    -- the newline ends the last character of `xs`, even a damaged one
    have hread (rest : Bytes) : Utf8.decodeLossy (line ++ 10 :: rest) =
        Utf8.decodeLossy line ++ '\n' :: Utf8.decodeLossy rest :=
      Utf8.decodeLossy_append (by decide) line rest
    rw [List.append_assoc, List.singleton_append]
    simp only [entriesIn]
    have hnone : entries (Utf8.decodeLossy []) = [] := rfl
    rw [hread, hread, dropMarks_append, dropMarks_append, entries_append, entries_append,
      dropMarks_decodeLossy hstart, hnone, List.append_nil]

namespace Follower

theorem complete_eq_rdropWhile (bytes : Bytes) : complete bytes = bytes.rdropWhile (· != 10) := rfl

theorem isPrefix_complete (bytes : Bytes) : complete bytes <+: bytes :=
  List.rdropWhile_prefix _ _

theorem endsLine_complete (bytes : Bytes) : EndsLine (complete bytes) := by
  rw [complete_eq_rdropWhile]
  by_cases h : bytes.rdropWhile (· != 10) = []
  · exact .inl h
  · have hlast := List.rdropWhile_last_not (· != 10) bytes h
    exact .inr ((List.getLast?_eq_some_getLast h).trans (by simpa using hlast))

theorem complete_append {xs : Bytes} (hx : EndsLine xs) (ys : Bytes) :
    complete (xs ++ ys) = xs ++ complete ys := by
  have hself : xs.reverse.dropWhile (· != 10) = xs.reverse := by
    rcases hx with rfl | hx
    · rfl
    · obtain ⟨line, rfl⟩ := List.getLast?_eq_some_iff.mp hx
      simp
  rw [complete, complete, List.reverse_append, List.dropWhile_append, hself]
  split
  · rename_i h
    simp [List.isEmpty_iff.mp h]
  · simp

/-- `part` is the longest beginning of `bytes` that ends with a newline; it is empty if there is no
newline. -/
structure WholeLines (part bytes : Bytes) : Prop where
  isPrefix : part <+: bytes
  endsLine : EndsLine part
  longest : ∀ other, other <+: bytes → other.getLast? = some 10 → other.length ≤ part.length

theorem wholeLines_complete (bytes : Bytes) : WholeLines (complete bytes) bytes := by
  refine ⟨isPrefix_complete bytes, endsLine_complete bytes, ?_⟩
  rintro other ⟨rest, rfl⟩ hlast
  rw [complete_append (.inr hlast)]
  simp

/-- A look at a log that still holds the bytes read so far reads the whole lines behind them. -/
theorem poll_append {f : Follower} {seen : Bytes} (h : f.offset = seen.length) (rest : Bytes) :
    f.poll (some (seen ++ rest)) =
      (⟨seen.length + (complete rest).length⟩, entriesIn (complete rest)) := by
  simp [poll, h, entriesIn]

/-- A look at a log that became shorter is the first look at a new one. -/
theorem poll_of_lt {f : Follower} {bytes : Bytes} (h : bytes.length < f.offset) :
    f.poll (some bytes) = poll {} (some bytes) := by
  simp [poll, h]

/-- Every look reads a part of the log, from where the last one ended or from its start. -/
theorem poll_slice (f : Follower) (bytes : Bytes) :
    ∃ seen fresh rest, bytes = seen ++ fresh ++ rest ∧
      (seen.length = f.offset ∨ bytes.length < f.offset ∧ seen = []) ∧
      f.poll (some bytes) = (⟨seen.length + fresh.length⟩, entriesIn fresh) := by
  by_cases h : bytes.length < f.offset
  · obtain ⟨rest, hrest⟩ := isPrefix_complete bytes
    refine ⟨[], complete bytes, rest, by simpa using hrest.symm, .inr ⟨h, rfl⟩, ?_⟩
    rw [poll_of_lt h]
    exact @poll_append {} [] rfl bytes
  · have hlen : (bytes.take f.offset).length = f.offset := by
      rw [List.length_take]
      omega
    obtain ⟨rest, hrest⟩ := isPrefix_complete (bytes.drop f.offset)
    refine ⟨bytes.take f.offset, complete (bytes.drop f.offset), rest, ?_, .inl hlen, ?_⟩
    · rw [List.append_assoc, hrest, List.take_append_drop]
    · have hpoll := poll_append hlen.symm (bytes.drop f.offset)
      rwa [List.take_append_drop] at hpoll

def after (f : Follower) (looks : List (Option Bytes)) : Follower :=
  looks.foldl (fun f look => (f.poll look).1) f

def pollAll (f : Follower) : List (Option Bytes) → List (List Entry)
  | [] => []
  | look :: rest => (f.poll look).2 :: pollAll (f.poll look).1 rest

/-- All whole lines of the log were read, and `out` is what they hold. -/
structure CaughtUp (f : Follower) (bytes : Bytes) (out : List Entry) : Prop where
  offset : f.offset = (complete bytes).length
  out : out = entriesIn (complete bytes)

theorem CaughtUp.poll {f : Follower} {bytes bytes' : Bytes} {out : List Entry}
    (h : CaughtUp f bytes out) (hb : bytes <+: bytes') (hm : MarkedOnce bytes') :
    CaughtUp (f.poll (some bytes')).1 bytes' (out ++ (f.poll (some bytes')).2) := by
  obtain ⟨rest, rfl⟩ := (isPrefix_complete bytes).trans hb
  have hends := endsLine_complete bytes
  have hm' : MarkedOnce (complete bytes ++ complete rest) := fun hin =>
    hm (hin.trans ((List.prefix_append_right_inj _).mpr (isPrefix_complete rest)).isInfix)
  rw [poll_append h.offset, h.out]
  constructor
  · rw [complete_append hends, List.length_append]
  · rw [complete_append hends, entriesIn_append hends hm']

theorem CaughtUp.pollAll {f : Follower} {bytes : Bytes} {out : List Entry}
    (h : CaughtUp f bytes out) {contents : List Bytes}
    (hgrows : (bytes :: contents).IsChain (· <+: ·)) (hm : ∀ bytes ∈ contents, MarkedOnce bytes) :
    CaughtUp (f.after (contents.map some)) (contents.getLastD bytes)
      (out ++ (f.pollAll (contents.map some)).flatten) := by
  induction contents generalizing f bytes out with
  | nil => simpa [after, Follower.pollAll] using h
  | cons next contents ih =>
    rw [List.isChain_cons_cons] at hgrows
    have hnext := h.poll hgrows.1 (hm next (by simp))
    have hall := ih hnext hgrows.2 (fun bytes hb => hm bytes (by simp [hb]))
    rw [List.append_assoc] at hall
    rw [List.getLastD_cons]
    exact hall

theorem caughtUp_nil : CaughtUp {} [] [] := ⟨rfl, rfl⟩

def Restarted (f : Follower) : Option Bytes → Prop
  | none => True
  | some bytes => bytes.length < f.offset

theorem poll_of_restarted {f : Follower} {look : Option Bytes} (h : f.Restarted look) :
    f.poll look = Follower.poll {} look := by
  cases look with
  | none => rfl
  | some bytes => exact poll_of_lt h

theorem offset_poll_le (f : Follower) (bytes : Bytes) :
    (f.poll (some bytes)).1.offset ≤ bytes.length := by
  obtain ⟨seen, fresh, rest, hbytes, -, hpoll⟩ := poll_slice f bytes
  rw [hpoll, hbytes]
  simp

/-- A follower loses nothing and repeats nothing. Looking at a log that only grows yields the entries
of its whole lines, whenever the looks are taken; after a log went away or became shorter, everything
is as for a new follower; and whatever the looks find, each one reads a part of what is there. -/
theorem follower_lossless :
    (∀ (contents : List Bytes) (last : Bytes), contents.getLast? = some last →
      contents.IsChain (· <+: ·) → (∀ bytes ∈ contents, MarkedOnce bytes) →
      ∃ part, WholeLines part last ∧
        (pollAll {} (contents.map some)).flatten =
          (((splitOn '\n' (dropMarks (Utf8.decodeLossy part))).map dropReturns).filter
            fun line => !isBlankText line).map fun line => ⟨Level.detect line, line⟩) ∧
    (∀ (looks : List (Option Bytes)) (look : Option Bytes) (later : List (Option Bytes)),
      (after {} looks).Restarted look →
      (after {} looks).pollAll (look :: later) = pollAll {} (look :: later)) ∧
    ∀ (looks : List (Option Bytes)) (bytes : Bytes),
      (after {} (looks ++ [some bytes])).offset ≤ bytes.length ∧
      ∃ seen fresh rest, bytes = seen ++ fresh ++ rest ∧
        (seen.length = (after {} looks).offset ∨
          bytes.length < (after {} looks).offset ∧ seen = []) ∧
        (after {} looks).poll (some bytes) = (⟨seen.length + fresh.length⟩, entriesIn fresh) := by
  refine ⟨?_, ?_, ?_⟩
  · intro contents last hlast hgrows hm
    have hchain : ([] :: contents).IsChain (· <+: ·) := by
      rw [List.isChain_cons]
      exact ⟨fun bytes _ => List.nil_prefix, hgrows⟩
    have hall := caughtUp_nil.pollAll hchain hm
    rw [List.getLastD_eq_getLast?, hlast, Option.getD_some] at hall
    exact ⟨complete last, wholeLines_complete last, by rw [← entries_eq]; exact hall.out⟩
  · intro looks look later h
    rw [pollAll, pollAll, poll_of_restarted h]
  · intro looks bytes
    refine ⟨?_, poll_slice _ bytes⟩
    rw [after, List.foldl_append]
    exact offset_poll_le _ bytes

/-- A mark, a line break in two parts, a character in two parts and a line without its end; then the
log is cleared and written anew. -/
theorem follower_lossless_in_parts :
    let first : Bytes := Utf8.encode "\uFEFFNOTE a\r".toList
    let second : Bytes := first ++ Utf8.encode "\nERRO ".toList ++ [0xc3]
    let third : Bytes := second ++ [0xa9] ++ Utf8.encode "\nWARN".toList
    let contents := [first, second, third]
    let cleared := some (Utf8.encode "NOTE b\n".toList)
    contents.IsChain (· <+: ·) ∧ (∀ bytes ∈ contents, MarkedOnce bytes) ∧
      (∃ part, WholeLines part third ∧
        (pollAll {} (contents.map some)).flatten =
          (((splitOn '\n' (dropMarks (Utf8.decodeLossy part))).map dropReturns).filter
            fun line => !isBlankText line).map fun line => ⟨Level.detect line, line⟩) ∧
      pollAll {} (contents.map some) =
        [[], [⟨.note, "NOTE a".toList⟩], [⟨.error, "ERRO é".toList⟩]] ∧
      (after {} (contents.map some)).Restarted cleared ∧
      (after {} (contents.map some)).pollAll [cleared] = pollAll {} [cleared] := by
  intro first second third contents cleared
  have hgrows : contents.IsChain (· <+: ·) := by decide
  have hm : ∀ bytes ∈ contents, MarkedOnce bytes := by decide
  have hcleared : (after {} (contents.map some)).Restarted cleared :=
    show (Utf8.encode "NOTE b\n".toList).length < _ by decide +kernel
  exact ⟨hgrows, hm, follower_lossless.1 contents third rfl hgrows hm, by decide +kernel, hcleared,
    follower_lossless.2.1 _ _ [] hcleared⟩

end Follower

end SkinLint.Log
