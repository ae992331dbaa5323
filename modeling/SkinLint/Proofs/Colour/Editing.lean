import SkinLint.Proofs.Colour.Literals
import SkinLint.Proofs.Document

/-!
# Editing a colour

A line is scanned from left to right, and what is found before a literal does not depend on which
literal of that form it is. So a colour that is written over another one in its form is found in the
place of the old one, and of the other entries only those behind it on its line move.
-/
namespace SkinLint.Colour
open Text

section Scanning

/-- Is the place behind a text inside a word? `inWord` tells it for the place in front. -/
def endsWord (inWord : Bool) (t : Text) : Bool := t.foldl (fun _ c => isWord c) inWord

theorem endsWord_of_getLast? {t : Text} {c : Char} (inWord : Bool) (h : t.getLast? = some c) :
    endsWord inWord t = isWord c := by
  rw [← List.dropLast_append_getLast? _ h, endsWord, List.foldl_append]
  rfl

theorem endsOutside_of_endsWord {c : Char} {t : Text} (h : endsWord (isWord c) t = false) :
    EndsOutside (c :: t) := by
  have hlast := List.getLast?_eq_some_getLast (List.cons_ne_nil c t)
  exact ⟨_, hlast, (endsWord_of_getLast? false hlast).symm.trans h⟩

variable (line : Nat)

theorem scan_skip (inWord : Bool) (column : Nat) (u t : Text) :
    scan line inWord u.length column (u ++ t) =
      scan line (endsWord inWord u) 0 (column + u.length) t := by
  induction u generalizing inWord column with
  | nil => rfl
  | cons c u ih =>
    rw [List.length_cons, List.cons_append, scan, ih, Nat.add_right_comm, Nat.add_assoc]
    rfl

theorem scan_inWord (column : Nat) (c : Char) (t : Text) :
    scan line true 0 column (c :: t) = scan line (isWord c) 0 (column + 1) t := by
  simp [scan]

theorem scan_of_literal? {c : Char} {t : Text} {found : Option (Colour × Form)} {n : Nat}
    (column : Nat) (h : literal? (c :: t) = some (found, n)) :
    scan line false 0 column (c :: t) =
      (found.map fun (colour, form) =>
        ⟨.onLine line column (column + n), colour, form⟩).toList ++
        scan line (isWord c) (n - 1) (column + 1) t := by
  rw [scan, h]
  cases found <;> rfl

theorem scan_of_literal?_none {c : Char} {t : Text} (column : Nat) (h : literal? (c :: t) = none) :
    scan line false 0 column (c :: t) = scan line (isWord c) 0 (column + 1) t := by
  simp [scan, h]

/-- A literal is read as a whole, and the scan goes on behind it. -/
theorem scan_literal {lit post : Text} {found : Option (Colour × Form)} (h : Spells lit found)
    (hpost : startsWord post = false) (column : Nat) :
    scan line false 0 column (lit ++ post) =
      (found.map fun (colour, form) =>
        ⟨.onLine line column (column + lit.length), colour, form⟩).toList ++
        scan line true 0 (column + lit.length) post := by
  have hliteral := (literal?_eq_some_iff _ _ _).2 ⟨lit, post, rfl, h, rfl, hpost⟩
  obtain ⟨d, hlast, hword⟩ := h.isWord_getLast?
  cases lit with
  | nil => cases hlast
  | cons c u =>
    have hends : endsWord (isWord c) u = true := (endsWord_of_getLast? false hlast).trans hword
    rw [List.cons_append] at hliteral ⊢
    rw [scan_of_literal? line column hliteral, List.length_cons, Nat.add_sub_cancel, scan_skip,
      hends, Nat.add_right_comm, Nat.add_assoc column]

theorem scan_spelled {lit post : Text} {colour : Colour} {form : Form}
    (h : Spells lit (some (colour, form))) (hpost : startsWord post = false) (column : Nat) :
    scan line false 0 column (lit ++ post) =
      ⟨.onLine line column (column + lit.length), colour, form⟩ ::
        scan line true 0 (column + lit.length) post :=
  scan_literal line h hpost column

end Scanning

section Slots

/-- A place in the text a scan reads: whichever literal of one form stands there is found behind the
entries `before`, and the scan goes on behind it. -/
structure Slot (line : Nat) (inWord : Bool) (skip column : Nat) (form : Form)
    (before : List Entry) (pre post : Text) : Prop where
  skip_le : skip ≤ pre.length
  outside : endsWord inWord pre = false
  found : ∀ lit colour, Spells lit (some (colour, form)) →
    scan line inWord skip column (pre ++ (lit ++ post)) =
      before ++ ⟨.onLine line (column + pre.length) (column + pre.length + lit.length), colour,
        form⟩ :: scan line true 0 (column + pre.length + lit.length) post

variable {line : Nat}

theorem slot_nil {post : Text} (hpost : startsWord post = false) (column : Nat) (form : Form) :
    Slot line false 0 column form [] [] post where
  skip_le := Nat.zero_le _
  outside := rfl
  found _ _ hlit := scan_spelled line hlit hpost column

/-- A scan that goes on behind a character, whatever literal is in the slot, finds the slot there. -/
theorem Slot.cons {inWord : Bool} {skip skip' column : Nat} {form : Form}
    {before : List Entry} {c : Char} {pre post : Text}
    (h : Slot line (isWord c) skip' (column + 1) form before pre post) (hskip : skip ≤ skip' + 1)
    (new : List Entry)
    (hstep : ∀ lit colour, Spells lit (some (colour, form)) →
      scan line inWord skip column (c :: (pre ++ (lit ++ post))) =
        new ++ scan line (isWord c) skip' (column + 1) (pre ++ (lit ++ post))) :
    Slot line inWord skip column form (new ++ before) (c :: pre) post where
  skip_le := by
    have := h.skip_le
    rw [List.length_cons]
    omega
  outside := h.outside
  found lit colour hlit := by
    have hcolumn : column + (c :: pre).length = column + 1 + pre.length := by
      rw [List.length_cons]
      omega
    rw [List.cons_append, hstep lit colour hlit, h.found lit colour hlit, hcolumn,
      List.append_assoc]

/-- What is read in front of a slot, and ends there, does not depend on the literal in the slot. -/
theorem Slot.literal?_eq {skip column : Nat} {form : Form} {before : List Entry} {c : Char}
    {pre post lit lit' : Text} {colour colour' : Colour}
    (h : Slot line (isWord c) skip column form before pre post)
    (hlit : Spells lit (some (colour, form))) (hlit' : Spells lit' (some (colour', form)))
    (hshort : ∀ found n, literal? (c :: (pre ++ (lit ++ post))) = some (found, n) → n ≤ skip + 1) :
    literal? (c :: (pre ++ (lit' ++ post))) = literal? (c :: (pre ++ (lit ++ post))) := by
  apply literal?_exchange (endsOutside_of_endsWord h.outside) hlit hlit'
  intro found n hfound
  have hle := h.skip_le
  have hn := hshort found n hfound
  rw [List.length_cons]
  omega

theorem exists_slot {inWord : Bool} {skip column j : Nat} {t : Text} {e : Entry}
    (h : (scan line inWord skip column t)[j]? = some e) :
    ∃ pre lit post, t = pre ++ (lit ++ post) ∧ Spells lit (some (e.colour, e.form)) ∧
      Slot line inWord skip column e.form ((scan line inWord skip column t).take j) pre post := by
  induction t generalizing inWord skip column j with
  | nil => simp [scan] at h
  | cons c t ih =>
    cases skip with
    | succ skip =>
      rw [scan] at h ⊢
      obtain ⟨pre, lit, post, rfl, hlit, hslot⟩ := ih h
      exact ⟨c :: pre, lit, post, rfl, hlit, hslot.cons le_rfl [] fun _ _ _ => rfl⟩
    | zero =>
      cases inWord with
      | true =>
        rw [scan_inWord] at h ⊢
        obtain ⟨pre, lit, post, rfl, hlit, hslot⟩ := ih h
        exact ⟨c :: pre, lit, post, rfl, hlit, hslot.cons (Nat.zero_le _) [] fun _ _ _ =>
          scan_inWord line column c _⟩
      | false =>
        cases hliteral : literal? (c :: t) with
        | none =>
          rw [scan_of_literal?_none line column hliteral] at h ⊢
          obtain ⟨pre, lit, post, rfl, hlit, hslot⟩ := ih h
          refine ⟨c :: pre, lit, post, rfl, hlit, hslot.cons (Nat.zero_le _) [] ?_⟩
          intro lit' colour hlit'
          apply scan_of_literal?_none
          rw [hslot.literal?_eq hlit hlit' (by simp [hliteral]), hliteral]
        | some found =>
          obtain ⟨found, n⟩ := found
          have hscan := scan_of_literal? line column hliteral
          rw [hscan] at h ⊢
          obtain hlt | hge := Nat.lt_or_ge j (found.map fun (colour, form) =>
            (⟨.onLine line column (column + n), colour, form⟩ : Entry)).toList.length
          · -- The entry is that of the literal itself.
            cases found with
            | none => simp at hlt
            | some value =>
              obtain ⟨colour, form⟩ := value
              obtain rfl : j = 0 := by simpa using hlt
              cases h
              obtain ⟨lit, post, ht, hlit, -, hpost⟩ := (literal?_eq_some_iff _ _ _).1 hliteral
              exact ⟨[], lit, post, ht, hlit, slot_nil hpost column form⟩
          · obtain ⟨i, rfl⟩ := Nat.exists_eq_add_of_le hge
            rw [List.getElem?_append_right hge, Nat.add_sub_cancel_left] at h
            obtain ⟨pre, lit, post, rfl, hlit, hslot⟩ := ih h
            rw [List.take_length_add_append]
            refine ⟨c :: pre, lit, post, rfl, hlit, hslot.cons (Nat.zero_le _) _ ?_⟩
            intro lit' colour hlit'
            apply scan_of_literal?
            rw [hslot.literal?_eq hlit hlit' (by simp [hliteral]; omega), hliteral]

/-- An entry of a line covers a part of it; another literal of its form in that place is found there,
behind the same entries, and the line is scanned on behind it. -/
theorem exists_cut {j : Nat} {t : Text} {e : Entry} (h : (scan line false 0 0 t)[j]? = some e) :
    ∃ pre lit post, t = pre ++ (lit ++ post) ∧
      e.range = .onLine line pre.length (pre.length + lit.length) ∧
      (scan line false 0 0 t).drop (j + 1) = scan line true 0 (pre.length + lit.length) post ∧
      ∀ new colour, Spells new (some (colour, e.form)) →
        scan line false 0 0 (pre ++ (new ++ post)) = (scan line false 0 0 t).take j ++
          ⟨.onLine line pre.length (pre.length + new.length), colour, e.form⟩ ::
            scan line true 0 (pre.length + new.length) post := by
  obtain ⟨pre, lit, post, ht, hlit, hslot⟩ := exists_slot h
  have hfound := hslot.found
  simp only [Nat.zero_add] at hfound
  have hscan := hfound lit e.colour hlit
  rw [← ht] at hscan
  have hcut := hscan.symm.trans (Document.eq_take_append_cons_drop h)
  obtain ⟨hentry, hdrop⟩ := List.cons.inj (List.append_cancel_left hcut)
  exact ⟨pre, lit, post, ht, (congrArg Entry.range hentry).symm, hdrop.symm, hfound⟩

end Slots

section Columns

def Entry.moveColumns (f : Nat → Nat) (e : Entry) : Entry :=
  { e with range := ⟨⟨e.range.start.line, f e.range.start.character⟩,
      ⟨e.range.stop.line, f e.range.stop.character⟩⟩ }

/-- A scan that starts further right finds the same entries further right. -/
theorem scan_add (line : Nat) (inWord : Bool) (skip column d : Nat) (t : Text) :
    scan line inWord skip (column + d) t =
      (scan line inWord skip column t).map (Entry.moveColumns (· + d)) := by
  induction t generalizing inWord skip column with
  | nil => rfl
  | cons c t ih =>
    cases skip with
    | succ skip => rw [scan, scan, Nat.add_right_comm, ih]
    | zero =>
      cases inWord with
      | true => rw [scan_inWord, scan_inWord, Nat.add_right_comm, ih]
      | false =>
        cases hliteral : literal? (c :: t) with
        | none =>
          rw [scan_of_literal?_none line _ hliteral, scan_of_literal?_none line _ hliteral,
            Nat.add_right_comm, ih]
        | some found =>
          obtain ⟨found, n⟩ := found
          rw [scan_of_literal? line _ hliteral, scan_of_literal? line _ hliteral,
            Nat.add_right_comm column d 1, ih, List.map_append]
          congr 1
          cases found with
          | none => rfl
          | some value => simp [Entry.moveColumns, Range.onLine]; omega

theorem scan_column (line : Nat) (start old new : Nat) (t : Text) :
    scan line true 0 (start + new) t =
      (scan line true 0 (start + old) t).map (Entry.moveColumns (· + new - old)) := by
  have h := fun d => scan_add line true 0 0 d t
  simp only [Nat.zero_add] at h
  rw [h (start + new), h (start + old), List.map_map]
  congr 1
  funext e
  simp [Entry.moveColumns]
  omega

end Columns

section Lines

/-- What becomes of an entry when one before it becomes `length` characters long: on the same line its
columns move by the difference. -/
def Entry.behind (edited : Entry) (length : Nat) (e : Entry) : Entry :=
  if e.range.start.line = edited.range.start.line then
    e.moveColumns fun column =>
      column + length - (edited.range.stop.character - edited.range.start.character)
  else e

theorem line_of_mem_scan {line : Nat} {t : Text} {e : Entry} (h : e ∈ scan line false 0 0 t) :
    e.range.start.line = line := by
  obtain ⟨j, hj⟩ := List.mem_iff_getElem?.1 h
  obtain ⟨pre, lit, post, -, hrange, -⟩ := exists_cut hj
  rw [hrange, Range.onLine_start]

/-- A literal written over an entry of a line, in its form, takes its place, and the entries behind
it move. -/
theorem scan_replaced {line j : Nat} {t new : Text} {e : Entry} {colour : Colour}
    (h : (scan line false 0 0 t)[j]? = some e) (hnew : Spells new (some (colour, e.form))) :
    ∃ start stop, e.range = .onLine line start stop ∧ start ≤ stop ∧ stop ≤ t.length ∧
      scan line false 0 0 (t.take start ++ new ++ t.drop stop) =
        (scan line false 0 0 t).take j ++
          ⟨.onLine line start (start + new.length), colour, e.form⟩ ::
            ((scan line false 0 0 t).drop (j + 1)).map (e.behind new.length) ∧
      ∀ other ∈ (scan line false 0 0 t).drop (j + 1), stop ≤ other.range.start.character := by
  obtain ⟨pre, lit, post, ht, hrange, hdrop, hfound⟩ := exists_cut h
  refine ⟨pre.length, pre.length + lit.length, hrange, Nat.le_add_right _ _, ?_, ?_, ?_⟩
  · simp [ht]
  · have hedited : t.take pre.length ++ new ++ t.drop (pre.length + lit.length) =
        pre ++ (new ++ post) := by
      rw [ht, List.take_left, List.drop_length_add_append, List.drop_left, List.append_assoc]
    rw [hedited, hfound new colour hnew, hdrop, scan_column line pre.length lit.length new.length]
    congr 2
    apply List.map_congr_left
    intro other hother
    have hline : other.range.start.line = line :=
      line_of_mem_scan (List.mem_of_mem_drop (hdrop ▸ hother))
    rw [Entry.behind, if_pos (by rw [hline, hrange, Range.onLine_start]), hrange,
      Range.onLine_stop_of_le _ (Nat.le_add_right _ _), Range.onLine_start, Nat.add_sub_cancel_left]
  · intro other hother
    have hmoved := scan_add line true 0 0 (pre.length + lit.length) post
    rw [Nat.zero_add] at hmoved
    rw [hdrop, hmoved] at hother
    obtain ⟨first, -, rfl⟩ := List.mem_map.1 hother
    exact Nat.le_add_left _ _

end Lines

section Documents

theorem exists_of_getElem?_flatMap {α β : Type} {l : List α} {f : α → List β} {k : Nat} {b : β}
    (h : (l.flatMap f)[k]? = some b) :
    ∃ i j a, l[i]? = some a ∧ (f a)[j]? = some b ∧ k = ((l.take i).flatMap f).length + j := by
  induction l generalizing k with
  | nil => simp at h
  | cons first rest ih =>
    rw [List.flatMap_cons] at h
    obtain hlt | hge := Nat.lt_or_ge k (f first).length
    · rw [List.getElem?_append_left hlt] at h
      exact ⟨0, k, first, rfl, h, by simp⟩
    · rw [List.getElem?_append_right hge] at h
      obtain ⟨i, j, a, hi, hj, hk⟩ := ih h
      refine ⟨i + 1, j, a, hi, hj, ?_⟩
      rw [List.take_succ_cons, List.flatMap_cons, List.length_append]
      omega

def entriesOn (ls : List Line) : List Entry := ls.flatMap fun l => scan l.index false 0 0 l.text

theorem entries_of_set {text text' line : Text} {i : Nat} (hi : i < (Document.lines text).length)
    (h : Document.splitLines text' = (Document.splitLines text).set i line) :
    entries text' = entriesOn ((Document.lines text).take i) ++
      (scan i false 0 0 line ++ entriesOn ((Document.lines text).drop (i + 1))) := by
  rw [entries, Document.lines_of_splitLines_set h, List.set_eq_take_append_cons_drop, if_pos hi,
    List.flatMap_append, List.flatMap_cons]
  rfl

theorem line_ne_of_below {text : Text} {i : Nat} {e : Entry}
    (h : e ∈ entriesOn ((Document.lines text).drop (i + 1))) : e.range.start.line ≠ i := by
  obtain ⟨l, hl, he⟩ := List.mem_flatMap.1 h
  obtain ⟨n, hn⟩ := List.mem_iff_getElem?.1 hl
  rw [List.getElem?_drop, Document.getElem?_lines] at hn
  obtain ⟨t, -, rfl⟩ := Option.map_eq_some_iff.1 hn
  have hindex : e.range.start.line = i + 1 + n := line_of_mem_scan he
  omega

/-- An entry of a document is found on one of its lines, between what is found above and below;
another text in place of that line leaves these as they are. -/
theorem exists_line {text : Text} {k : Nat} {e : Entry} (h : (entries text)[k]? = some e) :
    ∃ i j line above below, (Document.splitLines text)[i]? = some line ∧
      (scan i false 0 0 line)[j]? = some e ∧
      (entries text).take k = above ++ (scan i false 0 0 line).take j ∧
      (entries text).drop (k + 1) = (scan i false 0 0 line).drop (j + 1) ++ below ∧
      (∀ line' text', Document.splitLines text' = (Document.splitLines text).set i line' →
        entries text' = above ++ (scan i false 0 0 line' ++ below)) ∧
      ∀ other ∈ below, other.range.start.line ≠ i := by
  obtain ⟨i, j, l, hl, hj, hk⟩ := exists_of_getElem?_flatMap h
  have hi := (List.getElem?_eq_some_iff.1 hl).1
  rw [Document.getElem?_lines] at hl
  obtain ⟨line, hline, rfl⟩ := Option.map_eq_some_iff.1 hl
  have hself : Document.splitLines text = (Document.splitLines text).set i line := by
    obtain ⟨hi, hget⟩ := List.getElem?_eq_some_iff.1 hline
    rw [← hget, List.set_getElem_self]
  have htext := entries_of_set hi hself
  change k = (entriesOn ((Document.lines text).take i)).length + j at hk
  have hlt := (List.getElem?_eq_some_iff.1 hj).1
  refine ⟨i, j, line, _, _, hline, hj, ?_, ?_, fun line' text' => entries_of_set hi,
    fun other => line_ne_of_below⟩
  · rw [htext, hk, List.take_length_add_append, List.take_append_of_le_length hlt.le]
  · rw [htext, hk, Nat.add_assoc, List.drop_length_add_append, List.drop_append_of_le_length hlt]

/-- Writing a colour over an entry of a document, in the entry's form, is local: the entries before
it stay, it has the written colour in its old place, and of the entries after it those on its line
move by the difference in length. These start behind the old literal, so nothing is cut off at the
left. -/
theorem colour_edit_local (text : Text) (k : Nat) (e : Entry) (c : Colour)
    (h : (entries text)[k]? = some e) :
    let new := c.write e.form
    let edited := entries (Document.replace e.range new text)
    edited.length = (entries text).length ∧
    edited = (entries text).take k ++
      ⟨.onLine e.range.start.line e.range.start.character (e.range.start.character + new.length),
        ⟨c.red, c.green, c.blue, 255⟩, e.form⟩ ::
        ((entries text).drop (k + 1)).map (e.behind new.length) ∧
    ∀ other ∈ (entries text).drop (k + 1), other.range.start.line = e.range.start.line →
      e.range.stop.character ≤ other.range.start.character := by
  intro new edited
  have hnew : Spells new _ := spells_write c e.form
  obtain ⟨i, j, line, above, below, hline, hj, htake, hdrop, hentries, hbelow⟩ := exists_line h
  obtain ⟨start, stop, hrange, hle, hstop, hscan, hafter⟩ := scan_replaced hj hnew
  have hsplit := Document.splitLines_replace hline hle hstop hnew.ne_nil
    (hnew.notMem (by decide) (by decide) (by decide))
    (hnew.notMem (by decide) (by decide) (by decide))
  have hbehind : ∀ other ∈ below, e.behind new.length other = other := by
    intro other hother
    rw [Entry.behind, if_neg]
    rw [hrange, Range.onLine_start]
    exact hbelow other hother
  have hedited : edited = (entries text).take k ++
      ⟨.onLine e.range.start.line e.range.start.character (e.range.start.character + new.length),
        ⟨c.red, c.green, c.blue, 255⟩, e.form⟩ ::
        ((entries text).drop (k + 1)).map (e.behind new.length) := by
    rw [htake, hdrop, List.map_append, List.map_congr_left hbehind, List.map_id']
    change entries (Document.replace e.range new text) = _
    rw [hrange, hentries _ _ hsplit, hscan, Range.onLine_start]
    simp
  refine ⟨?_, hedited, ?_⟩
  · have hlt := (List.getElem?_eq_some_iff.1 h).1
    rw [hedited]
    simp
    omega
  · rw [hdrop, hrange, Range.onLine_start, Range.onLine_stop_of_le i hle]
    intro other hother hsame
    obtain hother | hother := List.mem_append.1 hother
    · exact hafter other hother
    · exact absurd hsame (hbelow other hother)

/-- A shorter literal between neighbours that commas link to it: nothing merges with it, and what
follows on its line moves to the left. -/
theorem colour_edit_local_between :
    let text := "A=1,2,3,10, 20,300,a0b0c0,4,5,6\r\nB=7,8,9".toList
    let e : Entry := ⟨.onLine 0 8 18, ⟨10, 20, 255, 255⟩, .rgb⟩
    let c : Colour := ⟨7, 80, 9, 128⟩
    (entries text)[1]? = some e ∧
    Document.replace e.range (c.write e.form) text =
      "A=1,2,3,7,80,9,a0b0c0,4,5,6\r\nB=7,8,9".toList ∧
    entries (Document.replace e.range (c.write e.form) text) =
      [⟨.onLine 0 2 7, ⟨1, 2, 3, 255⟩, .rgb⟩, ⟨.onLine 0 8 14, ⟨7, 80, 9, 255⟩, .rgb⟩,
        ⟨.onLine 0 15 21, ⟨0xa0, 0xb0, 0xc0, 255⟩, .hex⟩, ⟨.onLine 0 22 27, ⟨4, 5, 6, 255⟩, .rgb⟩,
        ⟨.onLine 1 2 7, ⟨7, 8, 9, 255⟩, .rgb⟩] := by
  intro text e c
  have h : (entries text)[1]? = some e := by decide +kernel
  refine ⟨h, by decide +kernel, ?_⟩
  rw [(colour_edit_local text 1 e c h).2.1]
  decide +kernel

end Documents

end SkinLint.Colour
