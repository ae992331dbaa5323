import Mathlib.Data.List.Sort
import SkinLint.Proofs.Text
import SkinLint.Proofs.Toml.Spelling

/-!
# Printing a changed document

A document whose entry is changed is printed as before but for the text of that entry: what is
printed before it and behind it is the same, and closed, so that comments are found in it again.
-/
namespace SkinLint.Toml
open Quoted (Unquoted)

section Order

variable {α : Type}

def placed (a b : Nat × α) : Prop := a.1 ≤ b.1

instance : DecidableRel (@placed α) := fun a b => Nat.decLe a.1 b.1

theorem mergeSort_cons_eq (a : Nat × α) (l : List (Nat × α)) :
    (a :: l).mergeSort (·.1 ≤ ·.1) = (l.mergeSort (·.1 ≤ ·.1)).orderedInsert placed a := by
  have htrans (a b c : Nat × α) : decide (a.1 ≤ b.1) = true → decide (b.1 ≤ c.1) = true →
      decide (a.1 ≤ c.1) = true := by grind
  have htotal (a b : Nat × α) : (decide (a.1 ≤ b.1) || decide (b.1 ≤ a.1)) = true := by grind
  obtain ⟨above, below, hcons, hrest, habove⟩ := List.mergeSort_cons htrans htotal a l
  have hbelow : ∀ b ∈ below, a.1 ≤ b.1 := by
    have := List.pairwise_mergeSort htrans htotal (a :: l)
    rw [hcons, List.pairwise_append, List.pairwise_cons] at this
    simpa using this.2.1.1
  rw [hcons, hrest, List.orderedInsert_eq_take_drop]
  rw [List.takeWhile_append_of_pos, List.dropWhile_append_of_pos]
  · cases below <;> simp_all [placed]
  · intro b hb
    simpa [placed] using habove b hb
  · intro b hb
    simpa [placed] using habove b hb

theorem orderedInsert_append (a : Nat × α) (above below : List (Nat × α)) :
    (above ++ below).orderedInsert placed a =
      if ∀ b ∈ above, b.1 < a.1 then above ++ below.orderedInsert placed a
      else above.orderedInsert placed a ++ below := by
  induction above with
  | nil => simp
  | cons b above ih =>
    by_cases hb : a.1 ≤ b.1
    · rw [if_neg (by grind)]
      simp [placed, hb]
    · simp only [List.cons_append, List.orderedInsert, placed, hb, if_false]
      rw [ih]
      grind

/-- One more element goes between two parts of the others when they are put in order, and which two
depends on its place only. -/
theorem mergeSort_splice (i : Nat) (l l' : List (Nat × α)) :
    ∃ above below, (l ++ l').mergeSort (·.1 ≤ ·.1) = above ++ below ∧ (∀ b ∈ below, i ≤ b.1) ∧
      ∀ x, (l ++ (i, x) :: l').mergeSort (·.1 ≤ ·.1) = above ++ (i, x) :: below := by
  induction l with
  | nil =>
    have hsorted : (l'.mergeSort (·.1 ≤ ·.1)).Pairwise fun a b => decide (a.1 ≤ b.1) = true :=
      List.pairwise_mergeSort (by grind) (by grind) l'
    generalize hs : l'.mergeSort (·.1 ≤ ·.1) = s at hsorted
    refine ⟨s.takeWhile fun b => ¬i ≤ b.1, s.dropWhile fun b => ¬i ≤ b.1, ?_, ?_, fun x => ?_⟩
    · rw [List.takeWhile_append_dropWhile]
      exact hs
    · clear hs
      induction s with
      | nil => simp
      | cons b s ih =>
        rw [List.pairwise_cons] at hsorted
        by_cases hb : i ≤ b.1
        · rw [List.dropWhile_cons_of_neg (by simpa using hb)]
          grind
        · rw [List.dropWhile_cons_of_pos (by simpa using hb)]
          exact ih hsorted.2
    · rw [List.nil_append, mergeSort_cons_eq, hs, List.orderedInsert_eq_take_drop]
      rfl
  | cons a l ih =>
    obtain ⟨above, below, hrest, hbelow, hsplice⟩ := ih
    simp only [List.cons_append, mergeSort_cons_eq, hrest, hsplice, orderedInsert_append]
    by_cases hall : ∀ b ∈ above, b.1 < a.1
    · simp only [if_pos hall]
      by_cases hi : a.1 ≤ i
      · refine ⟨above ++ [a], below, ?_, hbelow, fun x => by simp [placed, hi]⟩
        cases below with
        | nil => simp
        | cons b below => simp [placed, Nat.le_trans hi (hbelow b List.mem_cons_self)]
      · exact ⟨above, _, rfl, by grind [List.mem_orderedInsert], fun x => by simp [placed, hi]⟩
    · simp only [if_neg hall]
      exact ⟨_, below, rfl, hbelow, fun x => rfl⟩

end Order

def inPlace (sections : List Section) : List Section :=
  ((withPlaces 0 sections).mergeSort (·.1 ≤ ·.1)).map (·.2)

theorem withPlaces_append (last : Nat) (ss : List Section) :
    ∃ next, ∀ ss', withPlaces last (ss ++ ss') = withPlaces last ss ++ withPlaces next ss' := by
  induction ss generalizing last with
  | nil => exact ⟨last, fun _ => rfl⟩
  | cons s ss ih =>
    obtain ⟨next, hnext⟩ := ih (s.place?.getD last)
    exact ⟨next, fun ss' => by simp [withPlaces, hnext]⟩

theorem map_snd_withPlaces (last : Nat) (ss : List Section) :
    (withPlaces last ss).map (·.2) = ss := by
  induction ss generalizing last with
  | nil => rfl
  | cons s ss ih => simp [withPlaces, ih]

theorem mem_inPlace {s : Section} {ss : List Section} : s ∈ inPlace ss ↔ s ∈ ss := by
  have := ((List.mergeSort_perm (withPlaces 0 ss) (·.1 ≤ ·.1)).map (·.2)).mem_iff (a := s)
  rwa [map_snd_withPlaces] at this

/-- A section is printed between two parts of the others, whatever its entries are. -/
theorem inPlace_splice (place : Option Nat) (ss ss' : List Section) :
    ∃ above below, (place = none → inPlace (ss ++ ss') = above ++ below) ∧
      ∀ s, s.place? = place → inPlace (ss ++ s :: ss') = above ++ s :: below := by
  obtain ⟨next, hnext⟩ := withPlaces_append 0 ss
  obtain ⟨above, below, hrest, -, hsplice⟩ := mergeSort_splice (place.getD next)
    (withPlaces 0 ss) (withPlaces (place.getD next) ss')
  refine ⟨above.map (·.2), below.map (·.2), ?_, ?_⟩
  · rintro rfl
    rw [inPlace, hnext, ← List.map_append, ← hrest]
    rfl
  · rintro s rfl
    rw [inPlace, hnext, withPlaces, hsplice]
    simp

def lineOf (leaf : List Key × (Text × Text → Text)) : Text :=
  writePath ([], [' ']) leaf.1 ++ '=' :: leaf.2 ([' '], []) ++ ['\n']

/-- A value of a table as a part of what stands between braces. -/
def memberOf (leaf : List Key × (Text × Text → Text)) : Text :=
  writePath ([' '], [' ']) leaf.1 ++ '=' :: leaf.2 ([' '], [' '])

/-- The texts of a value with its path are closed, and do not hang on the usual margin. -/
structure LeafSpelled (stop : Text) (leaf : List Key × (Text × Text → Text)) : Prop where
  path : ∀ k ∈ leaf.1, k.Led
  value : ∃ a w b, (∀ usual, leaf.2 usual = a ++ w ++ b) ∧ Token w ∧ Around stop (a, b)

theorem token_writePath {usual : Text × Text} (hbefore : Closed usual.1) (hafter : Gap usual.2)
    {path : List Key} (hpath : ∀ k ∈ path, k.Led) : Token (writePath usual path) := by
  have hjoin {path : List Key} (hpath : ∀ k ∈ path, k.Led) :
      Token (Text.joinWith ['.'] (path.map fun k => k.before ++ k.spelling ++ k.after)) := by
    induction path with
    | nil => exact closed_nil.token
    | cons k path ih =>
      have htoken := (hpath k List.mem_cons_self).token.token
      have ih := ih fun k hk => hpath k (List.mem_cons_of_mem _ hk)
      cases path with
      | nil => simpa [Text.joinWith] using htoken
      | cons k' path =>
        simp only [List.map_cons, Text.joinWith_cons_cons] at ih ⊢
        exact (htoken.append_closed (closed_of_mute (by simp [isMute])) (by simp [Unquoted])
          (by simp)).append_token ih
  unfold writePath
  split
  next => exact closed_nil.token
  next last hlast =>
    dsimp only [frame]
    have hmargin : Closed (last.margin.getD usual).1 ∧ Gap (last.margin.getD usual).2 := by
      cases hm : last.margin with
      | none => exact ⟨hbefore, hafter⟩
      | some m =>
        have := (hpath last (List.mem_of_getLast? hlast)).margin m hm
        exact ⟨this.1, gap_of_mute this.2⟩
    exact (hmargin.1.append_token (hjoin hpath)).gap hmargin.2

theorem LeafSpelled.token_memberOf {leaf : List Key × (Text × Text → Text)}
    (h : LeafSpelled [] leaf) : Token (memberOf leaf) := by
  obtain ⟨a, w, b, hvalue, hw, ha, hb, hclosed⟩ := h.value
  have hpath : Token (writePath ([' '], [' ']) leaf.1) :=
    token_writePath (closed_of_mute (by simp [isMute])) (gap_of_mute (by simp [isMute])) h.path
  have hequals : Closed (writePath ([' '], [' ']) leaf.1 ++ '=' :: a) :=
    hpath.append_closed (ha.cons (by decide)) (by simp [Unquoted]) (by simp)
  have := (hequals.append_token hw).gap ⟨by simpa using hclosed, hb⟩
  simpa [memberOf, hvalue] using this

theorem LeafSpelled.closed_lineOf {leaf : List Key × (Text × Text → Text)}
    (h : LeafSpelled ['\n'] leaf) : Closed (lineOf leaf) := by
  obtain ⟨a, w, b, hvalue, hw, ha, hb, hclosed⟩ := h.value
  have hpath : Token (writePath ([], [' ']) leaf.1) :=
    token_writePath closed_nil (gap_of_mute (by simp [isMute])) h.path
  have hequals : Closed (writePath ([], [' ']) leaf.1 ++ '=' :: a) :=
    hpath.append_closed (ha.cons (by decide)) (by simp [Unquoted]) (by simp)
  have hunquoted : Unquoted (b ++ ['\n']) := by
    cases b with
    | nil => simp [Unquoted]
    | cons c b => exact hb
  have := (hequals.append_token hw).append_closed hclosed hunquoted (by simp)
  simpa [lineOf, hvalue] using this

theorem writeMembers_eq {leaves : List (List Key × (Text × Text → Text))}
    (h : ∀ leaf ∈ leaves, LeafSpelled [] leaf) :
    writeMembers leaves = Text.joinWith [','] (leaves.map memberOf) := by
  induction leaves with
  | nil => rfl
  | cons leaf leaves ih =>
    have ih := ih fun leaf hleaf => h leaf (List.mem_cons_of_mem _ hleaf)
    cases leaves with
    | nil => simp [writeMembers, memberOf, Text.joinWith]
    | cons leaf' leaves =>
      obtain ⟨a, w, b, hvalue, -⟩ := (h leaf List.mem_cons_self).value
      simp only [List.map_cons, Text.joinWith_cons_cons] at ih ⊢
      simp [writeMembers, ih, memberOf, hvalue]

theorem token_joinWith {pieces : List Text} (h : ∀ piece ∈ pieces, Token piece) :
    Token (Text.joinWith [','] pieces) := by
  induction pieces with
  | nil => exact closed_nil.token
  | cons piece pieces ih =>
    have hpiece := h piece List.mem_cons_self
    have ih := ih fun piece hpiece => h piece (List.mem_cons_of_mem _ hpiece)
    cases pieces with
    | nil => simpa [Text.joinWith] using hpiece
    | cons next pieces =>
      rw [Text.joinWith_cons_cons]
      exact (hpiece.append_closed (closed_of_mute (by simp [isMute])) (by simp [Unquoted])
        (by simp)).append_token ih

def braceEnd (comma : Bool) (trailing : Text) : Text :=
  (if comma then [','] else []) ++ trailing ++ ['\x7d']

theorem closed_braceEnd (comma : Bool) {trailing : Text} (h : Gap trailing) :
    Closed (braceEnd comma trailing) ∧ Unquoted (braceEnd comma trailing) ∧
      braceEnd comma trailing ≠ [] := by
  have hend : Closed (trailing ++ ['\x7d']) := h.1.append (closed_of_mute (by simp [isMute]))
  cases comma with
  | true =>
    exact ⟨hend.cons (c := ',') (by decide), by simp [braceEnd, Unquoted], by simp [braceEnd]⟩
  | false => exact ⟨hend, h.unquoted_append (by decide) [], by simp [braceEnd]⟩

mutual

theorem Node.leaves_spelled {stop : Text} {path : List Key} (hpath : ∀ k ∈ path, k.Led) :
    ∀ n : Node, n.Spelled stop → ∀ leaf ∈ n.leaves path, LeafSpelled stop leaf
  | .value m written v, h, leaf, hleaf => by
    obtain ⟨htoken, b, rfl, hb⟩ := h
    obtain rfl := List.mem_singleton.1 hleaf
    exact ⟨hpath, b.1, written, b.2, fun _ => rfl, htoken, hb⟩
  | .table .dotted entries, h, leaf, hleaf => entriesLeaves_spelled hpath entries h leaf hleaf
  | .table (.inline m comma trailing) entries, h, leaf, hleaf => by
    obtain ⟨⟨b, rfl, hb⟩, htrailing, hentries⟩ := h
    obtain rfl := List.mem_singleton.1 hleaf
    have hleaves := entriesLeaves_spelled (List.forall_mem_nil Key.Led) entries hentries
    have hmembers : Token (writeMembers (entriesLeaves [] entries)) := by
      rw [writeMembers_eq hleaves]
      refine token_joinWith fun piece hpiece => ?_
      obtain ⟨leaf, hleaf, rfl⟩ := List.mem_map.1 hpiece
      exact (hleaves leaf hleaf).token_memberOf
    obtain ⟨hend, hunquoted, hne⟩ := closed_braceEnd comma htrailing
    have hopen := hmembers.append_closed hend hunquoted hne
    refine ⟨hpath, b.1, _, b.2, fun _ => rfl, ?_, hb⟩
    simpa [braceEnd] using (hopen.cons (c := '\x7b') (by decide)).token
  | .table .implied entries, h, leaf, hleaf => by cases hleaf
  | .table (.headed _ _) entries, h, leaf, hleaf => by cases hleaf
  | .tables elements, h, leaf, hleaf => by cases hleaf

theorem entriesLeaves_spelled {stop : Text} {path : List Key} (hpath : ∀ k ∈ path, k.Led) :
    ∀ entries : List (Key × Node), EntriesSpelled stop entries →
      ∀ leaf ∈ entriesLeaves path entries, LeafSpelled stop leaf
  | [], _, leaf, hleaf => by cases hleaf
  | (k, n) :: rest, h, leaf, hleaf => by
    obtain hleaf | hleaf := List.mem_append.1 hleaf
    · have hpath' := List.forall_mem_append.2 ⟨hpath, List.forall_mem_singleton.2 h.1.1⟩
      exact Node.leaves_spelled hpath' n h.1.2.1 leaf hleaf
    · exact entriesLeaves_spelled hpath rest h.2 leaf hleaf

end

theorem closed_flatMap {α : Type} {f : α → Text} {l : List α} (h : ∀ a ∈ l, Closed (f a)) :
    Closed (l.flatMap f) := by
  induction l with
  | nil => exact closed_nil
  | cons a l ih =>
    rw [List.flatMap_cons]
    exact (h a List.mem_cons_self).append (ih fun b hb => h b (List.mem_cons_of_mem _ hb))

structure SectionSpelled (s : Section) : Prop where
  path : ∀ k ∈ s.path, k.Led
  margin : ∀ m ∈ s.margin, Around ['\n'] m
  entries : EntriesSpelled ['\n'] s.entries

theorem closed_lines {entries : Entries} (h : EntriesSpelled ['\n'] entries) {path : List Key}
    (hpath : ∀ k ∈ path, k.Led) : Closed ((entriesLeaves path entries).flatMap lineOf) :=
  closed_flatMap fun leaf hleaf => (entriesLeaves_spelled hpath entries h leaf hleaf).closed_lineOf

theorem SectionSpelled.closed_header {s : Section} (h : SectionSpelled s) (first : Bool) :
    Closed (s.header first) := by
  have hpath : Token (writePath ([], []) s.path) :=
    token_writePath closed_nil (gap_of_mute (by simp)) h.path
  have hbracketed : Closed
      (if s.isElement then "[[".toList ++ writePath ([], []) s.path ++ "]]".toList
        else '[' :: writePath ([], []) s.path ++ [']']) := by
    split
    · exact (closed_of_mute (by simp [isMute])).append_token hpath |>.append_closed
        (closed_of_mute (by simp [isMute])) (by simp [Unquoted]) (by decide)
    · exact (hpath.append_closed (closed_of_mute (w := [']']) (by simp [isMute])) (by simp [Unquoted])
        (by simp)).cons (by decide)
  obtain ⟨ha, hb⟩ : Closed (s.margin.getD (if first then [] else ['\n'], [])).1 ∧
      Closed ((s.margin.getD (if first then [] else ['\n'], [])).2 ++ ['\n']) := by
    cases hm : s.margin with
    | none =>
      refine ⟨?_, closed_lineEnd⟩
      cases first
      · exact closed_lineEnd
      · exact closed_nil
    | some m => exact ⟨(h.margin m hm).1, (h.margin m hm).2.2⟩
  have := (ha.append hbracketed).append hb
  simpa [Section.header, frame] using this

theorem closed_writeSections {ss : List Section} (h : ∀ s ∈ ss, SectionSpelled s) (first : Bool) :
    Closed (writeSections first ss) := by
  induction ss generalizing first with
  | nil => exact closed_nil
  | cons s ss ih =>
    have hs := h s List.mem_cons_self
    have ih := ih fun s hs => h s (List.mem_cons_of_mem _ hs)
    rw [writeSections]
    split
    · exact ((hs.closed_header first).append (closed_lines hs.entries (by simp))).append (ih false)
    · exact ih first

mutual

theorem Node.sections_spelled {path : List Key} (hpath : ∀ k ∈ path, k.Led) (isElement : Bool) :
    ∀ n : Node, n.Spelled ['\n'] → ∀ s ∈ n.sections path isElement, SectionSpelled s
  | .value .., _, s, hs => by cases hs
  | .table (.inline ..) _, _, s, hs => by cases hs
  | .table .dotted entries, h, s, hs => entriesSections_spelled hpath entries h s hs
  | .table .implied entries, h, s, hs => by
    obtain rfl | hs := List.mem_cons.1 hs
    · exact ⟨hpath, by simp [Section.margin], h⟩
    · exact entriesSections_spelled hpath entries h s hs
  | .table (.headed place m) entries, h, s, hs => by
    obtain ⟨⟨b, rfl, hb⟩, hentries⟩ := h
    obtain rfl | hs := List.mem_cons.1 hs
    · exact ⟨hpath, by simpa [Section.margin] using hb, hentries⟩
    · exact entriesSections_spelled hpath entries hentries s hs
  | .tables elements, h, s, hs => elementsSections_spelled hpath elements h s hs

theorem entriesSections_spelled {path : List Key} (hpath : ∀ k ∈ path, k.Led) :
    ∀ entries : List (Key × Node), EntriesSpelled ['\n'] entries →
      ∀ s ∈ entriesSections path entries, SectionSpelled s
  | [], _, s, hs => by cases hs
  | (k, n) :: rest, h, s, hs => by
    obtain hs | hs := List.mem_append.1 hs
    · have hpath' := List.forall_mem_append.2 ⟨hpath, List.forall_mem_singleton.2 h.1.1⟩
      exact Node.sections_spelled hpath' false n h.1.2.1 s hs
    · exact entriesSections_spelled hpath rest h.2 s hs

theorem elementsSections_spelled {path : List Key} (hpath : ∀ k ∈ path, k.Led) :
    ∀ elements : List Node, ElementsSpelled ['\n'] elements →
      ∀ s ∈ elementsSections path elements, SectionSpelled s
  | [], _, s, hs => by cases hs
  | n :: rest, h, s, hs => by
    obtain hs | hs := List.mem_append.1 hs
    · exact Node.sections_spelled hpath true n h.1.1 s hs
    · exact elementsSections_spelled hpath rest h.2 s hs

end

end SkinLint.Toml
