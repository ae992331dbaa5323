import SkinLint.Proofs.Fold

/-!
# Regions and their markers

Regions are read with a stack: a marker that begins a region is put on it, one that ends a region
takes the latest off. What lies on the stack began behind what lies below it, and between a marker on
the stack and the end of the lines read so far all markers pair off. So a region is found between two
markers exactly if the markers between them pair off; markers without a partner neither give a
region nor change the others.
-/
namespace SkinLint.Fold
open Text Document

section Markers

inductive Marker where
  | opens
  | closes
deriving DecidableEq, Repr

def marker? (t : Text) : Option Marker :=
  if opensRegion (trim t) then some .opens
  else if closesRegion (trim t) then some .closes
  else none

/-- A comment does not start with both tags. -/
theorem closesRegion_of_opensRegion {t : Text} (h : opensRegion t = true) :
    closesRegion t = false := by
  by_contra hcloses
  rw [Bool.not_eq_false] at hcloses
  unfold opensRegion isMarker at h
  split at h
  · rename_i rest
    split at h
    · rename_i after hafter
      unfold closesRegion isMarker at hcloses
      simp only at hcloses
      split at hcloses
      · rename_i after' hafter'
        rw [dropPrefix?_eq_some_iff] at hafter hafter'
        rw [hafter] at hafter'
        cases hafter'
      · cases hcloses
    · cases h
  · cases h

theorem marker?_eq_opens_iff (t : Text) : marker? t = some .opens ↔ opensRegion (trim t) = true := by
  unfold marker?
  split
  · simp_all
  · split <;> simp_all

theorem marker?_eq_closes_iff (t : Text) :
    marker? t = some .closes ↔ closesRegion (trim t) = true := by
  unfold marker?
  split
  · rename_i h
    simp [closesRegion_of_opensRegion h]
  · split <;> simp_all

inductive Balanced : List Marker → Prop
  | nil : Balanced []
  | block {inner rest : List Marker} : Balanced inner → Balanced rest →
    Balanced (.opens :: (inner ++ .closes :: rest))

variable {a b ms : List Marker}

theorem Balanced.append (ha : Balanced a) (hb : Balanced b) : Balanced (a ++ b) := by
  induction ha with
  | nil => exact hb
  | block hinner _ _ ih =>
    rw [List.cons_append, List.append_assoc, List.cons_append]
    exact .block hinner ih

theorem Balanced.count_eq (h : Balanced ms) : ms.count .opens = ms.count .closes := by
  induction h with
  | nil => rfl
  | block _ _ hinner hrest =>
    simp [List.count_append, hinner, hrest]
    omega

theorem Balanced.count_take_le (h : Balanced ms) (n : Nat) :
    (ms.take n).count .closes ≤ (ms.take n).count .opens := by
  induction h generalizing n with
  | nil => simp
  | @block inner rest _ _ hinner hrest =>
    cases n with
    | zero => simp
    | succ n =>
      have hin := hinner n
      rw [List.take_succ_cons, List.take_append]
      cases hk : n - inner.length with
      | zero =>
        simp
        omega
      | succ k =>
        have hout := hrest k
        simp [List.count_append]
        omega

theorem Balanced.closes_le (h : Balanced (a ++ b)) : a.count .closes ≤ a.count .opens := by
  have hle := h.count_take_le a.length
  rwa [List.take_left] at hle

theorem Balanced.opens_le (h : Balanced (a ++ b)) : b.count .opens ≤ b.count .closes := by
  have heq := h.count_eq
  have hle := h.closes_le
  rw [List.count_append, List.count_append] at heq
  omega

end Markers

section Pairs

def markersBetween (ls : List Text) (i j : Nat) : List Marker :=
  ((ls.take j).drop (i + 1)).filterMap marker?

/-- The markers on two lines belong together: those between them pair off. -/
structure Paired (ls : List Text) (i j : Nat) : Prop where
  lt : i < j
  opens : lineIs opensRegion ls i = true
  closes : lineIs closesRegion ls j = true
  balanced : Balanced (markersBetween ls i j)

variable {ls : List Text} {i j k : Nat}

theorem paired_append_iff (above inner below : List Text) (t u : Text) :
    Paired (above ++ t :: (inner ++ u :: below)) above.length (above.length + 1 + inner.length) ↔
      marker? t = some .opens ∧ marker? u = some .closes ∧ Balanced (inner.filterMap marker?) := by
  have hlast : above ++ t :: (inner ++ u :: below) = (above ++ t :: inner) ++ u :: below := by simp
  have hlen : above.length + 1 + inner.length = (above ++ t :: inner).length := by
    simp
    omega
  have hopens : lineIs opensRegion (above ++ t :: (inner ++ u :: below)) above.length =
      opensRegion (trim t) := by simp [lineIs]
  have hcloses : lineIs closesRegion (above ++ t :: (inner ++ u :: below))
      (above.length + 1 + inner.length) = closesRegion (trim u) := by
    rw [hlast, hlen]
    simp [lineIs]
  have hbetween : markersBetween (above ++ t :: (inner ++ u :: below)) above.length
      (above.length + 1 + inner.length) = inner.filterMap marker? := by
    rw [markersBetween, hlast, hlen, List.take_left, List.drop_length_add_append]
    rfl
  rw [marker?_eq_opens_iff, marker?_eq_closes_iff, ← hopens, ← hcloses, ← hbetween]
  constructor
  · rintro ⟨-, ho, hc, hb⟩
    exact ⟨ho, hc, hb⟩
  · rintro ⟨ho, hc, hb⟩
    exact ⟨by omega, ho, hc, hb⟩

theorem Paired.exists_append (h : Paired ls i j) : ∃ above t inner u below,
    ls = above ++ t :: (inner ++ u :: below) ∧ i = above.length ∧
      j = above.length + 1 + inner.length := by
  obtain ⟨t, ht, -⟩ := (lineIs_iff _ _ _).1 h.opens
  obtain ⟨u, hu, -⟩ := (lineIs_iff _ _ _).1 h.closes
  have hlt := h.lt
  have hj := (List.getElem?_eq_some_iff.1 hu).1
  have hcut := eq_take_append_cons_drop hu
  have hcut' := eq_take_append_cons_drop ((List.getElem?_take_of_lt hlt).trans ht)
  rw [List.take_take, Nat.min_eq_left hlt.le] at hcut'
  refine ⟨ls.take i, t, (ls.take j).drop (i + 1), u, ls.drop (j + 1), ?_, ?_, ?_⟩
  · conv_lhs => rw [hcut, hcut']
    simp
  · rw [List.length_take]
    omega
  · rw [List.length_take, List.length_drop, List.length_take]
    omega

theorem markersBetween_split {m : Marker} {t : Text} (ht : ls[k]? = some t)
    (hm : marker? t = some m) (hik : i < k) (hkj : k < j) :
    markersBetween ls i j = markersBetween ls i k ++ m :: markersBetween ls k j := by
  have hcut := eq_take_append_cons_drop ((List.getElem?_take_of_lt hkj).trans ht)
  have hk := (List.getElem?_eq_some_iff.1 ht).1
  rw [List.take_take, Nat.min_eq_left hkj.le] at hcut
  have hle : i + 1 ≤ (ls.take k).length := by
    rw [List.length_take]
    omega
  rw [markersBetween]
  conv_lhs => rw [hcut, List.drop_append_of_le_length hle]
  rw [List.filterMap_append, List.filterMap_cons_some hm]
  rfl

/-- Pairs do not cross and share no line: of two, the one that ends first lies before the other or
within it. -/
theorem Paired.before_or_within {i' j' : Nat} (h : Paired ls i j) (h' : Paired ls i' j')
    (hlt : j < j') : j < i' ∨ i' < i := by
  by_contra hcross
  rw [not_or, Nat.not_lt, Nat.not_lt] at hcross
  obtain ⟨hi'j, hii'⟩ := hcross
  obtain ⟨t, ht, hopens⟩ := (lineIs_iff _ _ _).1 h'.opens
  obtain ⟨u, hu, hcloses⟩ := (lineIs_iff _ _ _).1 h.closes
  have hne : i' ≠ j := by
    rintro rfl
    obtain rfl := Option.some.inj (ht.symm.trans hu)
    rw [closesRegion_of_opensRegion hopens] at hcloses
    cases hcloses
  have hlt' : i' < j := Nat.lt_of_le_of_ne hi'j hne
  -- Between the later start and the earlier end, both pairs count the markers.
  have hafter : (markersBetween ls i' j).count .opens ≤ (markersBetween ls i' j).count .closes := by
    obtain rfl | hii' := Nat.eq_or_lt_of_le hii'
    · exact h.balanced.count_eq.le
    · have hsplit := markersBetween_split ht ((marker?_eq_opens_iff t).2 hopens) hii' hlt'
      have hbalanced := h.balanced
      rw [hsplit, List.append_cons] at hbalanced
      exact hbalanced.opens_le
  have hbefore : (markersBetween ls i' j).count .closes + 1 ≤
      (markersBetween ls i' j).count .opens := by
    have hsplit := markersBetween_split hu ((marker?_eq_closes_iff u).2 hcloses) hlt' hlt
    have hbalanced := h'.balanced
    rw [hsplit, List.append_cons] at hbalanced
    have hle := hbalanced.closes_le
    rw [List.count_append, List.count_append] at hle
    simpa using hle
  omega

end Pairs

section Stack

variable {index : Nat} {pending : List Nat}

/-- The regions begun and not yet ended behind a line, the latest first. -/
def pendingAfter (index : Nat) (pending : List Nat) : Option Marker → List Nat
  | some .opens => index :: pending
  | some .closes => pending.tail
  | none => pending

def endedAt (index : Nat) (pending : List Nat) : Option Marker → List Span
  | some .closes => pending.head?.toList.map (⟨·, index, .region⟩)
  | _ => []

def pendingBehind : Nat → List Nat → List Text → List Nat
  | _, pending, [] => pending
  | index, pending, t :: rest =>
    pendingBehind (index + 1) (pendingAfter index pending (marker? t)) rest

theorem regions_step (index : Nat) (pending : List Nat) (t : Text) (rest : List Text) :
    regions index pending (t :: rest) = endedAt index pending (marker? t) ++
      regions (index + 1) (pendingAfter index pending (marker? t)) rest := by
  rw [regions_cons, marker?]
  split
  · rfl
  · split <;> rfl

theorem pendingBehind_append (index : Nat) (pending : List Nat) (xs ys : List Text) :
    pendingBehind index pending (xs ++ ys) =
      pendingBehind (index + xs.length) (pendingBehind index pending xs) ys := by
  induction xs generalizing index pending with
  | nil => rfl
  | cons t rest ih =>
    rw [List.cons_append, pendingBehind, ih, List.length_cons, Nat.add_right_comm, Nat.add_assoc]
    rfl

theorem regions_append (index : Nat) (pending : List Nat) (xs ys : List Text) :
    regions index pending (xs ++ ys) = regions index pending xs ++
      regions (index + xs.length) (pendingBehind index pending xs) ys := by
  induction xs generalizing index pending with
  | nil => rfl
  | cons t rest ih =>
    rw [List.cons_append, regions_step, regions_step, ih, List.append_assoc, List.length_cons,
      Nat.add_right_comm, Nat.add_assoc]
    rfl

theorem pendingBehind_of_plain {ls : List Text} (h : ∀ t ∈ ls, marker? t = none) :
    pendingBehind index pending ls = pending := by
  induction ls generalizing index with
  | nil => rfl
  | cons t rest ih =>
    rw [pendingBehind, h t List.mem_cons_self]
    exact ih fun u hu => h u (List.mem_cons_of_mem t hu)

/-- Behind lines whose markers pair off, the stack is as before. -/
theorem pendingBehind_of_balanced {ls : List Text} (h : Balanced (ls.filterMap marker?)) :
    pendingBehind index pending ls = pending := by
  generalize hms : ls.filterMap marker? = ms at h
  induction h generalizing index pending ls with
  | nil => exact pendingBehind_of_plain (List.filterMap_eq_nil_iff.1 hms)
  | block _ _ hinner hrest =>
    obtain ⟨plain, t, ls, rfl, hplain, ht, hls⟩ := List.filterMap_eq_cons_iff.1 hms
    obtain ⟨inner, ls, rfl, hi, hls⟩ := List.filterMap_eq_append_iff.1 hls
    obtain ⟨plain', u, rest, rfl, hplain', hu, hr⟩ := List.filterMap_eq_cons_iff.1 hls
    rw [pendingBehind_append, pendingBehind_of_plain hplain, pendingBehind, ht,
      pendingBehind_append, hinner hi, pendingBehind_append, pendingBehind_of_plain hplain',
      pendingBehind, hu]
    exact hrest hr

/-- What lies on the stack: the marker on top has begun a region, all markers behind it pair off,
and below it lies what was pending in front of it. -/
theorem exists_of_pendingBehind {ls : List Text} {i : Nat} {rest : List Nat}
    (h : pendingBehind 0 [] ls = i :: rest) : ∃ above t inner, ls = above ++ t :: inner ∧
      above.length = i ∧ marker? t = some .opens ∧ Balanced (inner.filterMap marker?) ∧
      pendingBehind 0 [] above = rest := by
  obtain rfl | ⟨ls, t, rfl⟩ := List.eq_nil_or_concat' ls
  · cases h
  · rw [pendingBehind_append, Nat.zero_add] at h
    change pendingAfter ls.length (pendingBehind 0 [] ls) (marker? t) = i :: rest at h
    cases ht : marker? t with
    | none =>
      rw [ht] at h
      obtain ⟨above, u, inner, rfl, hi, hu, hinner, hbelow⟩ := exists_of_pendingBehind h
      refine ⟨above, u, inner ++ [t], by simp, hi, hu, ?_, hbelow⟩
      rwa [List.filterMap_append, List.filterMap_cons_none ht, List.filterMap_nil, List.append_nil]
    | some m =>
      cases m with
      | opens =>
        rw [ht] at h
        obtain ⟨rfl, rfl⟩ := List.cons.inj h
        exact ⟨ls, t, [], rfl, rfl, ht, .nil, rfl⟩
      | closes =>
        -- The marker ends the region on top, so two stretches and this region become one.
        rw [ht] at h
        obtain ⟨k, hk⟩ : ∃ k, pendingBehind 0 [] ls = k :: i :: rest := by
          cases hls : pendingBehind 0 [] ls with
          | nil =>
            rw [hls] at h
            cases h
          | cons k tail =>
            rw [hls] at h
            exact ⟨k, congrArg _ h⟩
        obtain ⟨above, u, inner, rfl, -, hu, hinner, hbelow⟩ := exists_of_pendingBehind hk
        obtain ⟨above, v, outer, rfl, hi, hv, houter, hbelow⟩ := exists_of_pendingBehind hbelow
        refine ⟨above, v, outer ++ u :: (inner ++ [t]), by simp, hi, hv, ?_, hbelow⟩
        rw [List.filterMap_append, List.filterMap_cons_some hu, List.filterMap_append,
          List.filterMap_cons_some ht]
        exact houter.append (.block hinner .nil)
termination_by ls.length

end Stack

section Found

variable {index : Nat} {pending : List Nat} {ls : List Text} {span : Span}

theorem exists_of_mem_regions (h : span ∈ regions index pending ls) : ∃ front u below,
    ls = front ++ u :: below ∧ marker? u = some .closes ∧
      (pendingBehind index pending front).head? = some span.start ∧
      span.stop = index + front.length := by
  induction ls generalizing index pending with
  | nil => cases h
  | cons t rest ih =>
    rw [regions_step, List.mem_append] at h
    obtain hself | hbelow := h
    · unfold endedAt at hself
      split at hself
      · rename_i ht
        obtain ⟨start, hstart, rfl⟩ := List.mem_map.1 hself
        exact ⟨[], t, rest, rfl, ht, Option.mem_toList.1 hstart, rfl⟩
      · cases hself
    · obtain ⟨front, u, below, rfl, hu, hstart, hstop⟩ := ih hbelow
      refine ⟨t :: front, u, below, rfl, hu, hstart, ?_⟩
      rw [hstop, List.length_cons]
      omega

theorem paired_of_mem_regions (h : span ∈ regions 0 [] ls) : Paired ls span.start span.stop := by
  obtain ⟨front, u, below, rfl, hu, hhead, hstop⟩ := exists_of_mem_regions h
  obtain ⟨rest, hrest⟩ := List.head?_eq_some_iff.1 hhead
  obtain ⟨above, t, inner, rfl, hstart, ht, hinner, -⟩ := exists_of_pendingBehind hrest
  have hpaired := (paired_append_iff above inner below t u).2 ⟨ht, hu, hinner⟩
  have hlen : 0 + (above ++ t :: inner).length = above.length + 1 + inner.length := by
    simp
    omega
  rw [hstop, hlen, ← hstart, List.append_assoc]
  exact hpaired

theorem mem_regions_of_paired {i j : Nat} (h : Paired ls i j) :
    (⟨i, j, .region⟩ : Span) ∈ regions 0 [] ls := by
  obtain ⟨above, t, inner, u, below, rfl, rfl, rfl⟩ := h.exists_append
  obtain ⟨ht, hu, hinner⟩ := (paired_append_iff above inner below t u).1 h
  rw [regions_append, Nat.zero_add, regions_step, ht, regions_append, regions_step, hu,
    pendingBehind_of_balanced hinner]
  simp [endedAt, pendingAfter]

theorem mem_regions_iff (i j : Nat) :
    (⟨i, j, .region⟩ : Span) ∈ regions 0 [] ls ↔ Paired ls i j :=
  ⟨paired_of_mem_regions, mem_regions_of_paired⟩

theorem pairwise_stop_regions :
    (regions index pending ls).Pairwise fun a b => a.stop < b.stop := by
  induction ls generalizing index pending with
  | nil => exact .nil
  | cons t rest ih =>
    rw [regions_step, List.pairwise_append]
    refine ⟨?_, ih, ?_⟩
    · unfold endedAt
      split
      · cases pending.head? <;> simp
      · exact .nil
    · intro a ha b hb
      obtain ⟨front, -, -, -, -, -, hstop⟩ := exists_of_mem_regions hb
      unfold endedAt at ha
      split at ha
      · obtain ⟨start, -, rfl⟩ := List.mem_map.1 ha
        rw [hstop]
        change index < index + 1 + front.length
        omega
      · cases ha

/-- A marker on the stack that no region begins with might as well not be there. -/
theorem regions_of_unused {k : Nat} (later earlier : List Nat)
    (h : ∀ s ∈ regions index (later ++ k :: earlier) ls, s.start ≠ k) :
    regions index (later ++ k :: earlier) ls = regions index (later ++ earlier) ls := by
  induction ls generalizing index later with
  | nil => rfl
  | cons t rest ih =>
    rw [regions_step] at h
    rw [regions_step, regions_step]
    cases ht : marker? t with
    | none =>
      rw [ht] at h
      exact ih later h
    | some m =>
      rw [ht] at h
      cases m with
      | opens => exact ih (index :: later) h
      | closes =>
        cases later with
        | nil => exact absurd rfl (h ⟨k, index, .region⟩ List.mem_cons_self)
        | cons start later =>
          have hrest := ih later fun s hs => h s (List.mem_cons_of_mem _ hs)
          exact congrArg (⟨start, index, .region⟩ :: ·) hrest

/-- The marker on a line, if there is one, has no partner. -/
def Unpaired (ls : List Text) (k : Nat) : Prop := ∀ n, ¬ Paired ls k n ∧ ¬ Paired ls n k

/-- A marker without a partner might as well not be there. -/
theorem regions_set_of_unpaired {k : Nat} {line : Text} (h : Unpaired ls k)
    (hline : marker? line = none) : regions 0 [] (ls.set k line) = regions 0 [] ls := by
  obtain hlt | hge := Nat.lt_or_ge k ls.length
  · have hcut := eq_take_append_cons_drop (List.getElem?_eq_getElem hlt)
    have hlen : 0 + (ls.take k).length = k := by
      rw [List.length_take]
      omega
    have hls := congrArg (regions 0 []) hcut
    rw [regions_append, hlen, regions_step] at hls
    have hmem : ∀ s ∈ endedAt k (pendingBehind 0 [] (ls.take k)) (marker? ls[k]) ++
        regions (k + 1) (pendingAfter k (pendingBehind 0 [] (ls.take k)) (marker? ls[k]))
          (ls.drop (k + 1)), s.start ≠ k ∧ s.stop ≠ k := by
      intro s hs
      have hpaired := paired_of_mem_regions (hls ▸ List.mem_append_right _ hs)
      constructor
      · intro hstart
        exact (h s.stop).1 (hstart ▸ hpaired)
      · intro hstop
        exact (h s.start).2 (hstop ▸ hpaired)
    rw [List.set_eq_take_append_cons_drop, if_pos hlt, regions_append, hlen, regions_step, hline, hls]
    congr 1
    cases hk : marker? ls[k] with
    | none => rfl
    | some m =>
      rw [hk] at hmem
      cases m with
      | opens =>
        symm
        exact regions_of_unused [] _ fun s hs => (hmem s hs).1
      | closes =>
        cases hstack : pendingBehind 0 [] (ls.take k) with
        | nil => rfl
        | cons start rest =>
          rw [hstack] at hmem
          exact absurd rfl (hmem ⟨start, k, .region⟩ List.mem_cons_self).2
  · rw [List.set_eq_of_length_le hge]

/-- Two parts lie one behind the other or one within the other, and no end of one is an end of the
other. -/
def Span.Apart (a b : Span) : Prop :=
  a.stop < b.start ∨ b.stop < a.start ∨
    a.start < b.start ∧ b.stop < a.stop ∨ b.start < a.start ∧ a.stop < b.stop

/-- The regions of a document are its pairs of markers, listed once each by the lines they end on,
and any two of them are apart. A marker without a partner begins and ends no region, and the regions
stay the same when its line is replaced by one without a marker. -/
theorem regions_exactly_paired (text : Text) :
    let ls := splitLines text
    let found := spansOf .region text
    (∀ i j, ⟨i, j, .region⟩ ∈ spans text ↔ Paired ls i j) ∧
    found.Pairwise (fun a b => a.stop < b.stop) ∧
    found.Pairwise Span.Apart ∧
    ∀ k, Unpaired ls k → (∀ s ∈ found, s.start ≠ k ∧ s.stop ≠ k) ∧
      ∀ line text', marker? line = none → splitLines text' = ls.set k line →
        spansOf .region text' = found := by
  intro ls found
  have hfound : found = regions 0 [] ls := spansOf_region text
  have hpaired : ∀ s ∈ found, Paired ls s.start s.stop := by
    rw [hfound]
    exact fun s hs => paired_of_mem_regions hs
  have hsorted : found.Pairwise fun a b => a.stop < b.stop := hfound ▸ pairwise_stop_regions
  refine ⟨?_, hsorted, ?_, ?_⟩
  · intro i j
    rw [← mem_regions_iff, ← spansOf_region, mem_spansOf_iff, and_iff_left rfl]
  · refine hsorted.imp_of_mem ?_
    intro a b ha hb hlt
    obtain hbehind | hwithin := (hpaired a ha).before_or_within (hpaired b hb) hlt
    · exact .inl hbehind
    · exact .inr (.inr (.inr ⟨hwithin, hlt⟩))
  · intro k hk
    constructor
    · intro s hs
      constructor
      · rintro rfl
        exact (hk s.stop).1 (hpaired s hs)
      · rintro rfl
        exact (hk s.start).2 (hpaired s hs)
    · intro line text' hline htext'
      rw [spansOf_region, htext', regions_set_of_unpaired hk hline, hfound]

/-- Nested regions below strays of both kinds, of which one is taken away. -/
theorem regions_exactly_paired_strays :
    let text :=
      ";#endregion\n; #region\n;#region a\n[A]\n;#region b\n;#endregion\n;#endregion".toList
    spans text = [⟨3, 6, .sectionFold⟩, ⟨4, 5, .region⟩, ⟨2, 6, .region⟩] ∧
      Paired (splitLines text) 2 6 ∧ Unpaired (splitLines text) 1 ∧
      spansOf .region (emptyLine 1 text) = [⟨4, 5, .region⟩, ⟨2, 6, .region⟩] := by
  intro text
  have hspans : spans text = [⟨3, 6, .sectionFold⟩, ⟨4, 5, .region⟩, ⟨2, 6, .region⟩] := by
    decide +kernel
  have hregions := regions_exactly_paired text
  have hstray : Unpaired (splitLines text) 1 := by
    intro n
    rw [← hregions.1, ← hregions.1, hspans]
    simp
  refine ⟨hspans, (hregions.1 2 6).1 (by simp [hspans]), hstray, ?_⟩
  rw [(hregions.2.2.2 1 hstray).2 [] _ rfl (splitLines_emptyLine 1 text)]
  simp [spansOf, hspans]

end Found

end SkinLint.Fold
