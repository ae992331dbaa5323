import SkinLint.Proofs.Colour.Editing
import SkinLint.Proofs.Layout

/-!
# Colours of a formatted document

A layout takes away blanks at the ends of a line and around its first `=`. A literal ends in a word
and holds no `=`, so none reaches into such blanks, and behind them a scan goes on as at the start of
a line. So a text and its layout have the same colours in the same order.
-/
namespace SkinLint.Colour
open Text LineKind Layout Document

theorem isWord_of_isBlank {c : Char} (h : isBlank c = true) : isWord c = false := by
  have hall : (blanks.all fun d => !isWord d) = true := by decide +kernel
  simpa using List.all_eq_true.1 hall c ((isBlank_iff_mem c).1 h)

section Bars

/-- Text that no literal in front of it goes on into: it is blank, or `=` comes first behind its
blanks. -/
def Bars (u : Text) : Prop := ∀ c ∈ (trimStart u).head?, c = '='

variable {t u : Text} {found : Option (Colour × Form)}

theorem bars_of_isBlank (h : ∀ c ∈ u, isBlank c = true) : Bars u := by
  intro c hc
  rw [trimStart, List.dropWhile_eq_nil_iff.2 h] at hc
  cases hc

theorem bars_equals (t : Text) : Bars ('=' :: t) := by
  rintro c ⟨⟩
  rfl

/-- As far as a literal could go on, there are blanks only, or there is an `=`. -/
theorem Bars.cases_of_isPrefix {a : Text} (h : Bars u) (ha : a <+: u) :
    (∀ c ∈ a, isBlank c = true) ∨ '=' ∈ a := by
  obtain ⟨rest, rfl⟩ := ha
  by_cases hblank : trimStart a = []
  · exact .inl (List.dropWhile_eq_nil_iff.1 hblank)
  · obtain ⟨c, b, hb⟩ := List.exists_cons_of_ne_nil hblank
    obtain rfl : c = '=' := h c (by rw [head?_trimStart_append rest hblank, hb]; rfl)
    have hmem : '=' ∈ trimStart a := by
      rw [hb]
      exact List.mem_cons_self
    exact .inr (List.dropWhile_subset isBlank hmem)

theorem Bars.startsWord_eq (h : Bars u) : startsWord u = false := by
  cases u with
  | nil => rfl
  | cons c u =>
    obtain hblank | hequals := h.cases_of_isPrefix (List.prefix_append [c] u)
    · exact isWord_of_isBlank (hblank c List.mem_cons_self)
    · obtain rfl := List.mem_singleton.1 hequals
      exact (by decide : isWord '=' = false)

theorem Bars.startsWord_append (h : Bars u) (t : Text) : startsWord (t ++ u) = startsWord t := by
  by_cases ht : t = []
  · rw [ht, List.nil_append, h.startsWord_eq]
    rfl
  · exact Colour.startsWord_append u ht

/-- A literal that starts in front of a bar ends there. -/
theorem Spells.ends_before {lit rest : Text} (hlit : Spells lit found) (hu : Bars u)
    (heq : t ++ u = lit ++ rest) : ∃ r, t = lit ++ r ∧ rest = r ++ u := by
  obtain ⟨a, rfl, rfl⟩ | hbefore := List.append_eq_append_iff.1 heq
  · by_cases ha : a = []
    · exact ⟨[], by simp [ha], by simp [ha]⟩
    · exfalso
      obtain hblank | hequals := hu.cases_of_isPrefix (List.prefix_append a rest)
      · obtain ⟨c, hlast, hword⟩ := hlit.isWord_getLast?
        rw [List.getLast?_append_of_ne_nil t ha] at hlast
        rw [isWord_of_isBlank (hblank c (List.mem_of_getLast? hlast))] at hword
        cases hword
      · have hnone : '=' ∉ t ++ a := hlit.notMem (by decide) (by decide) (by decide)
        exact hnone (List.mem_append_right t hequals)
  · exact hbefore

theorem literal?_append_of_bars (hu : Bars u) (t : Text) : literal? (t ++ u) = literal? t := by
  apply Option.ext
  rintro ⟨found, n⟩
  rw [literal?_eq_some_iff, literal?_eq_some_iff]
  constructor
  · rintro ⟨lit, rest, heq, hlit, hlen, hrest⟩
    obtain ⟨r, ht, rfl⟩ := hlit.ends_before hu heq
    rw [hu.startsWord_append] at hrest
    exact ⟨lit, r, ht, hlit, hlen, hrest⟩
  · rintro ⟨lit, r, rfl, hlit, hlen, hr⟩
    rw [← hu.startsWord_append] at hr
    exact ⟨lit, r ++ u, List.append_assoc _ _ _, hlit, hlen, hr⟩

theorem literal?_eq_none (h : startsWord t = false) : literal? t = none := by
  rw [Option.eq_none_iff_forall_ne_some]
  rintro ⟨found, n⟩ hliteral
  obtain ⟨lit, rest, rfl, hlit, -, -⟩ := (literal?_eq_some_iff _ _ _).1 hliteral
  obtain ⟨c, tail, rfl⟩ := List.exists_cons_of_ne_nil hlit.ne_nil
  have hword : isWord c = true := hlit.opensWord rest c rfl
  rw [List.cons_append, startsWord, List.head?_cons, Option.any_some, hword] at h
  cases h

end Bars

section Scanning

variable (line : Nat) {t u : Text}

/-- Where no word goes on, it does not matter whether one ends. -/
theorem scan_of_startsWord (h : startsWord t = false) (inWord : Bool) (column : Nat) :
    scan line inWord 0 column t = scan line false 0 column t := by
  cases t with
  | nil => rfl
  | cons c t =>
    cases inWord with
    | true => rw [scan_inWord, scan_of_literal?_none line column (literal?_eq_none h)]
    | false => rfl

/-- A scan that comes to a bar goes on as at the start of a line. -/
theorem scan_append_of_bars (hu : Bars u) {skip : Nat} (hskip : skip ≤ t.length) (inWord : Bool)
    (column : Nat) : scan line inWord skip column (t ++ u) =
      scan line inWord skip column t ++ scan line false 0 (column + t.length) u := by
  induction t generalizing inWord skip column with
  | nil =>
    obtain rfl : skip = 0 := Nat.le_zero.1 hskip
    exact scan_of_startsWord line hu.startsWord_eq inWord column
  | cons c t ih =>
    have hcolumn : column + (c :: t).length = column + 1 + t.length := by
      rw [List.length_cons]
      omega
    rw [List.cons_append, hcolumn]
    cases skip with
    | succ skip => exact ih (Nat.le_of_succ_le_succ hskip) _ _
    | zero =>
      cases inWord with
      | true =>
        rw [scan_inWord, scan_inWord]
        exact ih (Nat.zero_le _) _ _
      | false =>
        have hsame : literal? (c :: (t ++ u)) = literal? (c :: t) :=
          literal?_append_of_bars hu (c :: t)
        cases hliteral : literal? (c :: t) with
        | none =>
          rw [scan_of_literal?_none line column hliteral,
            scan_of_literal?_none line column (hsame.trans hliteral)]
          exact ih (Nat.zero_le _) _ _
        | some found =>
          obtain ⟨found, n⟩ := found
          obtain ⟨lit, rest, ht, -, rfl, -⟩ := (literal?_eq_some_iff _ _ _).1 hliteral
          have hlen : (c :: t).length = lit.length + rest.length := by
            rw [ht, List.length_append]
          rw [List.length_cons] at hlen
          rw [scan_of_literal? line column hliteral,
            scan_of_literal? line column (hsame.trans hliteral), List.append_assoc,
            ih (by omega)]

end Scanning

section Values

def Entry.value (e : Entry) : Colour × Form := (e.colour, e.form)

theorem map_value_scan (line line' column column' : Nat) (inWord : Bool) (skip : Nat) (t : Text) :
    (scan line inWord skip column t).map Entry.value =
      (scan line' inWord skip column' t).map Entry.value := by
  induction t generalizing inWord skip column column' with
  | nil => rfl
  | cons c t ih =>
    cases skip with
    | succ skip => exact ih _ _ _ _
    | zero =>
      cases inWord with
      | true =>
        rw [scan_inWord, scan_inWord]
        exact ih _ _ _ _
      | false =>
        cases hliteral : literal? (c :: t) with
        | none =>
          rw [scan_of_literal?_none _ _ hliteral, scan_of_literal?_none _ _ hliteral]
          exact ih _ _ _ _
        | some found =>
          obtain ⟨found, n⟩ := found
          rw [scan_of_literal? _ _ hliteral, scan_of_literal? _ _ hliteral, List.map_append,
            List.map_append, ih (column + 1) (column' + 1)]
          cases found <;> rfl

def values (t : Text) : List (Colour × Form) := (scan 0 false 0 0 t).map Entry.value

variable {t u : Text}

theorem values_append (hu : Bars u) (t : Text) : values (t ++ u) = values t ++ values u := by
  rw [values, scan_append_of_bars 0 hu (Nat.zero_le _), List.map_append,
    map_value_scan 0 0 (0 + t.length) 0]
  rfl

theorem values_cons {c : Char} (hc : isWord c = false) (t : Text) : values (c :: t) = values t := by
  rw [values, scan_of_literal?_none 0 0 (literal?_eq_none hc), hc, map_value_scan 0 0 (0 + 1) 0]
  rfl

theorem values_blank_append (hu : ∀ c ∈ u, isBlank c = true) (t : Text) :
    values (u ++ t) = values t := by
  induction u with
  | nil => rfl
  | cons c u ih =>
    rw [List.cons_append, values_cons (isWord_of_isBlank (hu c List.mem_cons_self))]
    exact ih fun d hd => hu d (List.mem_cons_of_mem c hd)

theorem values_of_isBlank (hu : ∀ c ∈ u, isBlank c = true) : values u = [] := by
  have h := values_blank_append hu []
  rwa [List.append_nil] at h

theorem values_trim (t : Text) : values (trim t) = values t := by
  obtain ⟨a, b, ht, ha, hb⟩ := trim_decompose t
  calc values (trim t)
    _ = values (trim t ++ b) := by
      rw [values_append (bars_of_isBlank hb), values_of_isBlank hb, List.append_nil]
    _ = values (a ++ trim t ++ b) := by rw [List.append_assoc, values_blank_append ha]
    _ = values t := by rw [← ht]

theorem values_pair (key value : Text) :
    values (key ++ '=' :: value) = values key ++ values value := by
  rw [values_append (bars_equals value), values_cons (by decide)]

theorem values_of_laid? {l : Text} (h : laid? t = some l) : values l = values t := by
  rw [← values_trim t]
  rcases laid?_cases h with ⟨key, value, -, hpair, -, rfl⟩ | ⟨rfl, -⟩
  · obtain ⟨before, after, ht, -, rfl, rfl, -⟩ := (pair?_eq_some_iff _ _ _).1 hpair
    rw [ht, values_pair, values_pair, values_trim, values_trim]
  · rfl

theorem values_of_laid?_eq_none (h : laid? t = none) : values t = [] := by
  rw [laid?_eq_none_iff, classify_eq_blank_iff, trim_eq_nil_iff] at h
  exact values_of_isBlank h

end Values

section Documents

theorem map_value_entries (text : Text) :
    (entries text).map Entry.value = (splitLines text).flatMap values := by
  rw [entries, List.map_flatMap, ← map_text_lines, List.flatMap_map]
  congr 1
  funext l
  exact map_value_scan l.index 0 0 0 false 0 l.text

theorem flatMap_values (ls : List Text) : ls.flatMap values = (ls.filterMap laid?).flatMap values := by
  induction ls with
  | nil => rfl
  | cons t rest ih =>
    rw [List.flatMap_cons, ih]
    cases h : laid? t with
    | none => rw [List.filterMap_cons_none h, values_of_laid?_eq_none h, List.nil_append]
    | some l => rw [List.filterMap_cons_some h, List.flatMap_cons, values_of_laid? h]

/-- A text and its layout have the same colours, written in the same forms and in the same order. -/
theorem format_keeps_colours (text : Text) :
    (entries (format text)).map (fun e => (e.colour, e.form)) =
      (entries text).map fun e => (e.colour, e.form) :=
  calc (entries (format text)).map Entry.value
    _ = (splitLines (format text)).flatMap values := map_value_entries (format text)
    _ = ((splitLines (format text)).filterMap laid?).flatMap values := flatMap_values _
    _ = ((splitLines text).filterMap laid?).flatMap values := by
      rw [filterMap_laid?_splitLines_format]
    _ = (splitLines text).flatMap values := (flatMap_values _).symm
    _ = (entries text).map Entry.value := (map_value_entries text).symm

end Documents

end SkinLint.Colour
