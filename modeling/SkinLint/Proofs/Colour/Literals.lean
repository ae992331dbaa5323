import Mathlib.Data.List.TakeWhile
import SkinLint.Colour
import SkinLint.Proofs.Text

/-!
# Colour literals

A literal is read exactly where one is spelled, up to the end of a word, and what is written for a
colour is spelled and stands for it. Text that ends outside a word, in front of a literal, is either
read as if the literal were not there, or every literal of that form in that place is read into it.
-/
namespace SkinLint.Colour
open Text

section Characters

theorem isHexDigit_cases {c : Char} (h : isHexDigit c = true) :
    ('0' ≤ c ∧ c ≤ '9') ∨ ('a' ≤ c ∧ c ≤ 'f') ∨ 'A' ≤ c ∧ c ≤ 'F' := by
  unfold isHexDigit hexDigit? at h
  grind

theorem isWord_of_isHexDigit {c : Char} (h : isHexDigit c = true) : isWord c = true := by
  have hascii : ∀ d : Char, d ≤ 'z' → c ≤ d → c.toNat < 0x80 := by
    intro d hd hc
    have : c.toNat ≤ 122 := Char.le_trans hc hd
    omega
  obtain ⟨hlow, hhigh⟩ | ⟨hlow, hhigh⟩ | ⟨hlow, hhigh⟩ := isHexDigit_cases h
  · simp [isWord, isDigit, hascii _ (by decide) hhigh, hlow, hhigh]
  · have hz : c ≤ 'z' := Char.le_trans hhigh (by decide)
    simp [isWord, isLetter, hascii _ (by decide) hhigh, hlow, hz]
  · have hz : c ≤ 'Z' := Char.le_trans hhigh (by decide)
    simp [isWord, isLetter, hascii _ (by decide) hhigh, hlow, hz]

theorem startsWord_append {r : Text} (t : Text) (hr : r ≠ []) :
    startsWord (r ++ t) = startsWord r := by
  rw [startsWord, startsWord, List.head?_append_of_ne_nil _ hr]

theorem startsWord_comma (t : Text) : startsWord (',' :: t) = false :=
  show isWord ',' = false by decide

theorem isDigit_head?_of_startsWord {t : Text} (h : startsWord t = false) :
    ∀ c ∈ t.head?, isDigit c = false := by
  intro c hc
  by_contra hd
  rw [startsWord, hc] at h
  simp [isWord_of_isDigit (Bool.of_not_eq_false hd)] at h

end Characters

section Numbers

structure IsNumber (t : Text) : Prop where
  digits : ∀ c ∈ t, isDigit c = true
  one_le : 1 ≤ t.length
  le_three : t.length ≤ 3

def isGapChar (c : Char) : Bool := c == ' ' || c == '\t'

def IsGap (t : Text) : Prop := ∀ c ∈ t, isGapChar c = true

/-- A text is cut in one way only where a run of characters ends. -/
theorem run_eq_iff {p : Char → Bool} (t a rest : Text) :
    (t.takeWhile p = a ∧ t.dropWhile p = rest) ↔
      t = a ++ rest ∧ (∀ c ∈ a, p c = true) ∧ ∀ c ∈ rest.head?, p c = false := by
  constructor
  · rintro ⟨rfl, rfl⟩
    refine ⟨List.takeWhile_append_dropWhile.symm, fun c hc => List.mem_takeWhile_imp hc, ?_⟩
    intro c hc
    have hnot := List.head?_dropWhile_not p t
    rw [Option.mem_def.1 hc] at hnot
    simpa using hnot
  · rintro ⟨rfl, ha, hrest⟩
    rw [List.takeWhile_append_of_pos ha, List.dropWhile_append_of_pos ha]
    cases rest with
    | nil => simp
    | cons c r => simp [hrest c rfl]

theorem number?_eq_some_iff (t a rest : Text) : number? t = some (a, rest) ↔
    t = a ++ rest ∧ IsNumber a ∧ ∀ c ∈ rest.head?, isDigit c = false := by
  have hnumber : number? t = some (a, rest) ↔ (t.takeWhile isDigit = a ∧ t.dropWhile isDigit = rest) ∧
      1 ≤ a.length ∧ a.length ≤ 3 := by
    unfold number?
    grind
  rw [hnumber, run_eq_iff]
  constructor
  · rintro ⟨⟨rfl, ha, hrest⟩, hone, hthree⟩
    exact ⟨rfl, ⟨ha, hone, hthree⟩, hrest⟩
  · rintro ⟨rfl, ha, hrest⟩
    exact ⟨⟨rfl, ha.digits, hrest⟩, ha.one_le, ha.le_three⟩

theorem afterComma?_eq_some_iff (t rest : Text) : afterComma? t = some rest ↔
    ∃ gap, t = ',' :: (gap ++ rest) ∧ IsGap gap ∧ ∀ c ∈ rest.head?, isGapChar c = false := by
  constructor
  · intro h
    unfold afterComma? at h
    split at h
    · rename_i u
      cases h
      obtain ⟨hu, hgap, hrest⟩ := (run_eq_iff (p := isGapChar) u _ _).1 ⟨rfl, rfl⟩
      exact ⟨_, congrArg _ hu, hgap, hrest⟩
    · cases h
  · rintro ⟨gap, rfl, hgap, hrest⟩
    exact congrArg some ((run_eq_iff (p := isGapChar) _ _ _).2 ⟨rfl, hgap, hrest⟩).2

/-- A number at the start of a text, with the comma and the gap behind it, and what follows. -/
def linked? (t : Text) : Option (Text × Text) :=
  (number? t).bind fun (a, t) => (afterComma? t).map fun t => (a, t)

def last? (t : Text) : Option (Text × Text) :=
  (number? t).bind fun (a, t) => if startsWord t then none else some (a, t)

theorem triple?_eq (t : Text) : triple? t = (linked? t).bind fun (a, t) =>
    (linked? t).bind fun (b, t) => (last? t).map fun (c, t) => (a, b, c, t) := by
  simp only [triple?, linked?, last?, Option.bind_eq_bind, Option.bind_assoc, Option.map_bind,
    Option.bind_map, Function.comp_def, apply_ite, Option.map_some, Option.map_none]

theorem last?_eq_some_iff (t a rest : Text) : last? t = some (a, rest) ↔
    t = a ++ rest ∧ IsNumber a ∧ startsWord rest = false := by
  have hlast : last? t = some (a, rest) ↔
      number? t = some (a, rest) ∧ startsWord rest = false := by
    cases hnumber : number? t <;> simp [last?, hnumber]; grind
  rw [hlast, number?_eq_some_iff]
  constructor
  · rintro ⟨⟨ht, ha, -⟩, hrest⟩
    exact ⟨ht, ha, hrest⟩
  · rintro ⟨ht, ha, hrest⟩
    exact ⟨⟨ht, ha, isDigit_head?_of_startsWord hrest⟩, hrest⟩

theorem isDigit_comma : isDigit ',' = false := by decide

theorem linked?_eq_some_iff (t a rest : Text) : linked? t = some (a, rest) ↔
    ∃ gap, t = a ++ ',' :: (gap ++ rest) ∧ IsNumber a ∧ IsGap gap ∧
      ∀ c ∈ rest.head?, isGapChar c = false := by
  have hlinked : linked? t = some (a, rest) ↔
      ∃ u, number? t = some (a, u) ∧ afterComma? u = some rest := by
    simp [linked?, Option.bind_eq_some_iff, Option.map_eq_some_iff]
  rw [hlinked]
  constructor
  · rintro ⟨u, hnumber, hcomma⟩
    obtain ⟨rfl, ha, -⟩ := (number?_eq_some_iff t a u).1 hnumber
    obtain ⟨gap, rfl, hgap, hrest⟩ := (afterComma?_eq_some_iff u rest).1 hcomma
    exact ⟨gap, rfl, ha, hgap, hrest⟩
  · rintro ⟨gap, rfl, ha, hgap, hrest⟩
    refine ⟨_, (number?_eq_some_iff _ a _).2 ⟨rfl, ha, ?_⟩,
      (afterComma?_eq_some_iff _ rest).2 ⟨gap, rfl, hgap, hrest⟩⟩
    rintro c ⟨⟩
    exact isDigit_comma

end Numbers

section Spelling

/-- How a literal is spelled, and what it stands for: numbers with digits of other scripts stand for
nothing. -/
inductive Spells : Text → Option (Colour × Form) → Prop
  | rgb {a gap b gap' c : Text} : IsNumber a → IsGap gap → IsNumber b → IsGap gap' → IsNumber c →
    Spells (a ++ ',' :: (gap ++ (b ++ ',' :: (gap' ++ c)))) ((ofTriple? a b c).map (·, .rgb))
  | hex {a b c d e f : Char} : (∀ x ∈ [a, b, c, d, e, f], isHexDigit x = true) →
    Spells [a, b, c, d, e, f] (some (⟨pair a b, pair c d, pair e f, 255⟩, .hex))

theorem isGapChar_of_isWord {c : Char} (h : isWord c = true) : isGapChar c = false := by
  by_contra hgap
  rw [isGapChar, Bool.not_eq_false, Bool.or_eq_true, beq_iff_eq, beq_iff_eq] at hgap
  obtain rfl | rfl := hgap
  · exact absurd h (by decide)
  · exact absurd h (by decide)

/-- A number starts with a digit, so no gap goes on into it. -/
theorem IsNumber.isGapChar_head? {a : Text} (ha : IsNumber a) (t : Text) :
    ∀ c ∈ (a ++ t).head?, isGapChar c = false := by
  intro c hc
  rw [List.head?_append_of_ne_nil _ (List.ne_nil_of_length_pos ha.one_le)] at hc
  exact isGapChar_of_isWord (isWord_of_isDigit (ha.digits c (List.mem_of_mem_head? hc)))

theorem linked?_number {a gap b : Text} (ha : IsNumber a) (hgap : IsGap gap) (hb : IsNumber b)
    (t : Text) : linked? (a ++ ',' :: (gap ++ (b ++ t))) = some (a, b ++ t) :=
  (linked?_eq_some_iff _ _ _).2 ⟨gap, rfl, ha, hgap, hb.isGapChar_head? t⟩

theorem last?_number {a t : Text} (ha : IsNumber a) (ht : startsWord t = false) :
    last? (a ++ t) = some (a, t) :=
  (last?_eq_some_iff _ _ _).2 ⟨rfl, ha, ht⟩

/-- Six hexadecimal digits are too long for a number, and its end would lie inside their word. -/
theorem startsWord_of_hex {h a t r : Text} (hdigits : ∀ c ∈ h, isHexDigit c = true)
    (hlen : h.length = 6) (ha : IsNumber a) (heq : h ++ t = a ++ r) : startsWord r = true := by
  have hle := ha.le_three
  have hr : r = h.drop a.length ++ t := by
    rw [← List.drop_append_of_le_length (by omega), heq, List.drop_left]
  have hne : h.drop a.length ≠ [] := by
    intro hnil
    have := List.drop_eq_nil_iff.1 hnil
    omega
  rw [hr, startsWord_append t hne]
  obtain ⟨c, u, hu⟩ := List.exists_cons_of_ne_nil hne
  rw [hu]
  exact isWord_of_isHexDigit (hdigits c (List.mem_of_mem_drop (hu ▸ List.mem_cons_self)))

theorem linked?_hex {h : Text} (hdigits : ∀ c ∈ h, isHexDigit c = true) (hlen : h.length = 6)
    (t : Text) : linked? (h ++ t) = none := by
  rw [Option.eq_none_iff_forall_ne_some]
  rintro ⟨a, rest⟩ hlinked
  obtain ⟨gap, heq, ha, -, -⟩ := (linked?_eq_some_iff _ a rest).1 hlinked
  have hstarts := startsWord_of_hex hdigits hlen ha heq
  rw [startsWord_comma] at hstarts
  cases hstarts

theorem last?_hex {h : Text} (hdigits : ∀ c ∈ h, isHexDigit c = true) (hlen : h.length = 6)
    (t : Text) : last? (h ++ t) = none := by
  rw [Option.eq_none_iff_forall_ne_some]
  rintro ⟨a, rest⟩ hlast
  obtain ⟨heq, ha, hrest⟩ := (last?_eq_some_iff _ a rest).1 hlast
  rw [startsWord_of_hex hdigits hlen ha heq] at hrest
  cases hrest

theorem triple?_eq_some_iff (t a b c rest : Text) : triple? t = some (a, b, c, rest) ↔
    ∃ gap gap', t = a ++ ',' :: (gap ++ (b ++ ',' :: (gap' ++ (c ++ rest)))) ∧ IsNumber a ∧
      IsGap gap ∧ IsNumber b ∧ IsGap gap' ∧ IsNumber c ∧ startsWord rest = false := by
  constructor
  · intro h
    rw [triple?_eq] at h
    obtain ⟨⟨a, t₁⟩, hfirst, h⟩ := Option.bind_eq_some_iff.1 h
    obtain ⟨⟨b, t₂⟩, hsecond, h⟩ := Option.bind_eq_some_iff.1 h
    obtain ⟨⟨c, t₃⟩, hthird, h⟩ := Option.map_eq_some_iff.1 h
    cases h
    obtain ⟨gap, rfl, ha, hgap, -⟩ := (linked?_eq_some_iff _ _ _).1 hfirst
    obtain ⟨gap', rfl, hb, hgap', -⟩ := (linked?_eq_some_iff _ _ _).1 hsecond
    obtain ⟨rfl, hc, hrest⟩ := (last?_eq_some_iff _ _ _).1 hthird
    exact ⟨gap, gap', rfl, ha, hgap, hb, hgap', hc, hrest⟩
  · rintro ⟨gap, gap', rfl, ha, hgap, hb, hgap', hc, hrest⟩
    simp [triple?_eq, linked?_number ha hgap hb, linked?_number hb hgap' hc,
      last?_number hc hrest]

theorem triple?_hex {h : Text} (hdigits : ∀ c ∈ h, isHexDigit c = true) (hlen : h.length = 6)
    (t : Text) : triple? (h ++ t) = none := by
  rw [triple?_eq, linked?_hex hdigits hlen, Option.bind_none]

theorem sextuple?_eq_some_iff (t rest : Text) (colour : Colour) :
    sextuple? t = some (colour, rest) ↔ ∃ a b c d e f, t = [a, b, c, d, e, f] ++ rest ∧
      (∀ x ∈ [a, b, c, d, e, f], isHexDigit x = true) ∧
      colour = ⟨pair a b, pair c d, pair e f, 255⟩ ∧ startsWord rest = false := by
  constructor
  · intro h
    unfold sextuple? at h
    split at h
    · split at h
      · rename_i hall
        cases h
        rw [Bool.and_eq_true, List.all_eq_true, Bool.not_eq_true'] at hall
        exact ⟨_, _, _, _, _, _, rfl, hall.1, rfl, hall.2⟩
      · cases h
    · cases h
  · rintro ⟨a, b, c, d, e, f, rfl, hdigits, rfl, hrest⟩
    refine if_pos ?_
    rw [Bool.and_eq_true, List.all_eq_true, Bool.not_eq_true']
    exact ⟨hdigits, hrest⟩

theorem literal?_of_triple? {lit a b c rest : Text}
    (h : triple? (lit ++ rest) = some (a, b, c, rest)) :
    literal? (lit ++ rest) = some ((ofTriple? a b c).map (·, .rgb), lit.length) := by
  simp [literal?, h]

theorem literal?_of_sextuple? {lit rest : Text} {colour : Colour} (h : triple? (lit ++ rest) = none)
    (hsextuple : sextuple? (lit ++ rest) = some (colour, rest)) :
    literal? (lit ++ rest) = some (some (colour, .hex), lit.length) := by
  simp [literal?, h, hsextuple]

/-- A literal is read exactly where one is spelled, up to the end of a word. -/
theorem literal?_eq_some_iff (t : Text) (found : Option (Colour × Form)) (n : Nat) :
    literal? t = some (found, n) ↔
      ∃ lit rest, t = lit ++ rest ∧ Spells lit found ∧ lit.length = n ∧ startsWord rest = false := by
  constructor
  · intro h
    cases htriple : triple? t with
    | some found =>
      obtain ⟨a, b, c, rest⟩ := found
      obtain ⟨gap, gap', ht, ha, hgap, hb, hgap', hc, hrest⟩ :=
        (triple?_eq_some_iff _ _ _ _ _).1 htriple
      obtain ⟨lit, hlit⟩ : ∃ lit, lit = a ++ ',' :: (gap ++ (b ++ ',' :: (gap' ++ c))) := ⟨_, rfl⟩
      obtain rfl : t = lit ++ rest := by simp [ht, hlit]
      rw [literal?_of_triple? htriple] at h
      cases h
      exact ⟨lit, rest, rfl, hlit ▸ .rgb ha hgap hb hgap' hc, rfl, hrest⟩
    | none =>
      have hfound := h
      rw [literal?, htriple] at hfound
      obtain ⟨⟨colour, rest⟩, hsextuple, -⟩ := Option.map_eq_some_iff.1 hfound
      obtain ⟨a, b, c, d, e, f, rfl, hdigits, rfl, hrest⟩ :=
        (sextuple?_eq_some_iff _ _ _).1 hsextuple
      rw [literal?_of_sextuple? htriple hsextuple] at h
      cases h
      exact ⟨_, rest, rfl, .hex hdigits, rfl, hrest⟩
  · rintro ⟨lit, rest, rfl, hspells, rfl, hrest⟩
    cases hspells with
    | @rgb a gap b gap' c ha hgap hb hgap' hc =>
      apply literal?_of_triple?
      exact (triple?_eq_some_iff _ a b c rest).2
        ⟨gap, gap', by simp, ha, hgap, hb, hgap', hc, hrest⟩
    | hex hdigits =>
      apply literal?_of_sextuple? (triple?_hex hdigits rfl rest)
      exact (sextuple?_eq_some_iff _ _ _).2 ⟨_, _, _, _, _, _, rfl, hdigits, rfl, hrest⟩

end Spelling

section Before

def EndsOutside (t : Text) : Prop := ∃ c, t.getLast? = some c ∧ isWord c = false

theorem EndsOutside.ne_nil {t : Text} (h : EndsOutside t) : t ≠ [] := by
  rintro rfl
  obtain ⟨c, hc, -⟩ := h
  cases hc

theorem EndsOutside.of_append {s t : Text} (h : EndsOutside (s ++ t)) (ht : t ≠ []) :
    EndsOutside t := by
  obtain ⟨c, hc, hword⟩ := h
  exact ⟨c, (List.getLast?_append_of_ne_nil s ht) ▸ hc, hword⟩

theorem EndsOutside.not_digits {t : Text} (h : EndsOutside t) : ¬∀ c ∈ t, isDigit c = true := by
  obtain ⟨c, hc, hword⟩ := h
  intro hall
  rw [isWord_of_isDigit (hall c (List.mem_of_getLast? hc))] at hword
  cases hword

def OpensWord (t : Text) : Prop := ∀ c ∈ t.head?, isWord c = true

theorem opensWord_nil : OpensWord [] := by simp [OpensWord]

/-- A number ends before text that ends outside a word does. -/
theorem number?_append {pre : Text} (hpre : EndsOutside pre) (t : Text) :
    number? (pre ++ t) = (number? pre).map fun (a, r) => (a, r ++ t) := by
  have htake : (pre ++ t).takeWhile isDigit = pre.takeWhile isDigit := by
    rw [List.takeWhile_append, if_neg]
    intro hlen
    apply hpre.not_digits
    rw [← List.takeWhile_eq_self_iff]
    exact List.IsPrefix.eq_of_length ( List.takeWhile_prefix isDigit) hlen
  have hdrop : (pre ++ t).dropWhile isDigit = pre.dropWhile isDigit ++ t := by
    rw [List.dropWhile_append, if_neg]
    rw [List.isEmpty_iff, List.dropWhile_eq_nil_iff]
    exact hpre.not_digits
  unfold number?
  rw [htake, hdrop]
  simp only []
  split <;> rfl

theorem rest_number? {pre a r : Text} (hpre : EndsOutside pre) (h : number? pre = some (a, r)) :
    EndsOutside r := by
  obtain ⟨rfl, ha, -⟩ := (number?_eq_some_iff _ _ _).1 h
  apply hpre.of_append
  rintro rfl
  rw [List.append_nil] at hpre
  exact hpre.not_digits ha.digits

theorem last?_append {pre : Text} (hpre : EndsOutside pre) (t : Text) :
    last? (pre ++ t) = (last? pre).map fun (a, r) => (a, r ++ t) := by
  rw [last?, last?, number?_append hpre]
  cases hnumber : number? pre with
  | none => rfl
  | some found =>
    obtain ⟨a, r⟩ := found
    simp only [Option.map_some, Option.bind_some,
      startsWord_append t (rest_number? hpre hnumber).ne_nil]
    split <;> rfl

theorem afterComma?_append {pre t : Text} (hpre : pre ≠ []) (ht : OpensWord t) :
    afterComma? (pre ++ t) = (afterComma? pre).map (· ++ t) := by
  obtain ⟨c, u, rfl⟩ := List.exists_cons_of_ne_nil hpre
  by_cases hc : c = ','
  · subst hc
    change some ((u ++ t).dropWhile isGapChar) = some (u.dropWhile isGapChar ++ t)
    rw [List.dropWhile_append]
    split
    · rename_i hnil
      rw [List.isEmpty_iff.1 hnil, List.nil_append]
      cases t with
      | nil => rfl
      | cons d v => simp [isGapChar_of_isWord (ht d rfl)]
    · rfl
  · simp [afterComma?, hc]

/-- What is left of text that ends outside a word, behind a number and its comma. -/
theorem rest_linked? {pre a r : Text} (hpre : EndsOutside pre) (h : linked? pre = some (a, r))
    (hr : r ≠ []) : EndsOutside r := by
  obtain ⟨gap, rfl, -, -, -⟩ := (linked?_eq_some_iff _ _ _).1 h
  apply EndsOutside.of_append (s := a ++ ',' :: gap) _ hr
  simpa using hpre

theorem linked?_append {pre t : Text} (hpre : EndsOutside pre) (ht : OpensWord t) :
    linked? (pre ++ t) = (linked? pre).map fun (a, r) => (a, r ++ t) := by
  rw [linked?, linked?, number?_append hpre]
  cases hnumber : number? pre with
  | none => rfl
  | some found =>
    obtain ⟨a, r⟩ := found
    simp [afterComma?_append (rest_number? hpre hnumber).ne_nil ht, Function.comp_def]

/-- Three numbers behind text that ends outside a word: they end before it does, or the text holds
the first of them, or the first two. -/
theorem triple?_append_cases {pre : Text} (hpre : EndsOutside pre) :
    (∀ t, OpensWord t →
      triple? (pre ++ t) = (triple? pre).map fun (a, b, c, r) => (a, b, c, r ++ t)) ∨
    (∃ a, ∀ t, OpensWord t →
      triple? (pre ++ t) =
        (linked? t).bind fun (b, t) => (last? t).map fun (c, t) => (a, b, c, t)) ∨
    ∃ a b, ∀ t, OpensWord t →
      triple? (pre ++ t) = (last? t).map fun (c, t) => (a, b, c, t) := by
  have hfirst := fun {t : Text} => linked?_append (t := t) hpre
  cases hone : linked? pre with
  | none => exact .inl fun t ht => by simp [triple?_eq, hfirst ht, hone]
  | some found =>
    obtain ⟨a, r⟩ := found
    by_cases hr : r = []
    · subst hr
      exact .inr (.inl ⟨a, fun t ht => by simp [triple?_eq, hfirst ht, hone]⟩)
    have hsecond := fun {t : Text} => linked?_append (t := t) (rest_linked? hpre hone hr)
    cases htwo : linked? r with
    | none => exact .inl fun t ht => by simp [triple?_eq, hfirst ht, hone, hsecond ht, htwo]
    | some found =>
      obtain ⟨b, q⟩ := found
      by_cases hq : q = []
      · subst hq
        exact .inr (.inr ⟨a, b, fun t ht => by
          simp [triple?_eq, hfirst ht, hone, hsecond ht, htwo]⟩)
      have hthird := last?_append (rest_linked? (rest_linked? hpre hone hr) htwo hq)
      exact .inl fun t ht => by
        simp [triple?_eq, hfirst ht, hone, hsecond ht, htwo, hthird, Function.comp_def]

theorem sextuple?_append {pre : Text} (hpre : EndsOutside pre) (t : Text) :
    sextuple? (pre ++ t) = (sextuple? pre).map fun (colour, r) => (colour, r ++ t) := by
  by_cases hlen : 6 < pre.length
  · match pre, hlen with
    | a :: b :: c :: d :: e :: f :: g :: r, _ =>
      have hstarts : startsWord (g :: (r ++ t)) = startsWord (g :: r) := rfl
      simp only [List.cons_append, sextuple?]
      rw [hstarts]
      split <;> rfl
  · have hnone : ∀ s, sextuple? (pre ++ s) = none := by
      intro s
      rw [Option.eq_none_iff_forall_ne_some]
      rintro ⟨colour, rest⟩ h
      obtain ⟨a, b, c, d, e, f, heq, hdigits, -, -⟩ := (sextuple?_eq_some_iff _ _ _).1 h
      obtain ⟨x, hx, hword⟩ := hpre
      have hinit : pre <+: [a, b, c, d, e, f] :=
        List.prefix_of_prefix_length_le ⟨s, heq⟩ ⟨rest, rfl⟩ (by simpa using hlen)
      have hmem := hinit.subset (List.mem_of_getLast? hx)
      rw [isWord_of_isHexDigit (hdigits x hmem)] at hword
      cases hword
    have hpre := hnone []
    rw [List.append_nil] at hpre
    rw [hnone t, hpre, Option.map_none]

theorem literal?_append_of_triple? {pre t : Text} (hpre : EndsOutside pre)
    (h : triple? (pre ++ t) = (triple? pre).map fun (a, b, c, r) => (a, b, c, r ++ t)) :
    literal? (pre ++ t) = literal? pre := by
  rw [literal?, literal?, h, sextuple?_append hpre]
  cases triple? pre <;> simp [Nat.add_sub_add_right, Function.comp_def]

theorem Spells.opensWord {lit : Text} {found : Option (Colour × Form)} (h : Spells lit found)
    (t : Text) : OpensWord (lit ++ t) := by
  cases h with
  | @rgb a gap b gap' c ha =>
    intro x hx
    rw [List.append_assoc,
      List.head?_append_of_ne_nil _ (List.ne_nil_of_length_pos ha.one_le)] at hx
    exact isWord_of_isDigit (ha.digits x (List.mem_of_mem_head? hx))
  | hex hdigits =>
    rintro x ⟨⟩
    exact isWord_of_isHexDigit (hdigits _ List.mem_cons_self)

theorem Spells.exists_of_rgb {lit : Text} {colour : Colour} (h : Spells lit (some (colour, .rgb))) :
    ∃ a gap b gap' c, lit = a ++ ',' :: (gap ++ (b ++ ',' :: (gap' ++ c))) ∧ IsNumber a ∧
      IsGap gap ∧ IsNumber b ∧ IsGap gap' ∧ IsNumber c := by
  generalize hfound : some (colour, Form.rgb) = found at h
  cases h with
  | rgb ha hgap hb hgap' hc => exact ⟨_, _, _, _, _, rfl, ha, hgap, hb, hgap', hc⟩
  | hex => cases hfound

theorem Spells.of_hex {lit : Text} {colour : Colour} (h : Spells lit (some (colour, .hex))) :
    (∀ c ∈ lit, isHexDigit c = true) ∧ lit.length = 6 := by
  generalize hfound : some (colour, Form.hex) = found at h
  cases h with
  | @rgb a gap b gap' c =>
    obtain ⟨_, _, hcolour⟩ := Option.map_eq_some_iff.1 hfound.symm
    cases hcolour
  | hex hdigits => exact ⟨hdigits, rfl⟩

theorem exists_lt_of_triple? {t a b c rest : Text} {n : Nat} (h : triple? t = some (a, b, c, rest))
    (hlen : n + rest.length < t.length) : ∃ found m, literal? t = some (found, m) ∧ n < m :=
  ⟨_, _, by rw [literal?, h], by omega⟩

/-- Text in front of a literal is read without it, or any literal of that form is read into it. -/
theorem literal?_append_cases {pre : Text} (hpre : EndsOutside pre) (form : Form) :
    (∀ lit colour post, Spells lit (some (colour, form)) →
      literal? (pre ++ (lit ++ post)) = literal? pre) ∨
    ∀ lit colour post, Spells lit (some (colour, form)) →
      ∃ found n, literal? (pre ++ (lit ++ post)) = some (found, n) ∧ pre.length < n := by
  obtain hbefore | hreach := triple?_append_cases hpre
  · exact .inl fun lit colour post hlit =>
      literal?_append_of_triple? hpre (hbefore _ (hlit.opensWord post))
  cases form with
  | hex =>
    left
    intro lit colour post hlit
    obtain ⟨hdigits, hlen⟩ := hlit.of_hex
    apply literal?_append_of_triple? hpre
    -- Six digits are neither a number before a comma nor a last one, so nothing is read either way.
    obtain ⟨a, h⟩ | ⟨a, b, h⟩ := hreach
    · have hpre := h [] opensWord_nil
      rw [List.append_nil] at hpre
      rw [h _ (hlit.opensWord post), linked?_hex hdigits hlen, hpre]
      rfl
    · have hpre := h [] opensWord_nil
      rw [List.append_nil] at hpre
      rw [h _ (hlit.opensWord post), last?_hex hdigits hlen, hpre]
      rfl
  | rgb =>
    right
    intro lit colour post hlit
    have hopens := hlit.opensWord post
    obtain ⟨r, gap, g, gap', b, rfl, hr, hgap, hg, hgap', hb⟩ := hlit.exists_of_rgb
    have hrlen := hr.one_le
    simp only [List.append_assoc, List.cons_append] at hopens ⊢
    -- The literal has the numbers that are missing, and the comma behind them ends a word.
    obtain ⟨a, h⟩ | ⟨a, b, h⟩ := hreach
    · have htriple := h _ hopens
      simp only [linked?_number hr hgap hg, Option.bind_some, last?_number hg (startsWord_comma _),
        Option.map_some] at htriple
      exact exists_lt_of_triple? htriple (by simp; omega)
    · have htriple := h _ hopens
      simp only [last?_number hr (startsWord_comma _), Option.map_some] at htriple
      exact exists_lt_of_triple? htriple (by simp; omega)

/-- A literal that was not read into the text before it may be exchanged for another of its form. -/
theorem literal?_exchange {pre lit lit' post : Text} {colour colour' : Colour} {form : Form}
    (hpre : EndsOutside pre) (hlit : Spells lit (some (colour, form)))
    (hlit' : Spells lit' (some (colour', form)))
    (hshort : ∀ found n, literal? (pre ++ (lit ++ post)) = some (found, n) → n ≤ pre.length) :
    literal? (pre ++ (lit' ++ post)) = literal? (pre ++ (lit ++ post)) := by
  obtain h | h := literal?_append_cases hpre form
  · rw [h lit colour post hlit, h lit' colour' post hlit']
  · obtain ⟨found, n, hfound, hlt⟩ := h lit colour post hlit
    have hle := hshort found n hfound
    omega

end Before

section Writing

theorem ofNat_eq (n : Nat) : Text.ofNat n = Nat.toDigits 10 n := by
  rw [Text.ofNat, Nat.toString_eq_ofList_toDigits, String.toList_ofList]

theorem isAsciiDigit_of_mem_ofNat {n : Nat} {c : Char} (h : c ∈ Text.ofNat n) :
    isAsciiDigit c = true := by
  rw [ofNat_eq] at h
  have hdigit := Nat.isDigit_of_mem_toDigits (by decide) (by decide) h
  simpa [Char.isDigit, isAsciiDigit, Char.le_def] using hdigit

theorem isDigit_of_isAsciiDigit {c : Char} (h : isAsciiDigit c = true) : isDigit c = true := by
  rw [isAsciiDigit, Bool.and_eq_true, decide_eq_true_eq, decide_eq_true_eq] at h
  have hhigh : c.toNat ≤ 57 := h.2
  rw [isDigit, if_pos (by omega)]
  simp [h]

theorem decimal?_ofNat (n : Nat) : decimal? (Text.ofNat n) = some n := by
  have hne : (Text.ofNat n).isEmpty = false := by
    rw [ofNat_eq, List.isEmpty_eq_false_iff]
    exact Nat.toDigits_ne_nil
  have hall : (Text.ofNat n).all isAsciiDigit = true :=
    List.all_eq_true.2 fun c hc => isAsciiDigit_of_mem_ofNat hc
  have hvalue := Nat.ofDigitChars_toDigits (b := 10) (n := n) (by decide) (by decide)
  rw [Nat.ofDigitChars_eq_foldl, ← ofNat_eq] at hvalue
  simp only [Nat.mul_comm 10] at hvalue
  rw [decimal?, hne, hall, hvalue]
  rfl

theorem isNumber_ofNat {n : Nat} (h : n < 1000) : IsNumber (Text.ofNat n) where
  digits c hc := isDigit_of_isAsciiDigit (isAsciiDigit_of_mem_ofNat hc)
  one_le := by
    rw [ofNat_eq]
    exact Nat.length_toDigits_pos
  le_three := by
    rw [ofNat_eq]
    exact (Nat.length_toDigits_le_iff (by decide) (by decide)).2 h

theorem part?_ofNat (n : UInt8) : part? (Text.ofNat n.toNat) = some n := by
  have hlt := n.toNat_lt
  have hmin : min n.toNat 255 = n.toNat := by omega
  rw [part?, decimal?_ofNat, Option.map_some, hmin]
  simp

theorem hexDigit?_digitChar : ∀ k < 16, hexDigit? (Nat.digitChar k) = some k := by
  decide

theorem pair_digitChar (n : UInt8) :
    pair (Nat.digitChar (n.toNat / 16)) (Nat.digitChar (n.toNat % 16)) = n := by
  have hlt := n.toNat_lt
  rw [pair, hexDigit?_digitChar _ (by omega), hexDigit?_digitChar _ (by omega), Option.getD_some,
    Option.getD_some, Nat.div_add_mod']
  simp

theorem spells_write (c : Colour) (form : Form) :
    Spells (c.write form) (some (⟨c.red, c.green, c.blue, 255⟩, form)) := by
  cases form with
  | rgb =>
    have hnumber : ∀ n : UInt8, IsNumber (Text.ofNat n.toNat) := by
      intro n
      have hlt := n.toNat_lt
      exact isNumber_ofNat (by omega)
    have hgap : IsGap [] := by simp [IsGap]
    have h := Spells.rgb (hnumber c.red) hgap (hnumber c.green) hgap (hnumber c.blue)
    simpa [ofTriple?, part?_ofNat, write, joinWith] using h
  | hex =>
    have hdigit : ∀ k < 16, isHexDigit (Nat.digitChar k) = true := by decide
    have hhex : ∀ n : UInt8, ∀ x ∈ hexPair n, isHexDigit x = true := by
      intro n x hx
      have hlt := n.toNat_lt
      simp only [hexPair, List.mem_cons, List.not_mem_nil, or_false] at hx
      obtain rfl | rfl := hx
      · exact hdigit _ (by omega)
      · exact hdigit _ (by omega)
    have hall : ∀ x ∈ hexPair c.red ++ hexPair c.green ++ hexPair c.blue, isHexDigit x = true := by
      intro x hx
      rw [List.mem_append, List.mem_append] at hx
      obtain (hx | hx) | hx := hx
      · exact hhex _ x hx
      · exact hhex _ x hx
      · exact hhex _ x hx
    have h := Spells.hex hall
    rw [pair_digitChar, pair_digitChar, pair_digitChar] at h
    exact h

end Writing

section Shape

theorem Spells.isWord_getLast? {lit : Text} {found : Option (Colour × Form)} (h : Spells lit found) :
    ∃ c, lit.getLast? = some c ∧ isWord c = true := by
  cases h with
  | @rgb a gap b gap' c ha hgap hb hgap' hc =>
    have hne : c ≠ [] := List.ne_nil_of_length_pos hc.one_le
    refine ⟨c.getLast hne, ?_, isWord_of_isDigit (hc.digits _ (List.getLast_mem hne))⟩
    simp [List.getLast?_cons, List.getLast?_append, List.getLast?_eq_some_getLast hne]
  | @hex a b c d e f hdigits => exact ⟨f, rfl, isWord_of_isHexDigit (hdigits f (by simp))⟩

theorem Spells.ne_nil {lit : Text} {found : Option (Colour × Form)} (h : Spells lit found) :
    lit ≠ [] := by
  rintro rfl
  obtain ⟨c, hc, -⟩ := h.isWord_getLast?
  cases hc

theorem Spells.notMem {lit : Text} {found : Option (Colour × Form)} (h : Spells lit found) {x : Char}
    (hword : isWord x = false) (hgap : isGapChar x = false) (hcomma : x ≠ ',') : x ∉ lit := by
  have hnumber : ∀ {a}, IsNumber a → x ∉ a := by
    intro a ha hx
    rw [isWord_of_isDigit (ha.digits x hx)] at hword
    cases hword
  have hgaps : ∀ {gap}, IsGap gap → x ∉ gap := by
    intro gap h hx
    rw [h x hx] at hgap
    cases hgap
  cases h with
  | rgb ha hg hb hg' hc =>
    simp [hnumber ha, hgaps hg, hnumber hb, hgaps hg', hnumber hc, hcomma]
  | hex hdigits =>
    intro hx
    rw [isWord_of_isHexDigit (hdigits x hx)] at hword
    cases hword

end Shape

end SkinLint.Colour
