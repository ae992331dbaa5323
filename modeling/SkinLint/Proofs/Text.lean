import Mathlib.Data.List.DropRight
import Mathlib.Data.List.TakeWhile
import SkinLint.Text.Basic

/-!
# Trimmed text and text cut at a separator

Trimming is fixed by two facts: what it removes is blank, and a text with no blank at either end
stays as it is. Cutting at a separator is the library's own splitting, and joining undoes it. The
case of ASCII letters plays no part in either.
-/
namespace SkinLint.Text

def Trimmed (t : Text) : Prop :=
  (∀ c ∈ t.head?, isBlank c = false) ∧ ∀ c ∈ t.getLast?, isBlank c = false

theorem trimmed_nil : Trimmed [] := by
  simp [Trimmed]

theorem trimStart_eq_self_iff (t : Text) :
    trimStart t = t ↔ ∀ c ∈ t.head?, isBlank c = false := by
  cases t with
  | nil => simp [trimStart]
  | cons c t =>
    rw [trimStart, List.dropWhile_eq_self_iff]
    simp

theorem trimEnd_eq_rdropWhile (t : Text) : trimEnd t = t.rdropWhile isBlank := rfl

theorem trimEnd_eq_self_iff (t : Text) :
    trimEnd t = t ↔ ∀ c ∈ t.getLast?, isBlank c = false := by
  rw [trimEnd_eq_rdropWhile, List.rdropWhile_eq_self_iff]
  constructor
  · intro h c hc
    obtain ⟨hne, rfl⟩ := List.mem_getLast?_eq_getLast hc
    simpa using h hne
  · intro h hne
    simpa using h _ (List.getLast?_eq_some_getLast hne)

/-- Trimming at the end does not touch a first character that is no blank. -/
theorem head?_trimEnd {t : Text} (h : ∀ c ∈ t.head?, isBlank c = false) :
    (trimEnd t).head? = t.head? := by
  obtain ⟨b, hb⟩ := List.rdropWhile_prefix isBlank (l := t)
  rw [trimEnd_eq_rdropWhile]
  cases hr : t.rdropWhile isBlank with
  | nil =>
    have hall := List.rdropWhile_eq_nil_iff.mp hr
    cases t with
    | nil => rfl
    | cons c t => simp_all
  | cons c r =>
    rw [hr] at hb
    rw [← hb]
    rfl

theorem head?_trimStart (t : Text) : ∀ c ∈ (trimStart t).head?, isBlank c = false := by
  intro c hc
  have h := List.head?_dropWhile_not isBlank t
  rw [trimStart] at hc
  rw [Option.mem_def] at hc
  rw [hc] at h
  simpa using h

theorem getLast?_trimEnd (t : Text) : ∀ c ∈ (trimEnd t).getLast?, isBlank c = false := by
  rw [← trimEnd_eq_self_iff, trimEnd_eq_rdropWhile, trimEnd_eq_rdropWhile]
  exact List.rdropWhile_idempotent isBlank t

theorem trimmed_trim (t : Text) : Trimmed (trim t) := by
  constructor
  · rw [trim, head?_trimEnd (head?_trimStart t)]
    exact head?_trimStart t
  · exact getLast?_trimEnd (trimStart t)

theorem trim_of_trimmed {t : Text} (h : Trimmed t) : trim t = t := by
  rw [trim, (trimStart_eq_self_iff t).mpr h.1, (trimEnd_eq_self_iff t).mpr h.2]

theorem trimmed_of_trim {t : Text} (h : trim t = t) : Trimmed t := h ▸ trimmed_trim t

theorem trim_trim (t : Text) : trim (trim t) = trim t := trim_of_trimmed (trimmed_trim t)

theorem trimStart_append {a : Text} (t : Text) (ha : ∀ c ∈ a, isBlank c = true) :
    trimStart (a ++ t) = trimStart t := List.dropWhile_append_of_pos ha

theorem head?_trimStart_append {t : Text} (tail : Text) (h : trimStart t ≠ []) :
    (trimStart (t ++ tail)).head? = (trimStart t).head? := by
  rw [trimStart, List.dropWhile_append, if_neg (by simpa [trimStart] using h)]
  exact List.head?_append_of_ne_nil _ h

theorem trimEnd_append (t : Text) {b : Text} (hb : ∀ c ∈ b, isBlank c = true) :
    trimEnd (t ++ b) = trimEnd t := by
  rw [trimEnd, trimEnd, List.reverse_append, List.dropWhile_append_of_pos]
  simpa using hb

/-- Only blanks are lost at the end. -/
theorem trimEnd_decompose (t : Text) :
    ∃ b, t = trimEnd t ++ b ∧ ∀ c ∈ b, isBlank c = true :=
  ⟨t.rtakeWhile isBlank, List.rdropWhile_append_rtakeWhile.symm,
    fun _ hc => List.mem_rtakeWhile_imp hc⟩

/-- Blanks around a text are nothing to its trimmed form. -/
theorem trim_append {a b : Text} (t : Text) (ha : ∀ c ∈ a, isBlank c = true)
    (hb : ∀ c ∈ b, isBlank c = true) : trim (a ++ t ++ b) = trim t := by
  rw [List.append_assoc, trim, trimStart_append _ ha, trimStart, List.dropWhile_append]
  by_cases h : t.dropWhile isBlank = []
  · have hb' : b.dropWhile isBlank = [] := List.dropWhile_eq_nil_iff.mpr hb
    simp [h, hb', trim, trimStart]
  · rw [if_neg (by simpa using h), trimEnd_append _ hb]
    rfl

theorem length_sub_length_trimStart (t : Text) :
    t.length - (trimStart t).length = (t.takeWhile isBlank).length := by
  have h := congrArg List.length (List.takeWhile_append_dropWhile (p := isBlank) (l := t))
  rw [List.length_append] at h
  rw [trimStart]
  omega

theorem trim_decompose_leading (t : Text) :
    ∃ b, t = t.takeWhile isBlank ++ trim t ++ b ∧ ∀ c ∈ b, isBlank c = true := by
  obtain ⟨b, ht, hb⟩ := trimEnd_decompose (trimStart t)
  refine ⟨b, ?_, hb⟩
  rw [trim, List.append_assoc, ← ht, trimStart, List.takeWhile_append_dropWhile]

theorem trim_decompose (t : Text) : ∃ a b, t = a ++ trim t ++ b ∧
    (∀ c ∈ a, isBlank c = true) ∧ ∀ c ∈ b, isBlank c = true := by
  obtain ⟨b, ht, hb⟩ := trim_decompose_leading t
  exact ⟨_, b, ht, fun c hc => List.mem_takeWhile_imp hc, hb⟩

/-- A text with no blank in front of it starts with its trimmed form. -/
theorem exists_eq_trim_append {t : Text} (h : ∀ c ∈ t.head?, isBlank c = false) :
    ∃ b, t = trim t ++ b := by
  have hleading : t.takeWhile isBlank = [] := by
    cases t with
    | nil => rfl
    | cons c t => simpa using h
  obtain ⟨b, ht, -⟩ := trim_decompose_leading t
  rw [hleading, List.nil_append] at ht
  exact ⟨b, ht⟩

theorem trim_eq_nil_iff (t : Text) : trim t = [] ↔ ∀ c ∈ t, isBlank c = true := by
  constructor
  · intro h
    obtain ⟨a, b, ht, ha, hb⟩ := trim_decompose t
    rw [h, List.append_nil] at ht
    rw [ht]
    simpa using fun c hc => hc.elim (ha c) (hb c)
  · intro h
    have ht := trim_append (b := []) [] h (by simp)
    rw [trim_of_trimmed trimmed_nil] at ht
    simpa using ht

theorem isEmpty_trim (t : Text) : (trim t).isEmpty = isBlankText t := by
  rw [Bool.eq_iff_iff, List.isEmpty_iff, trim_eq_nil_iff, isBlankText, List.all_eq_true]

theorem mem_of_mem_trim {c : Char} {t : Text} (h : c ∈ trim t) : c ∈ t := by
  obtain ⟨a, b, ht, -, -⟩ := trim_decompose t
  rw [ht]
  simp [h]

theorem head?_trim (t : Text) : (trim t).head? = (trimStart t).head? :=
  head?_trimEnd (head?_trimStart t)

theorem splitOn_eq (sep : Char) (t : Text) : splitOn sep t = List.splitOn sep t := by
  induction t with
  | nil => simp [splitOn]
  | cons c t ih =>
    rw [splitOn, List.splitOn_cons_eq_if_modifyHead, ih]
    by_cases h : c = sep
    · simp [h]
    · rw [if_neg h, if_neg (by simpa using h)]
      obtain ⟨piece, rest, hs⟩ := List.exists_cons_of_ne_nil (List.splitOn_ne_nil sep t)
      rw [hs]
      rfl

theorem joinWith_cons_cons (sep piece next : Text) (rest : List Text) :
    joinWith sep (piece :: next :: rest) = piece ++ sep ++ joinWith sep (next :: rest) := by
  rw [joinWith]
  simp

theorem joinWith_eq (sep : Text) (pieces : List Text) :
    joinWith sep pieces = sep.intercalate pieces := by
  induction pieces with
  | nil => rfl
  | cons piece rest ih =>
    cases rest with
    | nil => simp [joinWith]
    | cons next rest => rw [joinWith_cons_cons, ih, List.intercalate_cons_cons]

theorem joinWith_cons (sep piece : Text) (rest : List Text) :
    ∃ tail, joinWith sep (piece :: rest) = piece ++ tail := by
  cases rest with
  | nil => exact ⟨[], by simp [joinWith]⟩
  | cons next rest =>
    exact ⟨sep ++ joinWith sep (next :: rest), by rw [joinWith_cons_cons, List.append_assoc]⟩

theorem joinWith_append_cons (sep : Char) (above : List Text) (piece : Text) (below : List Text) :
    joinWith [sep] (above ++ piece :: below) =
      above.flatMap (· ++ [sep]) ++ piece ++ below.flatMap (sep :: ·) := by
  induction above with
  | nil =>
    induction below generalizing piece with
    | nil => simp [joinWith]
    | cons next below ih =>
      simp only [List.nil_append] at ih ⊢
      rw [joinWith_cons_cons, ih]
      simp
  | cons first above ih =>
    obtain ⟨next, rest, hnext⟩ : ∃ next rest, above ++ piece :: below = next :: rest :=
      List.exists_cons_of_ne_nil (by simp)
    rw [List.cons_append, hnext, joinWith_cons_cons, ← hnext, ih]
    simp

/-- Joined pieces with a last separator are pieces closed by separators. -/
theorem joinWith_concat {sep : Char} {pieces : List Text} (h : pieces ≠ []) :
    joinWith [sep] pieces ++ [sep] = pieces.flatMap (· ++ [sep]) := by
  rw [← List.dropLast_append_getLast h, joinWith_append_cons]
  simp

theorem splitOn_ne_nil (sep : Char) (t : Text) : splitOn sep t ≠ [] := by
  rw [splitOn_eq]
  exact List.splitOn_ne_nil sep t

/-- The separator joins the pieces of what stands before it and of what stands after it. -/
theorem splitOn_append (sep : Char) (a b : Text) :
    splitOn sep (a ++ sep :: b) = splitOn sep a ++ splitOn sep b := by
  rw [splitOn_eq, splitOn_eq, splitOn_eq, List.splitOn_append_cons_self]

theorem joinWith_splitOn (sep : Char) (t : Text) : joinWith [sep] (splitOn sep t) = t := by
  rw [joinWith_eq, splitOn_eq, List.intercalate_splitOn]

theorem splitOn_joinWith {sep : Char} {pieces : List Text} (hne : pieces ≠ [])
    (h : ∀ piece ∈ pieces, sep ∉ piece) : splitOn sep (joinWith [sep] pieces) = pieces := by
  rw [joinWith_eq, splitOn_eq, List.splitOn_intercalate sep h hne]

theorem splitOn_of_notMem {sep : Char} {t : Text} (h : sep ∉ t) : splitOn sep t = [t] :=
  @splitOn_joinWith sep [t] (by simp) (by simpa using h)

theorem notMem_of_mem_splitOn {sep : Char} {t piece : Text} (h : piece ∈ splitOn sep t) :
    sep ∉ piece := by
  induction t generalizing piece with
  | nil => simp_all [splitOn]
  | cons c t ih =>
    by_cases hc : c = sep
    · rw [splitOn, if_pos hc, List.mem_cons] at h
      rcases h with rfl | h
      · simp
      · exact ih h
    · obtain ⟨first, rest, hs⟩ := List.exists_cons_of_ne_nil (splitOn_ne_nil sep t)
      rw [splitOn, if_neg hc, hs, List.mem_cons] at h
      rw [hs] at ih
      rcases h with rfl | h
      · simpa [Ne.symm hc] using ih List.mem_cons_self
      · exact ih (List.mem_cons_of_mem _ h)

theorem mem_joinWith_of_mem {c : Char} {piece : Text} {pieces : List Text} (sep : Text)
    (h : piece ∈ pieces) (hc : c ∈ piece) : c ∈ joinWith sep pieces := by
  induction pieces with
  | nil => simp at h
  | cons first rest ih =>
    cases rest with
    | nil => simpa [joinWith, List.mem_singleton.mp h] using hc
    | cons next rest =>
      rw [joinWith_cons_cons, List.mem_append, List.mem_append]
      rcases List.mem_cons.mp h with rfl | h
      · exact .inl (.inl hc)
      · exact .inr (ih h)

theorem mem_joinWith {c : Char} {sep : Text} {pieces : List Text} (h : c ∈ joinWith sep pieces) :
    c ∈ sep ∨ ∃ piece ∈ pieces, c ∈ piece := by
  induction pieces with
  | nil => simp [joinWith] at h
  | cons first rest ih =>
    cases rest with
    | nil => exact .inr ⟨first, by simp, h⟩
    | cons next rest =>
      rw [joinWith_cons_cons, List.mem_append, List.mem_append] at h
      rcases h with (h | h) | h
      · exact .inr ⟨first, by simp, h⟩
      · exact .inl h
      · rcases ih h with h | ⟨piece, hp, hc⟩
        · exact .inl h
        · exact .inr ⟨piece, List.mem_cons_of_mem _ hp, hc⟩

theorem mem_of_mem_splitOn {sep c : Char} {t piece : Text} (h : piece ∈ splitOn sep t)
    (hc : c ∈ piece) : c ∈ t := by
  rw [← joinWith_splitOn sep t]
  exact mem_joinWith_of_mem [sep] h hc

theorem splitFirst?_eq_none_iff (sep : Char) (t : Text) : splitFirst? sep t = none ↔ sep ∉ t := by
  rw [splitFirst?]
  cases h : t.dropWhile (· != sep) with
  | nil =>
    have hall := List.dropWhile_eq_nil_iff.mp h
    simpa using fun hs => by simpa using hall sep hs
  | cons c after =>
    have hc : c = sep := by simpa [h] using List.head?_dropWhile_not (· != sep) t
    have hm : c ∈ t.dropWhile (· != sep) := by simp [h]
    simpa [← hc] using List.dropWhile_subset _ hm

theorem splitFirst?_eq_some_iff (sep : Char) (t before after : Text) :
    splitFirst? sep t = some (before, after) ↔ t = before ++ sep :: after ∧ sep ∉ before := by
  constructor
  · intro h
    rw [splitFirst?] at h
    cases hd : t.dropWhile (· != sep) with
    | nil => simp [hd] at h
    | cons c rest =>
      have hc : c = sep := by simpa [hd] using List.head?_dropWhile_not (· != sep) t
      subst c
      simp only [hd, Option.some.injEq, Prod.mk.injEq] at h
      obtain ⟨rfl, rfl⟩ := h
      refine ⟨?_, fun hs => by simpa using List.mem_takeWhile_imp hs⟩
      rw [← hd, List.takeWhile_append_dropWhile]
  · rintro ⟨rfl, hs⟩
    have hall : ∀ c ∈ before, (c != sep) = true := by
      intro c hc
      simp only [bne_iff_ne]
      rintro rfl
      exact hs hc
    rw [splitFirst?, List.dropWhile_append_of_pos hall, List.takeWhile_append_of_pos hall]
    simp

theorem splitLast?_eq_none_iff (sep : Char) (t : Text) : splitLast? sep t = none ↔ sep ∉ t := by
  rw [splitLast?, Option.map_eq_none_iff, splitFirst?_eq_none_iff, List.mem_reverse]

theorem splitLast?_eq_some_iff (sep : Char) (t before after : Text) :
    splitLast? sep t = some (before, after) ↔ t = before ++ sep :: after ∧ sep ∉ after := by
  have hcut : splitLast? sep t = some (before, after) ↔
      splitFirst? sep t.reverse = some (after.reverse, before.reverse) := by
    rw [splitLast?, Option.map_eq_some_iff]
    constructor
    · rintro ⟨⟨a, b⟩, h, heq⟩
      obtain ⟨rfl, rfl⟩ := Prod.mk.inj heq
      simpa using h
    · exact fun h => ⟨_, h, by simp⟩
  rw [hcut, splitFirst?_eq_some_iff, List.reverse_eq_iff, List.mem_reverse]
  simp

/-- A text is cut at its first separator in one way only. -/
theorem append_sep_inj {sep : Char} {a b a' b' : Text} (ha : sep ∉ a) (ha' : sep ∉ a')
    (h : a ++ sep :: b = a' ++ sep :: b') : a = a' ∧ b = b' := by
  have hcut := (splitFirst?_eq_some_iff sep _ a b).mpr ⟨rfl, ha⟩
  rw [h, (splitFirst?_eq_some_iff sep _ a' b').mpr ⟨rfl, ha'⟩] at hcut
  simpa [eq_comm] using hcut

theorem toNat_charOfNat {n : Nat} (h : n.isValidChar) : (Char.ofNat n).toNat = n := by
  rw [Char.ofNat, dif_pos h]
  rfl

/-- A letter that changes becomes a small letter. -/
theorem lowerAscii_cases (c : Char) :
    lowerAscii c = c ∨ 97 ≤ (lowerAscii c).toNat ∧ (lowerAscii c).toNat ≤ 122 := by
  unfold lowerAscii
  split
  · rename_i h
    have h₁ : 65 ≤ c.toNat := h.1
    have h₂ : c.toNat ≤ 90 := h.2
    right
    rw [toNat_charOfNat (.inl (by omega))]
    omega
  · exact .inl rfl

theorem isBlank_lowerAscii (c : Char) : isBlank (lowerAscii c) = isBlank c := by
  have hfixed : (blanks.all fun c => lowerAscii c == c) = true := by decide
  have hsmall : (blanks.all fun c => c.toNat < 97 || 122 < c.toNat) = true := by decide
  rw [List.all_eq_true] at hfixed hsmall
  rw [Bool.eq_iff_iff, isBlank_iff_mem, isBlank_iff_mem]
  constructor
  · intro h
    rcases lowerAscii_cases c with hc | hc
    · rwa [hc] at h
    · have hout : (lowerAscii c).toNat < 97 ∨ 122 < (lowerAscii c).toNat := by
        simpa using hsmall _ h
      omega
  · intro h
    have hc : lowerAscii c = c := by simpa using hfixed c h
    rwa [hc]

theorem lowerAscii_eq_equals_iff (c : Char) : lowerAscii c = '=' ↔ c = '=' := by
  constructor
  · intro h
    rcases lowerAscii_cases c with hc | hc
    · rwa [hc] at h
    · rw [h] at hc
      exact absurd hc (by decide)
  · rintro rfl
    rfl

theorem trimmed_map_lowerAscii (t : Text) : Trimmed (t.map lowerAscii) ↔ Trimmed t := by
  simp [Trimmed, List.head?_map, List.getLast?_map, isBlank_lowerAscii]

theorem equals_mem_map_lowerAscii (t : Text) : '=' ∈ t.map lowerAscii ↔ '=' ∈ t := by
  simp [List.mem_map, lowerAscii_eq_equals_iff]

theorem length_eq_of_eqIgnoreCase {a b : Text} (h : eqIgnoreCase a b = true) :
    a.length = b.length := by
  rw [eqIgnoreCase_iff] at h
  simpa using congrArg List.length h

/-- Texts that agree up to case are both trimmed or both not. -/
theorem trimmed_of_eqIgnoreCase {a b : Text} (h : eqIgnoreCase a b = true) (hb : Trimmed b) :
    Trimmed a := by
  rw [← trimmed_map_lowerAscii, (eqIgnoreCase_iff a b).mp h, trimmed_map_lowerAscii]
  exact hb

/-- Pairs agree up to case when their parts do. -/
theorem eqIgnoreCase_pair_iff {a b : Text} (v w : Text) (ha : '=' ∉ a) (hb : '=' ∉ b) :
    eqIgnoreCase (a ++ '=' :: v) (b ++ '=' :: w) = true ↔
      eqIgnoreCase a b = true ∧ eqIgnoreCase v w = true := by
  have hlower : lowerAscii '=' = '=' := rfl
  simp only [eqIgnoreCase_iff, List.map_append, List.map_cons, hlower]
  constructor
  · intro h
    rw [← equals_mem_map_lowerAscii] at ha hb
    exact append_sep_inj ha hb h
  · rintro ⟨hkey, hvalue⟩
    rw [hkey, hvalue]

end SkinLint.Text
