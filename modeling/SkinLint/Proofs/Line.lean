import SkinLint.Line
import SkinLint.Proofs.Text

/-!
# Kinds of lines

The kind of a line is that of its trimmed text. A pair is spelled by a key and a value around the
first `=`, and the spelling with no blanks is read as the same pair.
-/
namespace SkinLint.LineKind
open Text

/-- A key and a value that some line can hold. -/
structure IsPair (key value : Text) : Prop where
  key_ne_nil : key ≠ []
  key_trimmed : Trimmed key
  key_equals : '=' ∉ key
  key_comment : key.head? ≠ some ';'
  key_bracket : key.head? ≠ some '['
  value_trimmed : Trimmed value

def ofPair (key value : Text) : LineKind :=
  if isIncludeKey key then .inclusion key value else .keyValue key value

theorem classify_trim (t : Text) : classify (trim t) = classify t := by
  rw [classify, classify, trim_trim]

theorem pair?_eq_some_iff (t key value : Text) : pair? t = some (key, value) ↔
    ∃ before after, t = before ++ '=' :: after ∧ '=' ∉ before ∧
      trim before = key ∧ trim after = value ∧ key ≠ [] := by
  rw [pair?]
  cases hs : splitFirst? '=' t with
  | none =>
    rw [splitFirst?_eq_none_iff] at hs
    constructor
    · intro h
      simp at h
    · rintro ⟨before, after, rfl, -⟩
      simp at hs
  | some parts =>
    obtain ⟨before, after⟩ := parts
    have hsplit := (splitFirst?_eq_some_iff '=' t before after).mp hs
    constructor
    · intro h
      by_cases hk : (trim before).isEmpty = true
      · simp [hk] at h
      · simp only [hk, if_false, Bool.false_eq_true, Option.some.injEq, Prod.mk.injEq] at h
        obtain ⟨rfl, rfl⟩ := h
        exact ⟨before, after, hsplit.1, hsplit.2, rfl, rfl, by simpa using hk⟩
    · rintro ⟨before', after', ht, hb, rfl, rfl, hk⟩
      have hsame := (splitFirst?_eq_some_iff '=' t before' after').mpr ⟨ht, hb⟩
      rw [hs, Option.some.injEq, Prod.mk.injEq] at hsame
      obtain ⟨rfl, rfl⟩ := hsame
      simp [hk]

/-- A line that starts with neither of the two marks is decided by its pair. -/
theorem ofTrimmed_cons {c : Char} (t : Text) (hs : c ≠ ';') (hb : c ≠ '[') :
    ofTrimmed (c :: t) =
      match pair? (c :: t) with
      | none => .malformed
      | some (key, value) => ofPair key value := by
  unfold ofTrimmed
  split
  · simp_all
  · simp_all
  · simp_all
  · rfl

/-- A trimmed line starts with its key. -/
theorem exists_eq_append_of_pair? {t key value : Text} (ht : Trimmed t)
    (h : pair? t = some (key, value)) : ∃ rest, t = key ++ rest := by
  obtain ⟨before, after, rfl, -, rfl, -, hne⟩ := (pair?_eq_some_iff _ _ _).mp h
  cases before with
  | nil => exact absurd (trim_of_trimmed trimmed_nil) hne
  | cons c before =>
    obtain ⟨b, hb⟩ := exists_eq_trim_append (t := c :: before) (by simpa using ht.1)
    exact ⟨b ++ '=' :: after, by rw [← List.append_assoc, ← hb]⟩

theorem head?_of_pair? {t key value : Text} (ht : Trimmed t) (h : pair? t = some (key, value)) :
    key.head? = t.head? := by
  obtain ⟨-, -, -, -, -, -, hne⟩ := (pair?_eq_some_iff _ _ _).mp h
  obtain ⟨rest, rfl⟩ := exists_eq_append_of_pair? ht h
  rw [List.head?_append_of_ne_nil _ hne]

/-- The pair of a trimmed line that starts with neither of the two marks. -/
theorem isPair_of_pair? {c : Char} {rest key value : Text} (ht : Trimmed (c :: rest))
    (hs : c ≠ ';') (hb : c ≠ '[') (h : pair? (c :: rest) = some (key, value)) :
    IsPair key value := by
  have hhead : key.head? = some c := head?_of_pair? ht h
  obtain ⟨before, after, -, heq, rfl, rfl, hne⟩ := (pair?_eq_some_iff _ _ _).mp h
  exact ⟨hne, trimmed_trim before, fun hm => heq (mem_of_mem_trim hm),
    by simpa [hhead] using hs, by simpa [hhead] using hb, trimmed_trim after⟩

theorem classify_cases (t : Text) :
    (trim t = [] ∧ classify t = .blank) ∨
    (∃ rest, trim t = ';' :: rest ∧ classify t = .comment) ∨
    (∃ name, trim t = '[' :: (name ++ [']']) ∧ classify t = .header name) ∨
    (∃ rest, trim t = '[' :: rest ∧ rest.getLast? ≠ some ']' ∧ classify t = .openHeader) ∨
    (pair? (trim t) = none ∧ classify t = .malformed) ∨
    ∃ key value, pair? (trim t) = some (key, value) ∧ IsPair key value ∧
      classify t = ofPair key value := by
  have htrim := trimmed_trim t
  rw [classify]
  cases ht : trim t with
  | nil => exact .inl ⟨rfl, rfl⟩
  | cons c rest =>
    rw [ht] at htrim
    by_cases hs : c = ';'
    · subst hs
      exact .inr (.inl ⟨rest, rfl, rfl⟩)
    by_cases hb : c = '['
    · subst hb
      by_cases hl : rest.getLast? = some ']'
      · refine .inr (.inr (.inl ⟨rest.dropLast, ?_, by simp [ofTrimmed, hl]⟩))
        rw [List.dropLast_append_getLast? _ hl]
      · exact .inr (.inr (.inr (.inl ⟨rest, rfl, hl, by simp [ofTrimmed, hl]⟩)))
    rw [ofTrimmed_cons rest hs hb]
    cases hp : pair? (c :: rest) with
    | none => exact .inr (.inr (.inr (.inr (.inl ⟨rfl, rfl⟩))))
    | some parts =>
      obtain ⟨key, value⟩ := parts
      exact .inr (.inr (.inr (.inr (.inr
        ⟨key, value, rfl, isPair_of_pair? htrim hs hb hp, rfl⟩))))

theorem ofPair_eq_cases (key value : Text) :
    ofPair key value = .keyValue key value ∨ ofPair key value = .inclusion key value := by
  unfold ofPair
  split
  · exact .inr rfl
  · exact .inl rfl

theorem isPair_of_classify {t key value : Text}
    (h : classify t = .keyValue key value ∨ classify t = .inclusion key value) :
    IsPair key value ∧ pair? (trim t) = some (key, value) ∧ classify t = ofPair key value := by
  rcases classify_cases t with ⟨-, hk⟩ | ⟨_, -, hk⟩ | ⟨_, -, hk⟩ | ⟨_, -, -, hk⟩ | ⟨-, hk⟩ |
    ⟨key', value', hp, hpair, hk⟩
  all_goals try simp [hk] at h
  have hsame : key' = key ∧ value' = value := by
    rcases ofPair_eq_cases key' value' with ho | ho <;> simpa [ho] using h
  obtain ⟨rfl, rfl⟩ := hsame
  exact ⟨hpair, hp, hk⟩

theorem trim_of_classify_header {t name : Text} (h : classify t = .header name) :
    trim t = '[' :: (name ++ [']']) := by
  rcases classify_cases t with ⟨-, hk⟩ | ⟨_, -, hk⟩ | ⟨name', ht, hk⟩ | ⟨_, -, -, hk⟩ | ⟨-, hk⟩ |
    ⟨key, value, -, -, hk⟩
  case inr.inr.inl =>
    obtain rfl : name' = name := by simpa [hk] using h
    exact ht
  case inr.inr.inr.inr.inr =>
    rcases ofPair_eq_cases key value with ho | ho <;> simp [hk, ho] at h
  all_goals simp [hk] at h

/-- A text around an `=` needs no blanks removed if its ends are no blanks. -/
theorem trimmed_around_equals {before after : Text} (hne : before ≠ [])
    (hbefore : ∀ c ∈ before.head?, isBlank c = false)
    (hafter : ∀ c ∈ after.getLast?, isBlank c = false) : Trimmed (before ++ '=' :: after) := by
  constructor
  · rwa [List.head?_append_of_ne_nil _ hne]
  · intro d hd
    rw [List.getLast?_append_cons, List.getLast?_cons] at hd
    cases hv : after.getLast? with
    | none =>
      rw [hv] at hd
      obtain rfl : '=' = d := by simpa using hd
      decide
    | some e =>
      rw [hv] at hd
      obtain rfl : e = d := by simpa using hd
      exact hafter e hv

theorem IsPair.trimmed {key value : Text} (h : IsPair key value) :
    Trimmed (key ++ '=' :: value) :=
  trimmed_around_equals h.key_ne_nil h.key_trimmed.1 h.value_trimmed.2

/-- A pair of the trimmed text is the pair of the line, unless the line starts with a mark. -/
theorem IsPair.classify_of_pair? {t key value : Text} (h : IsPair key value)
    (hp : pair? (trim t) = some (key, value)) : LineKind.classify t = ofPair key value := by
  have hhead : key.head? = (trim t).head? := head?_of_pair? (trimmed_trim t) hp
  rw [LineKind.classify]
  cases ht : trim t with
  | nil =>
    rw [ht] at hhead
    exact absurd (List.head?_eq_none_iff.mp hhead) h.key_ne_nil
  | cons c rest =>
    rw [ht] at hp hhead
    have hs : c ≠ ';' := by simpa [hhead] using h.key_comment
    have hb : c ≠ '[' := by simpa [hhead] using h.key_bracket
    rw [ofTrimmed_cons rest hs hb, hp]

theorem IsPair.classify {key value : Text} (h : IsPair key value) :
    classify (key ++ '=' :: value) = ofPair key value := by
  apply h.classify_of_pair?
  rw [trim_of_trimmed h.trimmed, pair?_eq_some_iff]
  exact ⟨key, value, rfl, h.key_equals, trim_of_trimmed h.key_trimmed,
    trim_of_trimmed h.value_trimmed, h.key_ne_nil⟩

theorem classify_eq_blank_iff (t : Text) : classify t = .blank ↔ trim t = [] := by
  constructor
  · intro h
    rcases classify_cases t with ⟨ht, -⟩ | ⟨_, -, hk⟩ | ⟨_, -, hk⟩ | ⟨_, -, -, hk⟩ | ⟨-, hk⟩ |
      ⟨key, value, -, -, hk⟩
    · exact ht
    all_goals try simp [hk] at h
    rcases ofPair_eq_cases key value with ho | ho <;> simp [ho] at h
  · intro h
    rw [classify, h]
    rfl

end SkinLint.LineKind
