import SkinLint.Meter.Keys
import SkinLint.Proofs.Text

/-!
# Keys that a meter may have

Configured keys are added one by one behind the built-in ones, unless a key like them stands there
already. No two keys are then alike, and the first spelling of a repeated key is kept. Which one is
kept makes no difference to what is allowed: a key is allowed if it is one of the meter's own, a
shared or a configured one, up to the case of ASCII letters.
-/
namespace SkinLint.Meter
open Text

/-- A key of a numbered family: the family's name, and any number of digits behind it. -/
def Numbered (key : Text) : Prop :=
  ∃ family ∈ numberedFamilies, ∃ name digits, key = name ++ digits ∧
    eqIgnoreCase name family = true ∧ ∀ c ∈ digits, isAsciiDigit c = true

def Allowed (m : Meter) (extra : List Text) (key : Text) : Prop :=
  ∃ known, (known ∈ m.ownKeys ∨ known ∈ extra ∨ known ∈ sharedKeys) ∧
    eqIgnoreCase known key = true

theorem inFamily_iff (key family : Text) : inFamily key family = true ↔
    ∃ name digits, key = name ++ digits ∧ eqIgnoreCase name family = true ∧
      ∀ c ∈ digits, isAsciiDigit c = true := by
  rw [inFamily, Bool.and_eq_true, List.all_eq_true]
  constructor
  · rintro ⟨hname, hdigits⟩
    exact ⟨_, _, (List.take_append_drop family.length key).symm, hname, hdigits⟩
  · rintro ⟨name, digits, rfl, hname, hdigits⟩
    rw [← length_eq_of_eqIgnoreCase hname, List.take_left, List.drop_left]
    exact ⟨hname, hdigits⟩

theorem isNumbered_iff (key : Text) : isNumbered key = true ↔ Numbered key := by
  simp only [isNumbered, Numbered, List.any_eq_true, inFamily_iff]

instance (key : Text) : Decidable (Numbered key) := decidable_of_iff _ (isNumbered_iff key)

theorem listed_iff (keys : List Text) (key : Text) :
    listed keys key = true ↔ ∃ known ∈ keys, eqIgnoreCase known key = true := by
  simp [listed]

theorem listed_eq_false_iff (keys : List Text) (key : Text) :
    listed keys key = false ↔ ∀ known ∈ keys, eqIgnoreCase known key = false := by
  simp [listed]

/-- A key that is listed already stands for the other spelling of it. -/
theorem listed_addKey_iff (keys : List Text) (k key : Text) : listed (addKey keys k) key = true ↔
    listed keys key = true ∨ eqIgnoreCase k key = true := by
  by_cases h : listed keys k = true
  · rw [addKey, if_pos h, iff_self_or]
    intro hk
    obtain ⟨known, hm, hknown⟩ := (listed_iff keys k).mp h
    rw [eqIgnoreCase_iff] at hk hknown
    exact (listed_iff keys key).mpr ⟨known, hm, (eqIgnoreCase_iff _ _).mpr (hknown.trans hk)⟩
  · rw [addKey, if_neg h]
    simp [listed]

theorem pairwise_addKey {keys : List Text}
    (h : keys.Pairwise fun a b => eqIgnoreCase a b = false) (key : Text) :
    (addKey keys key).Pairwise fun a b => eqIgnoreCase a b = false := by
  cases hlisted : listed keys key with
  | true => rwa [addKey, if_pos hlisted]
  | false =>
    rw [addKey, if_neg (by simp [hlisted]), List.pairwise_append]
    refine ⟨h, List.pairwise_singleton _ _, ?_⟩
    intro known hknown k hk
    rw [List.mem_singleton.mp hk]
    exact (listed_eq_false_iff keys key).mp hlisted known hknown

theorem listed_foldl_addKey_iff (extra keys : List Text) (key : Text) :
    listed (extra.foldl addKey keys) key = true ↔
      listed keys key = true ∨ ∃ k ∈ extra, eqIgnoreCase k key = true := by
  induction extra generalizing keys with
  | nil => simp
  | cons k extra ih => simp [ih, listed_addKey_iff, or_assoc]

theorem pairwise_foldl_addKey (extra : List Text) {keys : List Text}
    (h : keys.Pairwise fun a b => eqIgnoreCase a b = false) :
    (extra.foldl addKey keys).Pairwise fun a b => eqIgnoreCase a b = false := by
  induction extra generalizing keys with
  | nil => exact h
  | cons k extra ih => exact ih (pairwise_addKey h k)

/-- Keys that stand in a list stay where they are, and those added keep their order. -/
theorem foldl_addKey_eq_append (extra keys : List Text) :
    ∃ kept, extra.foldl addKey keys = keys ++ kept ∧ kept.Sublist extra := by
  induction extra generalizing keys with
  | nil => exact ⟨[], by simp, List.Sublist.refl _⟩
  | cons k extra ih =>
    obtain ⟨kept, heq, hsub⟩ := ih (addKey keys k)
    rw [List.foldl_cons, heq, addKey]
    split
    · exact ⟨kept, rfl, hsub.cons k⟩
    · exact ⟨k :: kept, by simp, hsub.cons_cons k⟩

theorem pairwise_ownKeys (m : Meter) :
    m.ownKeys.Pairwise fun a b => eqIgnoreCase a b = false := by
  cases m <;> decide

/-- A configured key is added in the spelling that comes first. -/
theorem mem_keysWith_of_first (m : Meter) {before : List Text} {key : Text} (behind : List Text)
    (h : ∀ known ∈ m.ownKeys ++ before, eqIgnoreCase known key = false) :
    key ∈ m.keysWith (before ++ key :: behind) := by
  have hnew : listed (m.keysWith before) key = false := by
    rw [listed_eq_false_iff]
    intro known hknown
    obtain ⟨kept, heq, hsub⟩ := foldl_addKey_eq_append before m.ownKeys
    rw [keysWith, heq] at hknown
    exact h known ((hsub.append_left m.ownKeys).subset hknown)
  obtain ⟨kept, heq, -⟩ := foldl_addKey_eq_append behind (addKey (m.keysWith before) key)
  rw [keysWith, List.foldl_append, List.foldl_cons, ← keysWith, heq, addKey,
    if_neg (by simp [hnew])]
  simp

theorem Allowed.mono {m : Meter} {extra more : List Text} {key : Text}
    (h : m.Allowed extra key) (hsub : extra ⊆ more) : m.Allowed more key := by
  obtain ⟨known, hknown, heq⟩ := h
  exact ⟨known, hknown.imp_right (Or.imp_left fun hm => hsub hm), heq⟩

theorem allows_keysWith_iff (m : Meter) (extra : List Text) (key : Text) :
    allows (m.keysWith extra) key = true ↔ m.Allowed extra key := by
  rw [allows, keysWith, Bool.or_eq_true, listed_foldl_addKey_iff, listed_iff, listed_iff, or_assoc]
  simp only [Allowed, or_and_right, exists_or]

instance (m : Meter) (extra : List Text) (key : Text) : Decidable (m.Allowed extra key) :=
  decidable_of_iff _ (allows_keysWith_iff m extra key)

/-- A meter's keys are the built-in ones in their order and some of the configured ones behind them,
no two of them alike. A configured key is among them unless one like it comes before, so that what
they and the shared keys allow is all of the three, and configuring more keys forbids none. -/
theorem keys_unite_without_repeats (m : Meter) (s : MeterSettings) :
    let extra := s.extraKeysFor m
    let keys := m.keysWith extra
    (∃ kept, keys = m.ownKeys ++ kept ∧ kept.Sublist extra) ∧
    (keys.Pairwise fun a b => eqIgnoreCase a b = false) ∧
    (∀ before key behind, extra = before ++ key :: behind →
      (∀ known ∈ m.ownKeys ++ before, eqIgnoreCase known key = false) → key ∈ keys) ∧
    (∀ key, allows keys key = true ↔
      (∃ known ∈ m.ownKeys, eqIgnoreCase known key = true) ∨
        (∃ known ∈ sharedKeys, eqIgnoreCase known key = true) ∨
          ∃ known ∈ extra, eqIgnoreCase known key = true) ∧
    ∀ s' : MeterSettings, extra ⊆ s'.extraKeysFor m →
      ∀ key, allows keys key = true → allows (m.keysWith (s'.extraKeysFor m)) key = true := by
  intro extra keys
  refine ⟨foldl_addKey_eq_append extra m.ownKeys,
    pairwise_foldl_addKey extra m.pairwise_ownKeys, ?_, ?_, ?_⟩
  · intro before key behind heq hfirst
    have hmem := m.mem_keysWith_of_first behind hfirst
    rwa [← heq] at hmem
  · intro key
    rw [allows_keysWith_iff]
    simp only [Allowed, or_and_right, exists_or]
    exact or_congr_right or_comm
  · intro s' hsub key hkey
    rw [allows_keysWith_iff] at hkey ⊢
    exact hkey.mono hsub

/-- An empty key, one that is built in, one that is shared, and one in two spellings: the shared one
is added, and in other settings the other spelling is kept. -/
theorem keys_unite_without_repeats_clashing :
    let s : MeterSettings :=
      ⟨[(.image, ["", "tile", "Glow", "x", "GLOW", ""].map String.toList)]⟩
    let s' : MeterSettings :=
      ⟨[(.string, []), (.image, ["GLOW", "x", "Blur", "Glow", "tile", ""].map String.toList)]⟩
    s.extraKeysFor .image ⊆ s'.extraKeysFor .image ∧
    keysWith .image (s.extraKeysFor .image) =
      ownKeys .image ++ ["", "Glow", "x"].map String.toList ∧
    "Glow".toList ∉ keysWith .image (s'.extraKeysFor .image) ∧
    allows (keysWith .image (s'.extraKeysFor .image)) "gLOW".toList = true := by
  intro s s'
  have hsub : s.extraKeysFor .image ⊆ s'.extraKeysFor .image := by decide
  refine ⟨hsub, by decide, by decide, ?_⟩
  exact (keys_unite_without_repeats .image s).2.2.2.2 s' hsub _ (by decide)

end SkinLint.Meter
