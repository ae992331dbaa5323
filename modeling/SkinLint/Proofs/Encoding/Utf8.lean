import Mathlib.Tactic.SplitIfs
import SkinLint.Encoding.Utf8
import SkinLint.Proofs.Text

/-!
# UTF-8 is read back

Reading a first byte and the bytes behind it gives a character exactly when they are the bytes that
the character is written with. Strict reading therefore accepts what writing produces, and nothing
else.
-/
namespace SkinLint.Utf8
open Text

theorem toNat_toUInt8 {n : Nat} (h : n < 256) : n.toUInt8.toNat = n := by
  rw [Nat.toUInt8_eq, UInt8.toNat_ofNat', Nat.mod_eq_of_lt h]

theorem isValidChar_toNat (c : Char) : c.toNat.isValidChar := c.valid

/-- First bytes above ASCII come with one, two or three bytes. Overlong forms, surrogates and what
lies beyond the last character are kept out by the bounds on the first of these. -/
theorem shape?_cases {b : Nat} {s : Shape} (h : shape? b = some s) :
    (s.tails = 1 ∧ s.bits = b - 0xc0 ∧ 0xc2 ≤ b ∧ b ≤ 0xdf ∧ 0x80 ≤ s.low ∧ s.high ≤ 0xbf) ∨
    (s.tails = 2 ∧ s.bits = b - 0xe0 ∧ 0xe0 ≤ b ∧ b ≤ 0xef ∧ 0x80 ≤ s.low ∧ s.high ≤ 0xbf ∧
      (b = 0xe0 → 0xa0 ≤ s.low) ∧ (b = 0xed → s.high ≤ 0x9f)) ∨
    (s.tails = 3 ∧ s.bits = b - 0xf0 ∧ 0xf0 ≤ b ∧ b ≤ 0xf4 ∧ 0x80 ≤ s.low ∧ s.high ≤ 0xbf ∧
      (b = 0xf0 → 0x90 ≤ s.low) ∧ (b = 0xf4 → s.high ≤ 0x8f)) := by
  unfold shape? at h
  split_ifs at h
  all_goals
    obtain rfl := Option.some.inj h
    dsimp only
    omega

theorem shape?_two {b t : Nat} (hb : 0xc2 ≤ b ∧ b ≤ 0xdf) (ht : 0x80 ≤ t ∧ t ≤ 0xbf) :
    ∃ s, shape? b = some s ∧ s.tails = 1 ∧ s.bits = b - 0xc0 ∧ s.low ≤ t ∧ t ≤ s.high := by
  rw [shape?, if_pos hb]
  exact ⟨_, rfl, rfl, rfl, ht⟩

theorem shape?_three {b t : Nat} (hb : 0xe0 ≤ b ∧ b ≤ 0xef) (ht : 0x80 ≤ t ∧ t ≤ 0xbf)
    (hover : b = 0xe0 → 0xa0 ≤ t) (hsurrogate : b = 0xed → t ≤ 0x9f) :
    ∃ s, shape? b = some s ∧ s.tails = 2 ∧ s.bits = b - 0xe0 ∧ s.low ≤ t ∧ t ≤ s.high := by
  unfold shape?
  split_ifs
  all_goals
    first
    | omega
    | refine ⟨_, rfl, rfl, ?_, ?_, ?_⟩ <;> dsimp only <;> omega

theorem shape?_four {b t : Nat} (hb : 0xf0 ≤ b ∧ b ≤ 0xf4) (ht : 0x80 ≤ t ∧ t ≤ 0xbf)
    (hover : b = 0xf0 → 0x90 ≤ t) (hbeyond : b = 0xf4 → t ≤ 0x8f) :
    ∃ s, shape? b = some s ∧ s.tails = 3 ∧ s.bits = b - 0xf0 ∧ s.low ≤ t ∧ t ≤ s.high := by
  unfold shape?
  split_ifs
  all_goals
    first
    | omega
    | refine ⟨_, rfl, rfl, ?_, ?_, ?_⟩ <;> dsimp only <;> omega

theorem tails_cons {count low high : Nat} {b : UInt8} (rest : Bytes)
    (h : low ≤ b.toNat ∧ b.toNat ≤ high) :
    tails (count + 1) low high (b :: rest) = b :: tails count 0x80 0xbf rest := by
  rw [tails, if_pos h]

/-- As many bytes as called for means that the first of them is within its bounds, and so on. -/
theorem tails_succ_of_length {count low high : Nat} {rest : Bytes}
    (h : (tails (count + 1) low high rest).length = count + 1) :
    ∃ b more, rest = b :: more ∧ low ≤ b.toNat ∧ b.toNat ≤ high ∧
      tails (count + 1) low high rest = b :: tails count 0x80 0xbf more ∧
      (tails count 0x80 0xbf more).length = count := by
  cases rest with
  | nil => simp [tails] at h
  | cons b more =>
    by_cases hb : low ≤ b.toNat ∧ b.toNat ≤ high
    · rw [tails_cons more hb, List.length_cons] at h
      exact ⟨b, more, rfl, hb.1, hb.2, tails_cons more hb, by omega⟩
    · rw [tails, if_neg hb] at h
      simp at h

theorem encodeChar_two {n : Nat} (h : 0x80 ≤ n ∧ n < 0x800) : encodeChar (Char.ofNat n) =
    [(0xc0 + n / 64).toUInt8, (0x80 + n % 64).toUInt8] := by
  rw [encodeChar, toNat_charOfNat (.inl (by omega))]
  rw [if_neg (by omega), if_pos h.2]

theorem encodeChar_three {n : Nat} (hv : n.isValidChar) (h : 0x800 ≤ n ∧ n < 0x10000) :
    encodeChar (Char.ofNat n) =
      [(0xe0 + n / 4096).toUInt8, (0x80 + n / 64 % 64).toUInt8, (0x80 + n % 64).toUInt8] := by
  rw [encodeChar, toNat_charOfNat hv]
  rw [if_neg (by omega), if_neg (by omega), if_pos h.2]

theorem encodeChar_four {n : Nat} (hv : n.isValidChar) (h : 0x10000 ≤ n) :
    encodeChar (Char.ofNat n) =
      [(0xf0 + n / 262144).toUInt8, (0x80 + n / 4096 % 64).toUInt8, (0x80 + n / 64 % 64).toUInt8,
       (0x80 + n % 64).toUInt8] := by
  rw [encodeChar, toNat_charOfNat hv]
  rw [if_neg (by omega), if_neg (by omega), if_neg (by omega)]

/-- The number that the bits of a first byte and the bytes behind it make up. -/
def value (bits : Nat) (ts : Bytes) : Nat := ts.foldl (fun n t => n * 64 + (t.toNat - 0x80)) bits

theorem read_of_tails {b : UInt8} {rest ts : Bytes} {s : Shape} {n : Nat} (hb : 0x80 ≤ b.toNat)
    (hs : shape? b.toNat = some s) (ht : tails s.tails s.low s.high rest = ts)
    (hlen : ts.length = s.tails) (hn : value s.bits ts = n) :
    read b rest = (some (Char.ofNat n), ts.length) := by
  rw [read, if_neg (by omega), hs]
  dsimp only
  rw [ht, if_pos hlen, ← hn]
  rfl

theorem read_cases {b : UInt8} {rest : Bytes} {c : Char} {more : Nat}
    (h : read b rest = (some c, more)) :
    (b.toNat < 0x80 ∧ c = Char.ofNat b.toNat ∧ more = 0) ∨
    ∃ s, shape? b.toNat = some s ∧ (tails s.tails s.low s.high rest).length = s.tails ∧
      c = Char.ofNat (value s.bits (tails s.tails s.low s.high rest)) ∧ more = s.tails := by
  rw [read] at h
  by_cases hb : b.toNat < 0x80
  · rw [if_pos hb, Prod.mk.injEq, Option.some.injEq] at h
    exact .inl ⟨hb, h.1.symm, h.2.symm⟩
  rw [if_neg hb] at h
  cases hs : shape? b.toNat with
  | none => simp [hs] at h
  | some s =>
    simp only [hs] at h
    by_cases hlen : (tails s.tails s.low s.high rest).length = s.tails
    · rw [if_pos hlen, Prod.mk.injEq, Option.some.injEq] at h
      exact .inr ⟨s, rfl, hlen, h.1.symm, h.2.symm.trans hlen⟩
    · rw [if_neg hlen] at h
      simp at h

/-- The bytes of a character are read as the character, whatever follows them. -/
theorem read_encodeChar (c : Char) (rest : Bytes) :
    ∃ b more, encodeChar c = b :: more ∧ read b (more ++ rest) = (some c, more.length) := by
  have hv := isValidChar_toNat c
  rw [← Char.ofNat_toNat c]
  generalize c.toNat = n at hv ⊢
  have hn : n < 0xd800 ∨ 0xdfff < n ∧ n < 0x110000 := hv
  by_cases h1 : n < 0x80
  · have hb : n.toUInt8.toNat = n := toNat_toUInt8 (by omega)
    refine ⟨n.toUInt8, [], ?_, ?_⟩
    · rw [encodeChar, toNat_charOfNat hv, if_pos h1]
    · rw [read, hb, if_pos h1]
      rfl
  by_cases h2 : n < 0x800
  · refine ⟨_, _, encodeChar_two ⟨by omega, h2⟩, ?_⟩
    have hb : (0xc0 + n / 64).toUInt8.toNat = 0xc0 + n / 64 := toNat_toUInt8 (by omega)
    have ht : (0x80 + n % 64).toUInt8.toNat = 0x80 + n % 64 := toNat_toUInt8 (by omega)
    obtain ⟨s, hs, htails, hbits, hlow, hhigh⟩ :=
      shape?_two (b := 0xc0 + n / 64) (t := 0x80 + n % 64) (by omega) (by omega)
    apply read_of_tails (by omega) (by rw [hb]; exact hs)
    · rw [htails, List.cons_append, tails_cons _ (by omega), tails]
    · exact htails.symm
    · simp only [value, List.foldl_cons, List.foldl_nil, hbits, ht]
      omega
  by_cases h3 : n < 0x10000
  · refine ⟨_, _, encodeChar_three hv ⟨by omega, h3⟩, ?_⟩
    have hb : (0xe0 + n / 4096).toUInt8.toNat = 0xe0 + n / 4096 := toNat_toUInt8 (by omega)
    have ht : (0x80 + n / 64 % 64).toUInt8.toNat = 0x80 + n / 64 % 64 := toNat_toUInt8 (by omega)
    have hu : (0x80 + n % 64).toUInt8.toNat = 0x80 + n % 64 := toNat_toUInt8 (by omega)
    obtain ⟨s, hs, htails, hbits, hlow, hhigh⟩ :=
      shape?_three (b := 0xe0 + n / 4096) (t := 0x80 + n / 64 % 64)
        (by omega) (by omega) (by omega) (by omega)
    apply read_of_tails (by omega) (by rw [hb]; exact hs)
    · rw [htails, List.cons_append, tails_cons _ (by omega), List.cons_append,
        tails_cons _ (by omega), tails]
    · exact htails.symm
    · simp only [value, List.foldl_cons, List.foldl_nil, hbits, ht, hu]
      omega
  · refine ⟨_, _, encodeChar_four hv (by omega), ?_⟩
    have hb : (0xf0 + n / 262144).toUInt8.toNat = 0xf0 + n / 262144 := toNat_toUInt8 (by omega)
    have ht : (0x80 + n / 4096 % 64).toUInt8.toNat = 0x80 + n / 4096 % 64 :=
      toNat_toUInt8 (by omega)
    have hu : (0x80 + n / 64 % 64).toUInt8.toNat = 0x80 + n / 64 % 64 := toNat_toUInt8 (by omega)
    have hw : (0x80 + n % 64).toUInt8.toNat = 0x80 + n % 64 := toNat_toUInt8 (by omega)
    obtain ⟨s, hs, htails, hbits, hlow, hhigh⟩ :=
      shape?_four (b := 0xf0 + n / 262144) (t := 0x80 + n / 4096 % 64)
        (by omega) (by omega) (by omega) (by omega)
    apply read_of_tails (by omega) (by rw [hb]; exact hs)
    · rw [htails, List.cons_append, tails_cons _ (by omega), List.cons_append,
        tails_cons _ (by omega), List.cons_append, tails_cons _ (by omega), tails]
    · exact htails.symm
    · simp only [value, List.foldl_cons, List.foldl_nil, hbits, ht, hu, hw]
      omega

theorem toUInt8_eq {n : Nat} {b : UInt8} (h : n = b.toNat) : n.toUInt8 = b := by
  rw [h, Nat.toUInt8_eq, UInt8.ofNat_toNat]

/-- A character that was read is written with the bytes it was read from. -/
theorem encodeChar_of_read {b : UInt8} {rest : Bytes} {c : Char} {more : Nat}
    (h : read b rest = (some c, more)) : encodeChar c = b :: rest.take more := by
  rcases read_cases h with ⟨hb, rfl, rfl⟩ | ⟨s, hs, hlen, rfl, rfl⟩
  · rw [encodeChar, toNat_charOfNat (.inl (by omega)), if_pos hb, toUInt8_eq rfl]
    rfl
  rcases shape?_cases hs with ⟨ht, hbits, hb⟩ | ⟨ht, hbits, hb⟩ | ⟨ht, hbits, hb⟩
  · rw [ht] at hlen ⊢
    obtain ⟨t, r, rfl, hlow, hhigh, htails, -⟩ := tails_succ_of_length hlen
    rw [htails, tails, hbits]
    simp only [value, List.foldl_cons, List.foldl_nil]
    rw [encodeChar_two (by omega), toUInt8_eq (b := b) (by omega), toUInt8_eq (b := t) (by omega)]
    rfl
  · rw [ht] at hlen ⊢
    obtain ⟨t, r, rfl, hlow, hhigh, htails, hlen⟩ := tails_succ_of_length hlen
    obtain ⟨u, r, rfl, hlow', hhigh', htails', -⟩ := tails_succ_of_length hlen
    rw [htails, htails', tails, hbits]
    simp only [value, List.foldl_cons, List.foldl_nil]
    rw [encodeChar_three (by unfold Nat.isValidChar; omega) (by omega),
      toUInt8_eq (b := b) (by omega), toUInt8_eq (b := t) (by omega),
      toUInt8_eq (b := u) (by omega)]
    rfl
  · rw [ht] at hlen ⊢
    obtain ⟨t, r, rfl, hlow, hhigh, htails, hlen⟩ := tails_succ_of_length hlen
    obtain ⟨u, r, rfl, hlow', hhigh', htails', hlen⟩ := tails_succ_of_length hlen
    obtain ⟨w, r, rfl, hlow'', hhigh'', htails'', -⟩ := tails_succ_of_length hlen
    rw [htails, htails', htails'', tails, hbits]
    simp only [value, List.foldl_cons, List.foldl_nil]
    rw [encodeChar_four (by unfold Nat.isValidChar; omega) (by omega),
      toUInt8_eq (b := b) (by omega), toUInt8_eq (b := t) (by omega),
      toUInt8_eq (b := u) (by omega), toUInt8_eq (b := w) (by omega)]
    rfl

theorem decodeFrom?_eq_drop (skip : Nat) (bytes : Bytes) :
    decodeFrom? skip bytes = decode? (bytes.drop skip) := by
  induction bytes generalizing skip with
  | nil => simp [decode?, decodeFrom?]
  | cons b rest ih =>
    cases skip with
    | zero => rfl
    | succ skip => rw [decodeFrom?, ih, List.drop_succ_cons]

theorem decode?_cons (b : UInt8) (rest : Bytes) : decode? (b :: rest) =
    match read b rest with
    | (none, _) => none
    | (some c, more) => (decode? (rest.drop more)).map (c :: ·) := by
  rw [decode?, decodeFrom?]
  cases read b rest with
  | mk first more =>
    cases first with
    | none => rfl
    | some c => exact congrArg (Option.map (c :: ·)) (decodeFrom?_eq_drop more rest)

theorem decode?_encode (t : Text) : decode? (encode t) = some t := by
  induction t with
  | nil => rfl
  | cons c t ih =>
    obtain ⟨b, more, hc, hr⟩ := read_encodeChar c (encode t)
    have henc : encode (c :: t) = b :: (more ++ encode t) := by
      rw [encode, List.flatMap_cons, hc]
      rfl
    rw [henc, decode?_cons, hr]
    dsimp only
    rw [List.drop_left, ih]
    rfl

theorem encode_of_decode? {bytes : Bytes} {t : Text} (h : decode? bytes = some t) :
    encode t = bytes := by
  induction t generalizing bytes with
  | nil =>
    cases bytes with
    | nil => rfl
    | cons b rest =>
      rw [decode?_cons] at h
      split at h <;> simp at h
  | cons c t ih =>
    cases bytes with
    | nil => simp [decode?, decodeFrom?] at h
    | cons b rest =>
      rw [decode?_cons] at h
      split at h
      · simp at h
      · rename_i d more hr
        obtain ⟨t', ht, heq⟩ := Option.map_eq_some_iff.mp h
        obtain ⟨rfl, rfl⟩ := List.cons.inj heq
        rw [encode, List.flatMap_cons, encodeChar_of_read hr, List.cons_append]
        change b :: (rest.take more ++ encode t') = _
        rw [ih ht, List.take_append_drop]

/-- Strict reading accepts exactly what writing produces. -/
theorem decode?_eq_some_iff (bytes : Bytes) (t : Text) :
    decode? bytes = some t ↔ encode t = bytes := by
  constructor
  · exact encode_of_decode?
  · rintro rfl
    exact decode?_encode t

end SkinLint.Utf8
