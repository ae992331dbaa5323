import SkinLint.Proofs.Encoding.Utf8

/-!
# Lenient reading cut at ASCII bytes

An ASCII byte continues no character, so it ends whatever stands in front of it, sound or damaged.
Bytes may therefore be read piece by piece when each piece ends with such a byte. A character other
than the replacement is only read off its own bytes, and sound bytes are read as strict reading does.
-/
namespace SkinLint.Utf8

theorem length_tails_le (count low high : Nat) (rest : Bytes) :
    (tails count low high rest).length ≤ rest.length := by
  induction rest generalizing count low high with
  | nil => cases count <;> simp [tails]
  | cons b rest ih =>
    cases count with
    | zero => simp [tails]
    | succ count =>
      rw [tails]
      split
      · simpa using ih count 0x80 0xbf
      · simp

section Ascii

variable {b : UInt8} (hb : b.toNat < 0x80)
include hb

theorem tails_append {low : Nat} (hlow : 0x80 ≤ low) (count high : Nat) (xs ys : Bytes) :
    tails count low high (xs ++ b :: ys) = tails count low high xs := by
  induction xs generalizing count low high with
  | nil =>
    cases count with
    | zero => rfl
    | succ count =>
      have hout : ¬ (low ≤ b.toNat ∧ b.toNat ≤ high) := by omega
      simp only [List.nil_append, tails, if_neg hout]
  | cons a xs ih =>
    cases count with
    | zero => rfl
    | succ count => rw [List.cons_append, tails, tails, ih (le_refl _)]

/-- What a first byte is read with lies in front of the next ASCII byte. -/
theorem read_append (a : UInt8) (xs ys : Bytes) :
    read a (xs ++ b :: ys) = read a xs ∧ (read a xs).2 ≤ xs.length := by
  unfold read
  by_cases ha : a.toNat < 0x80
  · simp [ha]
  rw [if_neg ha, if_neg ha]
  cases hs : shape? a.toNat with
  | none => simp
  | some s =>
    have hlow : 0x80 ≤ s.low := by
      rcases shape?_cases hs with h | h | h <;> omega
    dsimp only
    rw [tails_append hb hlow]
    refine ⟨rfl, ?_⟩
    split <;> exact length_tails_le _ _ _ _

theorem decodeLossyFrom_append {skip : Nat} {xs : Bytes} (h : skip ≤ xs.length) (ys : Bytes) :
    decodeLossyFrom skip (xs ++ b :: ys) =
      decodeLossyFrom skip xs ++ Char.ofNat b.toNat :: decodeLossy ys := by
  -- byte by byte: `skip` bytes of `xs` belong to a character that was read before
  induction xs generalizing skip with
  | nil =>
    obtain rfl : skip = 0 := by simpa using h
    have hread : read b ys = (some (Char.ofNat b.toNat), 0) := by rw [read, if_pos hb]
    simp only [List.nil_append, decodeLossyFrom, hread]
    rfl
  | cons a xs ih =>
    cases skip with
    | zero =>
      obtain ⟨hread, hlen⟩ := read_append hb a xs ys
      rw [List.cons_append, decodeLossyFrom, hread, ih hlen]
      rfl
    | succ skip =>
      rw [List.cons_append, decodeLossyFrom, ih (by simpa using h)]
      rfl

/-- What stands in front of an ASCII byte and what stands behind it are read apart. -/
theorem decodeLossy_append (xs ys : Bytes) : decodeLossy (xs ++ b :: ys) =
    decodeLossy xs ++ Char.ofNat b.toNat :: decodeLossy ys :=
  decodeLossyFrom_append hb (Nat.zero_le _) ys

end Ascii

/-- The first character is the one whose bytes stand in front, unless it stands for damage. -/
theorem encodeChar_prefix_of_head? {bytes : Bytes} {c : Char} (hc : c ≠ replacement)
    (h : (decodeLossy bytes).head? = some c) : encodeChar c <+: bytes := by
  cases bytes with
  | nil => simp [decodeLossy, decodeLossyFrom] at h
  | cons b rest =>
    rw [decodeLossy, decodeLossyFrom, List.head?_cons, Option.some.injEq] at h
    cases hr : read b rest with
    | mk first more =>
      cases first with
      | none =>
        rw [hr] at h
        exact absurd h.symm hc
      | some d =>
        rw [hr] at h
        obtain rfl : d = c := h
        rw [encodeChar_of_read hr]
        exact ⟨rest.drop more, by simp⟩

theorem decodeLossyFrom_of_decodeFrom? {skip : Nat} {bytes : Bytes} {t : Text}
    (h : decodeFrom? skip bytes = some t) : decodeLossyFrom skip bytes = t := by
  induction bytes generalizing skip t with
  | nil => simpa [decodeFrom?, decodeLossyFrom] using h
  | cons b rest ih =>
    cases skip with
    | succ skip => exact ih h
    | zero =>
      rw [decodeFrom?] at h
      rw [decodeLossyFrom]
      cases hr : read b rest with
      | mk first more =>
        cases first with
        | none => simp [hr] at h
        | some c =>
          simp only [hr] at h
          obtain ⟨t', ht, rfl⟩ := Option.map_eq_some_iff.mp h
          rw [ih ht]
          rfl

theorem decodeLossy_encode (t : Text) : decodeLossy (encode t) = t :=
  decodeLossyFrom_of_decodeFrom? (decode?_encode t)

/-- An ASCII byte stands for a character of its own. -/
theorem mem_of_mem_encode {b : UInt8} (hb : b.toNat < 0x80) {t : Text} (h : b ∈ encode t) :
    Char.ofNat b.toNat ∈ t := by
  obtain ⟨xs, ys, hsplit⟩ := List.append_of_mem h
  rw [← decodeLossy_encode t, hsplit, decodeLossy_append hb]
  simp

end SkinLint.Utf8
