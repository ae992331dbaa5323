import SkinLint.Encoding.Utf16
import SkinLint.Proofs.Encoding.Utf8

/-!
# UTF-16 is read back

Units of sixteen bits are read as a text exactly when they are the units of that text, and bytes are
taken as units exactly when they are the bytes of those units, in either order.
-/
namespace SkinLint.Utf16
open Text Utf8

theorem encodeChar_one {n : Nat} (hv : n.isValidChar) (h : n < 0x10000) :
    encodeChar (Char.ofNat n) = [n] := by
  rw [encodeChar, toNat_charOfNat hv, if_pos h]

theorem encodeChar_pair {n : Nat} (hv : n.isValidChar) (h : 0x10000 ≤ n) :
    encodeChar (Char.ofNat n) =
      [0xd800 + (n - 0x10000) / 0x400, 0xdc00 + (n - 0x10000) % 0x400] := by
  rw [encodeChar, toNat_charOfNat hv, if_neg (by omega)]

/-- A character takes one unit, which is no surrogate, or a high and a low one. -/
theorem encodeChar_cases (c : Char) :
    (∃ u, encodeChar c = [u] ∧ u < 0x10000 ∧ isLow u = false ∧ isHigh u = false ∧
      Char.ofNat u = c) ∨
    ∃ u v, encodeChar c = [u, v] ∧ isHigh u = true ∧ isLow v = true ∧
      Char.ofNat (0x10000 + (u - 0xd800) * 0x400 + (v - 0xdc00)) = c := by
  have hv := isValidChar_toNat c
  rw [← Char.ofNat_toNat c]
  generalize c.toNat = n at hv ⊢
  have hn : n < 0xd800 ∨ 0xdfff < n ∧ n < 0x110000 := hv
  by_cases h : n < 0x10000
  · refine .inl ⟨n, encodeChar_one hv h, h, ?_, ?_, rfl⟩
    · simp only [isLow, Bool.and_eq_false_iff, decide_eq_false_iff_not]
      omega
    · simp only [isHigh, Bool.and_eq_false_iff, decide_eq_false_iff_not]
      omega
  · refine .inr ⟨_, _, encodeChar_pair hv (by omega), ?_, ?_, ?_⟩
    · simp only [isHigh, Bool.and_eq_true, decide_eq_true_eq]
      omega
    · simp only [isLow, Bool.and_eq_true, decide_eq_true_eq]
      omega
    · have hval : 0x10000 + (0xd800 + (n - 0x10000) / 0x400 - 0xd800) * 0x400 +
          (0xdc00 + (n - 0x10000) % 0x400 - 0xdc00) = n := by omega
      rw [hval]

theorem isLow_of_isHigh {u : Nat} (h : isHigh u = true) : isLow u = false := by
  simp only [isHigh, Bool.and_eq_true, decide_eq_true_eq] at h
  simp only [isLow, Bool.and_eq_false_iff, decide_eq_false_iff_not]
  omega

theorem lt_of_mem_encode {t : Text} {u : Nat} (h : u ∈ encode t) : u < 0x10000 := by
  obtain ⟨c, -, hu⟩ := List.mem_flatMap.mp h
  rcases encodeChar_cases c with ⟨v, hc, hv, -⟩ | ⟨v, w, hc, hv, hw, -⟩
  · rw [hc, List.mem_singleton] at hu
    omega
  · simp only [isHigh, isLow, Bool.and_eq_true, decide_eq_true_eq] at hv hw
    rw [hc] at hu
    simp only [List.mem_cons, List.not_mem_nil, or_false] at hu
    omega

theorem decode?_cons {u : Nat} (rest : List Nat) (hl : isLow u = false) (hh : isHigh u = false) :
    decode? (u :: rest) = (decode? rest).map (Char.ofNat u :: ·) := by
  rw [decode?.eq_def]
  simp [hl, hh]

theorem decode?_cons_cons {u v : Nat} (rest : List Nat) (hu : isHigh u = true)
    (hv : isLow v = true) : decode? (u :: v :: rest) =
      (decode? rest).map (Char.ofNat (0x10000 + (u - 0xd800) * 0x400 + (v - 0xdc00)) :: ·) := by
  rw [decode?.eq_def]
  simp [isLow_of_isHigh hu, hu, hv]

theorem decode?_encode (t : Text) : decode? (encode t) = some t := by
  induction t with
  | nil => rfl
  | cons c t ih =>
    rw [encode, List.flatMap_cons]
    change decode? (encodeChar c ++ encode t) = _
    rcases encodeChar_cases c with ⟨u, hc, -, hl, hh, hu⟩ | ⟨u, v, hc, hu, hv, huv⟩
    · rw [hc, List.singleton_append, decode?_cons _ hl hh, ih, hu]
      rfl
    · rw [hc, List.cons_append, List.singleton_append, decode?_cons_cons _ hu hv, ih, huv]
      rfl

theorem encode_of_decode? {units : List Nat} {t : Text} (hb : ∀ u ∈ units, u < 0x10000)
    (h : decode? units = some t) : encode t = units := by
  fun_induction decode? units generalizing t with
  | case1 =>
    obtain rfl := Option.some.inj h
    rfl
  | case2 => simp at h
  | case3 => simp at h
  | case4 u hl hh v rest hv ih =>
    obtain ⟨t', ht, rfl⟩ := Option.map_eq_some_iff.mp h
    simp only [isHigh, isLow, Bool.and_eq_true, decide_eq_true_eq] at hh hv
    have hrest := ih (fun w hw => hb w (by simp [hw])) ht
    generalize hn : 0x10000 + (u - 0xd800) * 0x400 + (v - 0xdc00) = n
    have hhigh : 0xd800 + (n - 0x10000) / 0x400 = u := by omega
    have hlow : 0xdc00 + (n - 0x10000) % 0x400 = v := by omega
    rw [encode, List.flatMap_cons, encodeChar_pair (by unfold Nat.isValidChar; omega) (by omega),
      hhigh, hlow]
    change u :: v :: encode t' = _
    rw [hrest]
  | case5 => simp at h
  | case6 u rest hl hh ih =>
    obtain ⟨t', ht, rfl⟩ := Option.map_eq_some_iff.mp h
    have hu : u < 0x10000 := hb u (by simp)
    have hv : u.isValidChar := by
      simp only [isHigh, isLow, Bool.and_eq_true, decide_eq_true_eq] at hl hh
      unfold Nat.isValidChar
      omega
    rw [encode, List.flatMap_cons, encodeChar_one hv hu]
    change u :: encode t' = _
    rw [ih (fun w hw => hb w (by simp [hw])) ht]

theorem units?_flatMap (bigEnd : Bool) {units : List Nat} (h : ∀ u ∈ units, u < 0x10000) :
    units? bigEnd (units.flatMap (unitBytes bigEnd)) = some units := by
  induction units with
  | nil => rfl
  | cons u units ih =>
    have hu := h u (by simp)
    have hhigh : (u / 256).toUInt8.toNat = u / 256 := toNat_toUInt8 (by omega)
    have hlow : (u % 256).toUInt8.toNat = u % 256 := toNat_toUInt8 (by omega)
    have hval : u / 256 * 256 + u % 256 = u := by omega
    rw [List.flatMap_cons]
    cases bigEnd <;>
      simp [unitBytes, units?, ih (fun w hw => h w (by simp [hw])), hhigh, hlow, hval]

theorem unitBytes_join (bigEnd : Bool) (a b : UInt8) :
    unitBytes bigEnd (if bigEnd then a.toNat * 256 + b.toNat else b.toNat * 256 + a.toNat) =
      [a, b] := by
  have ha := a.toNat_lt
  have hb := b.toNat_lt
  cases bigEnd
  · change [((b.toNat * 256 + a.toNat) % 256).toUInt8, ((b.toNat * 256 + a.toNat) / 256).toUInt8] = _
    rw [toUInt8_eq (b := a) (by omega), toUInt8_eq (b := b) (by omega)]
  · change [((a.toNat * 256 + b.toNat) / 256).toUInt8, ((a.toNat * 256 + b.toNat) % 256).toUInt8] = _
    rw [toUInt8_eq (b := a) (by omega), toUInt8_eq (b := b) (by omega)]

theorem flatMap_of_units? {bigEnd : Bool} {bytes : Bytes} {units : List Nat}
    (h : units? bigEnd bytes = some units) :
    units.flatMap (unitBytes bigEnd) = bytes ∧ ∀ u ∈ units, u < 0x10000 := by
  fun_induction units? bigEnd bytes generalizing units with
  | case1 =>
    obtain rfl := Option.some.inj h
    simp
  | case2 => simp at h
  | case3 a b rest ih =>
    obtain ⟨units', hu, rfl⟩ := Option.map_eq_some_iff.mp h
    obtain ⟨hbytes, hbound⟩ := ih hu
    constructor
    · rw [List.flatMap_cons, unitBytes_join, hbytes]
      rfl
    · intro u hu
      have ha := a.toNat_lt
      have hb := b.toNat_lt
      rcases List.mem_cons.mp hu with rfl | hu
      · split <;> omega
      · exact hbound u hu

end SkinLint.Utf16
