import SkinLint.Encoding.Source
import SkinLint.Proofs.Encoding.Utf16

/-!
# Files are read as they are written

A decoded file encodes to its own bytes, and an encoded text decodes to itself and its encoding. The
one exception is plain UTF-8 in front of which the text itself puts a byte order mark: those bytes
are a file with a mark, and are read as such.
-/
namespace SkinLint
open Document

namespace Encoding

theorem decodeUtf8_eq_ok_iff (e : Encoding) (bytes : Bytes) (source : Source) :
    decodeUtf8 e bytes = .ok source ↔ Utf8.encode source.text = bytes ∧ source.encoding = e := by
  rw [← Utf8.decode?_eq_some_iff, decodeUtf8]
  cases source with
  | mk text encoding =>
    cases h : Utf8.decode? bytes with
    | none => simp
    | some t => simp [eq_comm]

theorem decodeUtf16_eq_ok_iff (e : Encoding) (bigEnd : Bool) (bytes : Bytes) (source : Source) :
    decodeUtf16 e bigEnd bytes = .ok source ↔
      encodeUtf16 bigEnd source.text = bytes ∧ source.encoding = e := by
  constructor
  · intro h
    unfold decodeUtf16 at h
    cases hu : Utf16.units? bigEnd bytes with
    | none => simp [hu] at h
    | some units =>
      cases ht : Utf16.decode? units with
      | none => simp [hu, ht] at h
      | some text =>
        simp only [hu, ht, Except.ok.injEq] at h
        subst h
        obtain ⟨hbytes, hbound⟩ := Utf16.flatMap_of_units? hu
        refine ⟨?_, rfl⟩
        rw [encodeUtf16, Utf16.encode_of_decode? hbound ht, hbytes]
  · rintro ⟨rfl, rfl⟩
    rw [decodeUtf16, encodeUtf16, Utf16.units?_flatMap bigEnd (fun u hu => Utf16.lt_of_mem_encode hu)]
    simp only [Utf16.decode?_encode]

end Encoding

namespace Source
open Encoding

theorem decode_cases (bytes : Bytes) :
    (∃ rest, bytes = utf8Mark.markBytes ++ rest ∧ decode bytes = decodeUtf8 .utf8Mark rest) ∨
    (∃ rest, bytes = utf16Little.markBytes ++ rest ∧
      decode bytes = decodeUtf16 .utf16Little false rest) ∨
    (∃ rest, bytes = utf16Big.markBytes ++ rest ∧ decode bytes = decodeUtf16 .utf16Big true rest) ∨
    decode bytes = decodeUtf8 .utf8 bytes := by
  unfold decode
  split
  · exact .inl ⟨_, rfl, rfl⟩
  · exact .inr (.inl ⟨_, rfl, rfl⟩)
  · exact .inr (.inr (.inl ⟨_, rfl, rfl⟩))
  · exact .inr (.inr (.inr rfl))

theorem encode_of_decode {bytes : Bytes} {source : Source} (h : decode bytes = .ok source) :
    source.encoding.encode source.text = bytes := by
  rcases decode_cases bytes with ⟨rest, rfl, hd⟩ | ⟨rest, rfl, hd⟩ | ⟨rest, rfl, hd⟩ | hd
  · rw [hd, decodeUtf8_eq_ok_iff] at h
    rw [h.2, ← h.1]
    rfl
  · rw [hd, decodeUtf16_eq_ok_iff] at h
    rw [h.2, ← h.1]
    rfl
  · rw [hd, decodeUtf16_eq_ok_iff] at h
    rw [h.2, ← h.1]
    rfl
  · rw [hd, decodeUtf8_eq_ok_iff] at h
    rw [h.2, ← h.1]
    rfl

theorem encode_mark (text : Text) :
    Utf8.encode (mark :: text) = utf8Mark.markBytes ++ Utf8.encode text := by
  rw [Utf8.encode, List.flatMap_cons]
  rfl

theorem decode_encode_of_ne_utf8 {e : Encoding} (text : Text) (h : e ≠ .utf8) :
    decode (e.encode text) = .ok ⟨text, e⟩ := by
  cases e with
  | utf8 => exact absurd rfl h
  | utf8Mark => exact (decodeUtf8_eq_ok_iff _ _ _).mpr ⟨rfl, rfl⟩
  | utf16Little => exact (decodeUtf16_eq_ok_iff _ _ _ _).mpr ⟨rfl, rfl⟩
  | utf16Big => exact (decodeUtf16_eq_ok_iff _ _ _ _).mpr ⟨rfl, rfl⟩

/-- No text starts, in UTF-8, with a byte that no character has. -/
theorem encode_ne_of_read {b : UInt8} {rest : Bytes} (text : Text)
    (h : (Utf8.read b rest).1 = none) : Utf8.encode text ≠ b :: rest := by
  intro he
  have hd := (Utf8.decode?_eq_some_iff _ _).mpr he
  rw [Utf8.decode?_cons] at hd
  split at hd
  · simp at hd
  · rename_i hr
    simp [hr] at h

theorem decode_encode_utf8 {text : Text} (h : text.head? ≠ some mark) :
    decode (Encoding.utf8.encode text) = .ok ⟨text, .utf8⟩ := by
  change decode (Utf8.encode text) = _
  rcases decode_cases (Utf8.encode text) with ⟨rest, hb, -⟩ | ⟨rest, hb, -⟩ | ⟨rest, hb, -⟩ | hd
  · have hm := (Utf8.decode?_eq_some_iff _ _).mpr hb
    have hr : Utf8.read 0xef (0xbb :: 0xbf :: rest) = (some mark, 2) := rfl
    change Utf8.decode? (0xef :: 0xbb :: 0xbf :: rest) = some text at hm
    rw [Utf8.decode?_cons, hr] at hm
    obtain ⟨t, -, rfl⟩ := Option.map_eq_some_iff.mp hm
    exact absurd rfl h
  · have hn : Utf8.encode text ≠ 0xff :: 0xfe :: rest := encode_ne_of_read text rfl
    exact absurd hb hn
  · have hn : Utf8.encode text ≠ 0xfe :: 0xff :: rest := encode_ne_of_read text rfl
    exact absurd hb hn
  · rw [hd]
    exact (decodeUtf8_eq_ok_iff _ _ _).mpr ⟨rfl, rfl⟩

theorem decode_encode_mark (text : Text) :
    decode (Encoding.utf8.encode (mark :: text)) = .ok ⟨text, .utf8Mark⟩ := by
  change decode (Utf8.encode (mark :: text)) = _
  rw [encode_mark]
  exact decode_encode_of_ne_utf8 (e := .utf8Mark) text (by decide)

theorem decode_encode (e : Encoding) (text : Text) : decode (e.encode text) =
    if e = .utf8 ∧ text.head? = some mark then .ok ⟨text.tail, .utf8Mark⟩
    else .ok ⟨text, e⟩ := by
  by_cases he : e = .utf8
  · subst he
    by_cases hm : text.head? = some mark
    · obtain ⟨rest, rfl⟩ := List.head?_eq_some_iff.mp hm
      rw [if_pos ⟨rfl, hm⟩]
      exact decode_encode_mark rest
    · rw [if_neg (fun h => hm h.2), decode_encode_utf8 hm]
  · rw [if_neg (fun h => he h.1), decode_encode_of_ne_utf8 text he]

/-- Reading and writing are inverse to each other, and what cannot be read was never written. -/
theorem decode_inverse_encode :
    (∀ (bytes : Bytes) (text : Text) (e : Encoding),
      decode bytes = .ok ⟨text, e⟩ → e.encode text = bytes) ∧
    (∀ (e : Encoding) (text : Text), decode (e.encode text) =
      if e = .utf8 ∧ text.head? = some mark then .ok ⟨text.tail, .utf8Mark⟩ else .ok ⟨text, e⟩) ∧
    ∀ bytes : Bytes, (∃ reason, decode bytes = .error reason) ↔
      ∀ (e : Encoding) (text : Text), e.encode text ≠ bytes := by
  refine ⟨fun bytes text e h => encode_of_decode h, decode_encode, fun bytes => ?_⟩
  constructor
  · rintro ⟨reason, hr⟩ e text rfl
    rw [decode_encode] at hr
    split at hr <;> simp at hr
  · intro h
    cases hd : decode bytes with
    | error reason => exact ⟨reason, rfl⟩
    | ok source => exact absurd (encode_of_decode hd) (h source.encoding source.text)

end Source

end SkinLint
