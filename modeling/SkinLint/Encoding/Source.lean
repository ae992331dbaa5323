import SkinLint.Document
import SkinLint.Encoding.Utf16

/-!
Encodings of skin files. A byte order mark at the front tells which one a file has, and writing puts
it back; a file without a mark is UTF-8.
-/
namespace SkinLint

inductive Encoding where
  | utf8
  | utf8Mark
  | utf16Little
  | utf16Big
deriving DecidableEq, Repr

inductive DecodeError where
  | notUtf8
  | truncatedUtf16
  | invalidUtf16
deriving DecidableEq, Repr

def DecodeError.message : DecodeError → String
  | .notUtf8 => "not valid UTF-8 and no UTF-16 byte order mark"
  | .truncatedUtf16 => "UTF-16 data ends in the middle of a code unit"
  | .invalidUtf16 => "invalid UTF-16 data"

structure Source where
  text : Text
  encoding : Encoding
deriving DecidableEq, Repr

namespace Encoding

def all : List Encoding := [.utf8, .utf8Mark, .utf16Little, .utf16Big]

def name : Encoding → String
  | .utf8 => "utf8"
  | .utf8Mark => "utf8-bom"
  | .utf16Little => "utf16-le"
  | .utf16Big => "utf16-be"

def markBytes : Encoding → Bytes
  | .utf8 => []
  | .utf8Mark => [0xef, 0xbb, 0xbf]
  | .utf16Little => [0xff, 0xfe]
  | .utf16Big => [0xfe, 0xff]

def encodeUtf16 (bigEnd : Bool) (t : Text) : Bytes :=
  (Utf16.encode t).flatMap (Utf16.unitBytes bigEnd)

def encode (e : Encoding) (t : Text) : Bytes :=
  e.markBytes ++
    match e with
    | .utf8 | .utf8Mark => Utf8.encode t
    | .utf16Little => encodeUtf16 false t
    | .utf16Big => encodeUtf16 true t

def decodeUtf8 (e : Encoding) (bytes : Bytes) : Except DecodeError Source :=
  match Utf8.decode? bytes with
  | none => .error .notUtf8
  | some text => .ok ⟨text, e⟩

def decodeUtf16 (e : Encoding) (bigEnd : Bool) (bytes : Bytes) : Except DecodeError Source :=
  match Utf16.units? bigEnd bytes with
  | none => .error .truncatedUtf16
  | some units =>
    match Utf16.decode? units with
    | none => .error .invalidUtf16
    | some text => .ok ⟨text, e⟩

end Encoding

/-- Reads a file by the mark at its front. -/
def Source.decode : Bytes → Except DecodeError Source
  | 0xef :: 0xbb :: 0xbf :: rest => Encoding.decodeUtf8 .utf8Mark rest
  | 0xff :: 0xfe :: rest => Encoding.decodeUtf16 .utf16Little false rest
  | 0xfe :: 0xff :: rest => Encoding.decodeUtf16 .utf16Big true rest
  | bytes => Encoding.decodeUtf8 .utf8 bytes

end SkinLint
