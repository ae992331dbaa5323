import SkinLint.Text.Basic

/-! What a TOML document means, without the way it is written. -/
namespace SkinLint.Toml

inductive Value where
  | string (text : Text)
  | integer (n : Int)
  /-- A floating point number, as it is written. -/
  | float (written : Text)
  | boolean (b : Bool)
  /-- A date, a time or both, as it is written. -/
  | moment (written : Text)
  | array (items : List Value)
  | table (entries : List (Text × Value))

namespace Value

/-- The name under which a moment stands when it is looked at as a table. -/
def momentName : Text := "$__toml_private_datetime".toList

def string? : Value → Option Text
  | .string t => some t
  | _ => none

def boolean? : Value → Option Bool
  | .boolean b => some b
  | _ => none

def natural? : Value → Option Nat
  | .integer (.ofNat n) => some n
  | _ => none

def strings? : Value → Option (List Text)
  | .array items => items.mapM string?
  | _ => none

def table? : Value → Option (List (Text × Value))
  | .table entries => some entries
  | .moment written => some [(momentName, .string written)]
  | _ => none

/-- The fields of a record, by name or, from an array, by position; what is left out is left out
and what is too much is passed over. -/
def fields? (names : List String) : Value → Option (List (Text × Value))
  | .array items => some (List.zip (names.map String.toList) items)
  | v => v.table?

end Value

/-- A field that may be missing, but not of another kind than `read` wants. -/
def field? {α : Type} (read : Value → Option α) (name : String) (fields : List (Text × Value)) :
    Option (Option α) :=
  match fields.lookup name.toList with
  | none => some none
  | some v => (read v).map some

end SkinLint.Toml
