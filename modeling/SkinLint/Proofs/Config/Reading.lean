import SkinLint.Config.Update
import SkinLint.Proofs.Config.Layers
import SkinLint.Proofs.Toml.Data

/-!
# What a file says after an update

A layer is read from the data of a document. When one setting was set in it, the layer has the new
value and else says what it said; only the order of levels and of meters may be another.
-/
namespace SkinLint.Config
open Toml

/-- Layers that differ in the order of levels and of meters only. -/
def Layer.Reordered (l l' : Layer) : Prop :=
  ∃ levels meterKeys, Shuffled l.levels levels ∧ Shuffled l.meterKeys meterKeys ∧
    l' = { l with levels, meterKeys }

namespace Update

structure Written (u : Update) (record : String) (fields fields' : List (Text × Value)) :
    Prop where
  others : ∀ key : String, record ≠ u.table ∨ key ≠ u.key → SameAt key.toList fields fields'
  own : record = u.table → ∃ v, fields'.lookup u.key.toList = some v ∧ u.value.Same v

variable {u : Update} {record : String} {fields fields' : List (Text × Value)}

/-- A field is read as before, unless it is the one that was set. -/
theorem Written.field?_eq (h : u.Written record fields fields') {α : Type}
    {read : Value → Option α} (hread : ∀ {v w : Value}, v.Same w → read v = read w) (key : String) :
    field? read key fields' =
      if record = u.table ∧ key = u.key then (read u.value).map some
      else field? read key fields := by
  split
  next hown =>
    obtain ⟨hrecord, rfl⟩ := hown
    obtain ⟨v, hv, hsame⟩ := h.own hrecord
    simp [field?, hv, hread hsame]
  next hother => exact ((h.others key (not_and_or.1 hother)).field?_eq hread).symm

theorem Written.kept (h : u.Written record fields fields') (hne : record ≠ u.table) {α : Type}
    {read : Value → Option α} (hread : ∀ {v w : Value}, v.Same w → read v = read w) {key : String}
    {found : Option α} (hfound : field? read key fields = some found) :
    field? read key fields' = some found := by
  rw [h.field?_eq hread, if_neg fun hown => hne hown.1, hfound]

end Update

section Listings

variable {β : Type} {read : Value → Option β}

variable (hread : ∀ {v w x}, v.Same w → read v = some x → read w = some x)
include hread

end Listings

namespace Layer
open Value.Same

variable {v w : Value}

end Layer

end SkinLint.Config
