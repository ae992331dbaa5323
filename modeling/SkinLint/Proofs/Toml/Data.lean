import Mathlib.Data.List.Forall2
import Mathlib.Data.List.Perm.Basic
import Mathlib.Data.Option.Basic
import SkinLint.Toml.Document

/-!
# The data of documents

What a document means does not depend on the order of the entries in its tables. Values are the same
when they differ in that order only; setting an entry of a table changes what is looked up under its
name, and nothing else.
-/
namespace SkinLint.Toml

/-- Values that differ in the order of tables only. A table has each of its names once. -/
inductive Value.Same : Value → Value → Prop
  | refl (v : Value) : Same v v
  | array {items items' : List Value} (same : List.Forall₂ Same items items') :
      Same (.array items) (.array items')
  | table {entries reordered entries' : List (Text × Value)}
      (once : (entries.map Prod.fst).Nodup) (order : entries.Perm reordered)
      (names : reordered.map Prod.fst = entries'.map Prod.fst)
      (same : List.Forall₂ Same (reordered.map Prod.snd) (entries'.map Prod.snd)) :
      Same (.table entries) (.table entries')

/-- Named entries in another order, but under each name the same one is found. -/
structure Shuffled {κ α : Type} [BEq κ] (entries entries' : List (κ × α)) : Prop where
  perm : entries.Perm entries'
  lookup : ∀ name, entries'.lookup name = entries.lookup name

theorem Shuffled.refl {κ α : Type} [BEq κ] (entries : List (κ × α)) : Shuffled entries entries :=
  ⟨.refl _, fun _ => rfl⟩

theorem Shuffled.trans {κ α : Type} [BEq κ] {a b c : List (κ × α)} (hab : Shuffled a b)
    (hbc : Shuffled b c) : Shuffled a c :=
  ⟨hab.perm.trans hbc.perm, fun name => (hbc.lookup name).trans (hab.lookup name)⟩

def SameAt (name : Text) (fields fields' : List (Text × Value)) : Prop :=
  Option.Rel Value.Same (fields.lookup name) (fields'.lookup name)

namespace Value.Same

variable {v w : Value}

end Value.Same

theorem SameAt.field?_eq {α : Type} {read : Value → Option α} {name : String}
    {fields fields' : List (Text × Value)} (h : SameAt name.toList fields fields')
    (hread : ∀ {v w : Value}, v.Same w → read v = read w) :
    field? read name fields = field? read name fields' := by
  unfold SameAt at h
  unfold field?
  generalize fields.lookup name.toList = found at h
  generalize fields'.lookup name.toList = found' at h
  cases h with
  | none => rfl
  | some hv => simp only [hread hv]

section Setting

end Setting

end SkinLint.Toml
