import Mathlib.Data.List.Basic

/-!
# Entries under names

Looking a name up finds its first entry, which is the only one where names occur once. Entries under
other names play no part.
-/
namespace SkinLint

variable {κ α β : Type} [BEq κ] [LawfulBEq κ]

theorem lookup_filter_of_kept (keep : κ → Bool) {name : κ} (h : keep name = true)
    (entries : List (κ × α)) :
    (entries.filter fun x => keep x.1).lookup name = entries.lookup name := by
  induction entries with
  | nil => rfl
  | cons x entries ih =>
    obtain ⟨other, v⟩ := x
    by_cases hother : name = other
    · subst hother
      rw [List.filter_cons, if_pos h, List.lookup_cons_self, List.lookup_cons_self]
    · have hne : (name == other) = false := beq_false_of_ne hother
      rw [List.filter_cons, List.lookup_cons, hne, ← ih]
      split
      · rw [List.lookup_cons, hne]
      · rfl

theorem mem_of_lookup {entries : List (κ × α)} {name : κ} {v : α}
    (h : entries.lookup name = some v) : (name, v) ∈ entries := by
  obtain ⟨before, behind, rfl, -⟩ := List.lookup_eq_some_iff.1 h
  simp

theorem lookup_eq_some_iff_mem {entries : List (κ × α)} (h : (entries.map Prod.fst).Nodup)
    (name : κ) (v : α) : entries.lookup name = some v ↔ (name, v) ∈ entries := by
  constructor
  · exact mem_of_lookup
  · intro hmem
    rw [List.lookup_eq_some_iff]
    obtain ⟨before, behind, rfl⟩ := List.append_of_mem hmem
    refine ⟨before, behind, rfl, fun other hother => bne_iff_ne.2 fun heq => ?_⟩
    rw [List.map_append, List.nodup_append] at h
    exact h.2.2 other.1 (List.mem_map_of_mem hother) name (by simp) heq.symm

end SkinLint
