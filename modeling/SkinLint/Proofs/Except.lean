import Mathlib.Data.List.Forall2

/-!
# Steps that may fail

A run of steps succeeds when every step does, and fails with the error of one of them.
-/
namespace SkinLint

theorem bind_eq_ok_iff {ε α β : Type} {x : Except ε α} {f : α → Except ε β} {b : β} :
    x >>= f = .ok b ↔ ∃ a, x = .ok a ∧ f a = .ok b := by
  cases x <;> simp [bind, Except.bind]

theorem mapM_eq_ok_iff {ε α β : Type} {f : α → Except ε β} {l : List α} {xs : List β} :
    l.mapM f = .ok xs ↔ List.Forall₂ (fun a x => f a = .ok x) l xs := by
  induction l generalizing xs with
  | nil => simp [pure, Except.pure, eq_comm]
  | cons a l ih =>
    rw [List.mapM_cons, List.forall₂_cons_left_iff]
    simp only [bind_eq_ok_iff, pure, Except.pure, Except.ok.injEq, ih]
    grind

theorem exists_error_of_mapM {ε α β : Type} {f : α → Except ε β} {l : List α} {e : ε}
    (h : l.mapM f = .error e) : ∃ a ∈ l, f a = .error e := by
  induction l with
  | nil => cases h
  | cons a l ih =>
    rw [List.mapM_cons] at h
    cases ha : f a with
    | error e' =>
      rw [ha] at h
      obtain rfl := Except.error.inj h
      exact ⟨a, List.mem_cons_self, ha⟩
    | ok x =>
      cases hl : l.mapM f with
      | error e' =>
        simp only [ha, hl, bind, Except.bind, Except.error.injEq] at h
        obtain ⟨b, hb, hfb⟩ := ih (h ▸ hl)
        exact ⟨b, List.mem_cons_of_mem _ hb, hfb⟩
      | ok xs => simp [ha, hl, bind, Except.bind, pure, Except.pure] at h

theorem exists_mapM_eq_ok {ε α β : Type} {f : α → Except ε β} {l : List α}
    (h : ∀ a ∈ l, ∃ x, f a = .ok x) : ∃ xs, l.mapM f = .ok xs := by
  cases hl : l.mapM f with
  | ok xs => exact ⟨xs, rfl⟩
  | error e =>
    obtain ⟨a, ha, herror⟩ := exists_error_of_mapM hl
    obtain ⟨x, hx⟩ := h a ha
    rw [hx] at herror
    cases herror

theorem exists_ok_of_mapM {ε α β : Type} {f : α → Except ε β} {l : List α} {xs : List β}
    (h : l.mapM f = .ok xs) {a : α} (ha : a ∈ l) : ∃ x, f a = .ok x := by
  rw [mapM_eq_ok_iff] at h
  induction h with
  | nil => cases ha
  | cons hx _ ih =>
    obtain rfl | ha := List.mem_cons.1 ha
    · exact ⟨_, hx⟩
    · exact ih ha

/-- What some step of a run gives. -/
theorem mem_flatten_of_mapM {ε α β : Type} {f : α → Except ε (List β)} {l : List α}
    {found : List (List β)} (h : l.mapM f = .ok found) {x : β} :
    x ∈ found.flatten ↔ ∃ a ∈ l, ∃ xs, f a = .ok xs ∧ x ∈ xs := by
  rw [mapM_eq_ok_iff] at h
  induction h with
  | nil => simp
  | cons ha h ih => simp [ih, ha]

end SkinLint
