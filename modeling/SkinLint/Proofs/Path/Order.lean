import Mathlib.Data.List.Basic
import SkinLint.Path

/-!
# The order of paths

Paths are ordered by their components. The order is total, and paths that stand at the same place in
it are the same path.
-/
namespace SkinLint

namespace Component

instance : Std.TransCmp Component.compare :=
  inferInstanceAs (Std.TransCmp
    (compareLex (compareOn rank) (compareOn fun c : Component => c.text.map Char.toNat)))

instance : Std.LawfulEqCmp Component.compare where
  eq_of_compare {a b} h := by
    obtain ⟨hrank, htext⟩ := Ordering.then_eq_eq.1 h
    have hrank := Std.LawfulEqCmp.eq_of_compare hrank
    have htext := List.map_injective_iff.2 (fun c d hcd => Char.toNat_inj.1 hcd)
      (Std.LawfulEqCmp.eq_of_compare htext)
    cases a <;> cases b <;> simp_all [rank, text]

end Component

namespace Path

instance : Std.TransCmp Path.compare where
  eq_swap {_ _} := @Std.OrientedCmp.eq_swap _ (List.compareLex Component.compare) _ _ _
  isLE_trans {_ _ _} := @Std.TransCmp.isLE_trans _ (List.compareLex Component.compare) _ _ _ _

theorem compare_eq_iff {p q : Path} : p.compare q = .eq ↔ p.components = q.components :=
  @Std.LawfulEqCmp.compare_eq_iff_eq _ (List.compareLex Component.compare) _ _ _

theorem le_trans {p q r : Path} (hpq : p.le q) (hqr : q.le r) : p.le r :=
  Std.TransCmp.isLE_trans hpq hqr

theorem le_total (p q : Path) : p.le q ∨ q.le p := by
  have hswap : q.compare p = (p.compare q).swap := Std.OrientedCmp.eq_swap
  unfold le
  rw [hswap]
  cases p.compare q <;> simp [Ordering.swap]

theorem lt_of_le_of_ne {p q : Path} (h : p.le q) (hne : p.components ≠ q.components) :
    p.compare q = .lt := by
  obtain hlt | heq := Ordering.isLE_iff_eq_lt_or_eq_eq.1 h
  · exact hlt
  · exact absurd (compare_eq_iff.1 heq) hne

theorem components_eq_of_le {p q : Path} (hpq : p.le q) (hqp : q.le p) :
    p.components = q.components := by
  by_contra hne
  exact Std.OrientedCmp.not_isLE_of_lt (lt_of_le_of_ne hpq hne) hqp

theorem pairwise_mergeSort (paths : List Path) :
    (paths.mergeSort Path.le).Pairwise fun p q => p.le q := by
  have htotal (p q : Path) : p.le q || q.le p := by simpa using le_total p q
  have htrans (p q r : Path) (hpq : p.le q) (hqr : q.le r) : p.le r := le_trans hpq hqr
  exact List.pairwise_mergeSort htrans htotal paths

end Path

end SkinLint
