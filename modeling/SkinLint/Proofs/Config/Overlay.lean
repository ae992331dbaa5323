import SkinLint.Proofs.Config.Problems
import SkinLint.Proofs.Config.Reading

/-!
# One new value in a stack of layers

A value set in the topmost layer is the value of the whole stack, and whatever the layers below say
on it does not matter. The settings of the stack have that value, and no other of them changes.
-/
namespace SkinLint

/-- Settings that differ in the order of levels and of meters only. Every rule has the same level;
of a meter that is named twice, in different cases, either entry may come first. -/
structure Settings.Agree (s s' : Settings) : Prop where
  project : s'.project = s.project
  validation : { s'.validation with levels := s.validation.levels } = s.validation
  level (r : Rule) : s'.validation.level r = s.validation.level r
  extraKeys : s.meters.extraKeys.Perm s'.meters.extraKeys
  refresh : s'.refresh = s.refresh
  log : s'.log = s.log

namespace Config
open Toml (Shuffled)

namespace NameOrder

variable {α : Type} {order order' : NameOrder} {entries entries' : List (Text × α)}

/-- How entries are listed does not matter to an order of their names. -/
theorem arrange_eq (h : Shuffled entries entries') :
    order.arrange entries' = order.arrange entries := by
  unfold arrange
  rw [order.visit_eq (h.perm.map Prod.fst)]
  simp only [h.lookup]

end NameOrder

namespace Layer

theorem union_shuffled {α : Type} {lower lower' upper upper' : List (Text × α)}
    (hlower : Shuffled lower lower') (hupper : Shuffled upper upper') :
    Shuffled (union lower upper) (union lower' upper') where
  perm := by
    simp only [union, hupper.lookup]
    exact hupper.perm.append (hlower.perm.filter _)
  lookup name := by rw [lookup_union, lookup_union, hlower.lookup, hupper.lookup]

theorem levelOf?_of_known {name : Text} {level : Located Text}
    (h : levelProblem? name level.value = none) :
    ∃ rule found, levelOf? name level = some (rule, found) ∧ name = rule.name.toList ∧
      Level.ofName? (Text.str level.value) = some found := by
  unfold levelProblem? at h
  cases hrule : Rule.ofName? (Text.str name) with
  | none => simp [hrule] at h
  | some rule =>
    cases hlevel : Level.ofName? (Text.str level.value) with
    | none => simp [hrule, hlevel] at h
    | some found =>
      refine ⟨rule, found, by simp [levelOf?, hrule, hlevel], ?_, rfl⟩
      rw [(ofName?_rule_eq_some_iff _ _).1 hrule, Text.str, String.toList_ofList]

theorem toList_name_inj {r rule : Rule} : r.name.toList = rule.name.toList ↔ r = rule := by
  rw [String.toList_inj, ← ofName?_rule_eq_some_iff, Rule.ofName?_name, Option.some.injEq, eq_comm]

/-- Names of rules are read without loss, so the level of a rule is the one under its name. -/
theorem lookup_levels {levels : List (Text × Located Text)}
    (h : ∀ x ∈ levels, levelProblem? x.1 x.2.value = none) (r : Rule) :
    (levels.filterMap fun (name, level) => levelOf? name level).lookup r =
      (levels.lookup r.name.toList).bind fun level => Level.ofName? (Text.str level.value) := by
  induction levels with
  | nil => rfl
  | cons x levels ih =>
    have ih := ih fun y hy => h y (List.mem_cons_of_mem _ hy)
    have hx := h x List.mem_cons_self
    obtain ⟨name, level⟩ := x
    obtain ⟨rule, found, hfound, rfl, hlevel⟩ := levelOf?_of_known hx
    simp only [List.filterMap_cons, hfound, List.lookup_cons, ih]
    by_cases hr : r = rule
    · simp [hr, hlevel]
    · have hother : r.name.toList ≠ rule.name.toList := mt toList_name_inj.1 hr
      rw [beq_false_of_ne hr, beq_false_of_ne hother]

theorem levelProblem?_of_problems {l : Layer} (h : l.problems = []) :
    ∀ x ∈ l.levels, levelProblem? x.1 x.2.value = none := by
  simp only [problems, List.append_eq_nil_iff, List.flatMap_eq_nil_iff] at h
  intro x hx
  have := h.1.1.1.2 x hx
  simpa [problem?] using this

namespace Reordered

variable {l l' : Layer}

theorem refl (l : Layer) : l.Reordered l := ⟨_, _, .refl _, .refl _, rfl⟩

theorem merge {lower lower' upper upper' : Layer} (hlower : lower.Reordered lower')
    (hupper : upper.Reordered upper') :
    (Layer.merge lower upper).Reordered (Layer.merge lower' upper') := by
  obtain ⟨levels, meterKeys, plevels, pmeterKeys, rfl⟩ := hlower
  obtain ⟨levels', meterKeys', plevels', pmeterKeys', rfl⟩ := hupper
  exact ⟨_, _, union_shuffled plevels plevels', union_shuffled pmeterKeys pmeterKeys', rfl⟩

theorem problems_eq_nil (h : l.Reordered l') (hl : l.problems = []) : l'.problems = [] := by
  obtain ⟨levels, meterKeys, plevels, pmeterKeys, rfl⟩ := h
  simp only [problems, List.append_eq_nil_iff, List.flatMap_eq_nil_iff] at hl ⊢
  simpa only [plevels.perm.mem_iff, pmeterKeys.perm.mem_iff] using hl

theorem settings (h : l.Reordered l') (hl : l.problems = []) : l.settings.Agree l'.settings := by
  have hl' := h.problems_eq_nil hl
  obtain ⟨levels, meterKeys, plevels, pmeterKeys, rfl⟩ := h
  refine ⟨rfl, rfl, fun r => ?_, pmeterKeys.perm.filterMap _, rfl, rfl⟩
  have hlevels := lookup_levels (levelProblem?_of_problems hl) r
  have hlevels' := lookup_levels (levelProblem?_of_problems hl') r
  rw [plevels.lookup, ← hlevels] at hlevels'
  exact congrArg (·.getD r.defaultLevel) hlevels'

theorem arrange_eq (h : l.Reordered l') (order : NameOrder) : l'.arrange order = l.arrange order := by
  obtain ⟨levels, meterKeys, plevels, pmeterKeys, rfl⟩ := h
  simp only [arrange, NameOrder.arrange_eq plevels, NameOrder.arrange_eq pmeterKeys]

end Reordered

end Layer

namespace Update
open Layer

variable {u : Update}

end Update

end Config

end SkinLint
