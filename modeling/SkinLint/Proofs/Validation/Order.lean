import SkinLint.Proofs.Validation.Reports

/-!
# Reading order

Putting findings in order is stable: a finding goes right behind those that start before it, and in
front of all that were made after it and do not. Whatever drops findings or changes them in place
may therefore be done before or after they are put in order.
-/
namespace SkinLint.Validation
open Text Document

def startsBefore (place : Position) (d : Diagnostic) : Bool := !place.le d.range.start

theorem pairwise_inOrder (found : List Diagnostic) :
    (inOrder found).Pairwise fun a b => a.range.start.le b.range.start = true := by
  apply List.pairwise_mergeSort
  · intro a b c hab hbc
    exact Position.le_trans hab hbc
  · intro a b
    exact Position.le_total a.range.start b.range.start

theorem inOrder_cons (d : Diagnostic) (found : List Diagnostic) :
    ∃ above below, inOrder (d :: found) = above ++ d :: below ∧ inOrder found = above ++ below ∧
      (∀ e ∈ above, startsBefore d.range.start e = true) ∧
      ∀ e ∈ below, startsBefore d.range.start e = false := by
  obtain ⟨above, below, hcons, hfound, habove⟩ :=
    @List.mergeSort_cons Diagnostic (fun a b => a.range.start.le b.range.start)
      (fun _ _ _ hab hbc => Position.le_trans hab hbc)
      (fun a b => Position.le_total a.range.start b.range.start) d found
  refine ⟨above, below, hcons, hfound, habove, ?_⟩
  have hsorted := pairwise_inOrder (d :: found)
  rw [inOrder, hcons, List.pairwise_append, List.pairwise_cons] at hsorted
  intro e he
  simp [startsBefore, hsorted.2.1.1 e he]

/-- There is one place to cut a list between what starts before a place and what does not. -/
theorem cut_unique {place : Position} {above below above' below' : List Diagnostic}
    (h : above ++ below = above' ++ below')
    (ha : ∀ e ∈ above, startsBefore place e = true)
    (hb : ∀ e ∈ below, startsBefore place e = false)
    (ha' : ∀ e ∈ above', startsBefore place e = true)
    (hb' : ∀ e ∈ below', startsBefore place e = false) : above = above' ∧ below = below' := by
  have habove := congrArg (List.filter (startsBefore place)) h
  rw [List.filter_append, List.filter_append, List.filter_eq_self.mpr ha,
    List.filter_eq_self.mpr ha', List.filter_eq_nil_iff.mpr (by simpa using hb),
    List.filter_eq_nil_iff.mpr (by simpa using hb'), List.append_nil, List.append_nil] at habove
  subst habove
  exact ⟨rfl, List.append_cancel_left h⟩

/-- What keeps every finding in its place, or drops it, may be done before or after ordering. -/
theorem filterMap_inOrder {f : Diagnostic → Option Diagnostic}
    (hf : ∀ d d', f d = some d' → d'.range.start = d.range.start) (found : List Diagnostic) :
    (inOrder found).filterMap f = inOrder (found.filterMap f) := by
  have hkept {place : Position} {side : Bool} {ds : List Diagnostic}
      (h : ∀ e ∈ ds, startsBefore place e = side) :
      ∀ e ∈ ds.filterMap f, startsBefore place e = side := by
    intro e' he'
    obtain ⟨e, he, hfe⟩ := List.mem_filterMap.mp he'
    rw [startsBefore, hf e e' hfe]
    exact h e he
  induction found with
  | nil => simp [inOrder]
  | cons d found ih =>
    obtain ⟨above, below, hcons, hfound, ha, hb⟩ := inOrder_cons d found
    rw [hfound, List.filterMap_append] at ih
    rw [hcons, List.filterMap_append]
    cases hd : f d with
    | none => rw [List.filterMap_cons_none hd, List.filterMap_cons_none hd, ih]
    | some d' =>
      -- `d'` cuts what is left of the findings where `d` cut the findings
      obtain ⟨above', below', hcons', hfound', ha', hb'⟩ := inOrder_cons d' (found.filterMap f)
      rw [hf d d' hd] at ha' hb'
      rw [hfound'] at ih
      obtain ⟨habove, hbelow⟩ := cut_unique ih (hkept ha) (hkept hb) ha' hb'
      rw [List.filterMap_cons_some hd, List.filterMap_cons_some hd, hcons', habove, hbelow]

theorem filter_inOrder (P : Diagnostic → Bool) (found : List Diagnostic) :
    (inOrder found).filter P = inOrder (found.filter P) := by
  rw [← List.filterMap_eq_filter, filterMap_inOrder]
  intro d d' h
  rw [Option.guard_eq_some_iff] at h
  rw [h.1]

/-- Reports are chosen by rule and place as the breaches that they are made of, in their order. -/
theorem filter_validate (P : Rule → Range → Prop) [∀ r range, Decidable (P r range)]
    (s : ValidationSettings) (m : MeterSettings) (present : Path → Bool) (document : Path)
    (text : Text) :
    (validate s m present document text).filter (fun d => P d.rule d.range) =
      inOrder (((breaches s m (context s present document) (lines (dropMark text))).filter
        fun b => P b.rule b.range).filterMap (Breach.diagnostic? s.level)) := by
  rw [validate, filter_inOrder, filter_filterMap_diagnostic?]

end SkinLint.Validation
