import SkinLint.Proofs.Document
import SkinLint.Validation
import Mathlib.Data.List.Forall2

/-!
# Passes over a document

A pass reads the lines of a document one after the other, carries a state and reports on the line at
hand. The check of sections, keys and inclusions is one, the check of the keys of a meter another.
What a pass reports on a line is decided by the state after the lines above it.
-/
namespace SkinLint.Validation

abbrev Pass (σ : Type) := σ → Line → σ × List Breach

namespace Pass

variable {σ α : Type} {p : Pass σ}

def after (p : Pass σ) (state : σ) (ls : List Line) : σ :=
  ls.foldl (fun state l => (p state l).1) state

def found (p : Pass σ) : σ → List Line → List Breach
  | _, [] => []
  | state, l :: rest => (p state l).2 ++ p.found (p state l).1 rest

theorem after_cons (state : σ) (l : Line) (rest : List Line) :
    p.after state (l :: rest) = p.after (p state l).1 rest := rfl

theorem after_append (state : σ) (xs ys : List Line) :
    p.after state (xs ++ ys) = p.after (p.after state xs) ys := List.foldl_append

theorem found_append (state : σ) (xs ys : List Line) :
    p.found state (xs ++ ys) = p.found state xs ++ p.found (p.after state xs) ys := by
  induction xs generalizing state with
  | nil => rfl
  | cons l rest ih =>
    rw [List.cons_append, found, ih, found, List.append_assoc]
    rfl

theorem after_take_succ {ls : List Line} {j : Nat} {l : Line} (h : ls[j]? = some l) (state : σ) :
    p.after state (ls.take (j + 1)) = (p (p.after state (ls.take j)) l).1 := by
  rw [List.take_add_one, h, after_append]
  rfl

/-- What holds at the start and is kept by every line holds above every line. -/
theorem after_take_induction {P : Nat → σ → Prop} {ls : List Line} {start : σ} (hstart : P 0 start)
    (hstep : ∀ {j l state}, ls[j]? = some l → P j state → P (j + 1) (p state l).1) {j : Nat}
    (h : j ≤ ls.length) : P j (p.after start (ls.take j)) := by
  induction j with
  | zero => exact hstart
  | succ j ih =>
    have hl : ls[j]? = some ls[j] := List.getElem?_eq_getElem h
    rw [after_take_succ hl]
    exact hstep hl (ih (by omega))

/-- Lines that a pass skips may be left out. -/
theorem filter_skipped {keep : Line → Bool}
    (h : ∀ state l, keep l = false → p state l = (state, [])) (state : σ) (ls : List Line) :
    p.after state (ls.filter keep) = p.after state ls ∧
      p.found state (ls.filter keep) = p.found state ls := by
  induction ls generalizing state with
  | nil => exact ⟨rfl, rfl⟩
  | cons l rest ih =>
    cases hk : keep l with
    | false =>
      rw [List.filter_cons_of_neg (by simp [hk]), found, after_cons, h state l hk]
      exact ih state
    | true =>
      rw [List.filter_cons_of_pos hk, found, found, after_cons, after_cons]
      exact ⟨(ih _).1, congrArg _ (ih _).2⟩

/-- Two runs over lines that correspond to each other. What one line contributes to the two findings
is compared by a relation that holds of concatenations when it holds of the parts. -/
theorem related {R : σ → σ → Prop} {Q : Line → Line → Prop} {P : List α → List α → Prop}
    {view : Breach → α} (hnil : P [] [])
    (happend : ∀ {a b c d}, P a b → P c d → P (a ++ c) (b ++ d))
    (hstep : ∀ {x y l l'}, R x y → Q l l' →
      R (p x l).1 (p y l').1 ∧ P ((p x l).2.map view) ((p y l').2.map view))
    {ls ls' : List Line} (hl : List.Forall₂ Q ls ls') {x y : σ} (hxy : R x y) :
    R (p.after x ls) (p.after y ls') ∧ P ((p.found x ls).map view) ((p.found y ls').map view) := by
  induction hl generalizing x y with
  | nil => exact ⟨hxy, hnil⟩
  | cons hq _ ih =>
    obtain ⟨hstate, hfound⟩ := hstep hxy hq
    obtain ⟨hstate', hfound'⟩ := ih hstate
    rw [found, found, List.map_append, List.map_append]
    exact ⟨hstate', happend hfound hfound'⟩

theorem exists_step_of_mem_found {state : σ} {ls : List Line} {b : Breach}
    (h : b ∈ p.found state ls) : ∃ state', ∃ l ∈ ls, b ∈ (p state' l).2 := by
  induction ls generalizing state with
  | nil => simp [found] at h
  | cons l rest ih =>
    rw [found, List.mem_append] at h
    rcases h with h | h
    · exact ⟨state, l, by simp, h⟩
    · obtain ⟨state', l', hl, hb⟩ := ih h
      exact ⟨state', l', by simp [hl], hb⟩

def OnLine (p : Pass σ) : Prop := ∀ state l, ∀ b ∈ (p state l).2, b.range.start.line = l.index

def Numbered (ls : List Line) : Prop := ∀ (j : Nat) (l : Line), ls[j]? = some l → l.index = j

theorem numbered_lines (text : Text) : Numbered (Document.lines text) := by
  intro j l h
  rw [Document.getElem?_lines, Option.map_eq_some_iff] at h
  obtain ⟨t, -, rfl⟩ := h
  rfl

theorem Numbered.getElem?_index {ls : List Line} {l : Line} (hn : Numbered ls) (hl : l ∈ ls) :
    ls[l.index]? = some l := by
  obtain ⟨i, hi⟩ := List.mem_iff_getElem?.mp hl
  rw [hn i l hi, hi]

theorem Numbered.index_ne {ls : List Line} {j : Nat} (hn : Numbered ls) (h : ls[j]? = none) :
    ∀ l ∈ ls, l.index ≠ j := by
  rintro l hl rfl
  simp [hn.getElem?_index hl] at h

theorem Numbered.cut {ls : List Line} {j : Nat} {l : Line} (hn : Numbered ls)
    (h : ls[j]? = some l) : ls = ls.take j ++ l :: ls.drop (j + 1) ∧
      (∀ l ∈ ls.take j, l.index ≠ j) ∧ ∀ l ∈ ls.drop (j + 1), l.index ≠ j := by
  refine ⟨?_, ?_, ?_⟩
  · obtain ⟨hj, rfl⟩ := List.getElem?_eq_some_iff.mp h
    rw [← List.drop_eq_getElem_cons hj, List.take_append_drop]
  · intro l hl
    obtain ⟨i, hi, hi', rfl⟩ := List.mem_take_iff_getElem.mp hl
    rw [hn i _ (List.getElem?_eq_getElem _)]
    omega
  · intro l hl
    obtain ⟨i, hi, rfl⟩ := List.mem_drop_iff_getElem.mp hl
    rw [hn _ _ (List.getElem?_eq_getElem _)]
    omega

theorem line_ne_of_mem_found (hp : p.OnLine) {ls : List Line} {j : Nat}
    (h : ∀ l ∈ ls, l.index ≠ j) {state : σ} {b : Breach} (hb : b ∈ p.found state ls) :
    b.range.start.line ≠ j := by
  obtain ⟨state', l, hl, hstep⟩ := exists_step_of_mem_found hb
  rw [hp state' l b hstep]
  exact h l hl

theorem filter_found_of_notMem (hp : p.OnLine) {ls : List Line} {j : Nat}
    (h : ∀ l ∈ ls, l.index ≠ j) (state : σ) :
    (p.found state ls).filter (fun b => b.range.start.line = j) = [] := by
  rw [List.filter_eq_nil_iff]
  intro b hb
  simpa using line_ne_of_mem_found hp h hb

/-- What is found on a line is what the state above it makes of the line. -/
theorem filter_found (hp : p.OnLine) {ls : List Line} (hn : Numbered ls) {j : Nat} {l : Line}
    (h : ls[j]? = some l) (state : σ) :
    (p.found state ls).filter (fun b => b.range.start.line = j) =
      (p (p.after state (ls.take j)) l).2 := by
  obtain ⟨hsplit, habove, hbelow⟩ := hn.cut h
  have hhere (x : σ) : (p x l).2.filter (fun b => b.range.start.line = j) = (p x l).2 := by
    rw [List.filter_eq_self]
    intro b hb
    simp [hp x l b hb, hn j l h]
  conv_lhs => rw [hsplit]
  rw [found_append, found, List.filter_append, List.filter_append,
    filter_found_of_notMem hp habove, filter_found_of_notMem hp hbelow, hhere]
  simp

/-- What stands below a line is not seen above it. -/
theorem filter_found_append (hp : p.OnLine) {ys : List Line} {n : Nat} {keep : Breach → Bool}
    (hys : ∀ l ∈ ys, n ≤ l.index) (hkeep : ∀ b, keep b = true → b.range.start.line < n) (state : σ)
    (xs : List Line) : (p.found state (xs ++ ys)).filter keep = (p.found state xs).filter keep := by
  have hbelow : (p.found (p.after state xs) ys).filter keep = [] := by
    rw [List.filter_eq_nil_iff]
    intro b hb hk
    obtain ⟨state', l, hl, hstep⟩ := exists_step_of_mem_found hb
    have hline := hp state' l b hstep
    have hlow := hkeep b hk
    have hhigh := hys l hl
    omega
  rw [found_append, List.filter_append, hbelow, List.append_nil]

/-- Where a line that leaves the state alone gives way to one that is passed over, the findings on
that line go and all others stay. -/
theorem found_set (hp : p.OnLine) {ls : List Line} (hn : Numbered ls) {i : Nat} {l new : Line}
    (h : ls[i]? = some l) (hl : ∀ state, (p state l).1 = state)
    (hnew : ∀ state, p state new = (state, [])) {keep : Breach → Bool}
    (hother : ∀ b, b.range.start.line ≠ i → keep b = true)
    (hhere : ∀ state, ∀ b ∈ (p state l).2, keep b = false) (state : σ) :
    p.after state (ls.set i new) = p.after state ls ∧
      p.found state (ls.set i new) = (p.found state ls).filter keep := by
  -- both runs come to what stands below the line in one state
  obtain ⟨hsplit, habove, hbelow⟩ := hn.cut h
  obtain ⟨hi, -⟩ := List.getElem?_eq_some_iff.mp h
  have hset : ls.set i new = ls.take i ++ new :: ls.drop (i + 1) := by
    rw [List.set_eq_take_append_cons_drop, if_pos hi]
  have hkept {rest : List Line} (hr : ∀ l ∈ rest, l.index ≠ i) (x : σ) :
      (p.found x rest).filter keep = p.found x rest := by
    rw [List.filter_eq_self]
    intro b hb
    exact hother b (line_ne_of_mem_found hp hr hb)
  have hgone (x : σ) : (p x l).2.filter keep = [] := by
    rw [List.filter_eq_nil_iff]
    intro b hb
    simp [hhere x b hb]
  constructor
  · conv_rhs => rw [hsplit]
    rw [hset, after_append, after_append, after_cons, after_cons, hnew, hl]
  · conv_rhs => rw [hsplit]
    rw [hset, found_append, found_append, found, found, List.filter_append, List.filter_append,
      hkept habove, hkept hbelow, hgone, hnew, hl]

end Pass

theorem run_eq_after (s : ValidationSettings) (c : InclusionContext) (state : State)
    (ls : List Line) : run s c state ls = Pass.after (step s c) state ls := by
  induction ls generalizing state with
  | nil => rfl
  | cons l rest ih => exact ih _

theorem lineBreaches_eq_found (s : ValidationSettings) (c : InclusionContext) (state : State)
    (ls : List Line) : lineBreaches s c state ls = Pass.found (step s c) state ls := by
  induction ls generalizing state with
  | nil => rfl
  | cons l rest ih => rw [lineBreaches, Pass.found, ih]

theorem meterBreaches_eq_found (m : Meter) (keys : List Text) (block : Block) (ls : List Line) :
    meterBreaches m keys block ls = Pass.found (meterStep m keys) block ls := by
  induction ls generalizing block with
  | nil => rfl
  | cons l rest ih => rw [meterBreaches, Pass.found, ih]

end SkinLint.Validation
