import Mathlib.Data.List.DropRight
import SkinLint.Path
import SkinLint.Proofs.Text

/-!
# Going up from a folder

The parent of a path is shorter than the path, so going up ends, and it lacks one component, so each
step leads somewhere else. The ancestors of a path are all the paths that some number of steps
upwards leads to, the nearest first.
-/
namespace SkinLint.Path

theorem same_iff {p q : Path} : p.same q ↔ p.components = q.components := by
  simp [same]

def up? : Nat → Path → Option Path
  | 0, p => some p
  | n + 1, p => p.parent?.bind (up? n)

theorem joinWith_append {a b : List Text} (ha : a ≠ []) (hb : b ≠ []) :
    Text.joinWith ['/'] (a ++ b) = Text.joinWith ['/'] a ++ '/' :: Text.joinWith ['/'] b := by
  obtain ⟨next, b, rfl⟩ := List.exists_cons_of_ne_nil hb
  induction a with
  | nil => exact absurd rfl ha
  | cons piece a ih =>
    cases a with
    | nil => simp [Text.joinWith_cons_cons, Text.joinWith]
    | cons piece' a =>
      rw [List.cons_append, List.cons_append, Text.joinWith_cons_cons, ← List.cons_append,
        ih (by simp), Text.joinWith_cons_cons]
      simp

theorem dropIdle_concat (pieces : List Text) (last : Text) :
    dropIdle (pieces ++ [last]) =
      if (Component.ofPiece? last).isNone then dropIdle pieces else pieces ++ [last] := by
  unfold dropIdle
  rw [List.reverse_append, List.reverse_singleton, List.singleton_append, List.dropWhile_cons]
  split <;> simp

theorem isPrefix_dropIdle (pieces : List Text) : dropIdle pieces <+: pieces :=
  List.rdropWhile_prefix _ pieces

theorem getLast?_dropIdle (pieces : List Text) : (dropIdle pieces).getLast? ≠ some [] := by
  intro hlast
  obtain ⟨hne, hnil⟩ := List.mem_getLast?_eq_getLast hlast
  have hidle := List.rdropWhile_last_not (fun piece => (Component.ofPiece? piece).isNone) pieces hne
  change ¬(Component.ofPiece? ((dropIdle pieces).getLast hne)).isNone at hidle
  rw [← hnil] at hidle
  exact hidle rfl

/-- The parent of a path lacks its last component and whatever denotes nothing around it. -/
theorem exists_dropped {pieces : List Text} (h : dropIdle pieces ≠ []) :
    ∃ dropped, pieces = dropIdle (dropIdle pieces).dropLast ++ dropped ∧
      ∃ piece ∈ dropped, piece ≠ [] := by
  obtain ⟨behind, hbehind⟩ := isPrefix_dropIdle pieces
  obtain ⟨idle, hidle⟩ := isPrefix_dropIdle (dropIdle pieces).dropLast
  refine ⟨idle ++ [(dropIdle pieces).getLast h] ++ behind, ?_, (dropIdle pieces).getLast h,
    by simp, fun hnil => ?_⟩
  · rw [← List.append_assoc, ← List.append_assoc, hidle, List.dropLast_append_getLast, hbehind]
  · exact getLast?_dropIdle pieces (by rw [List.getLast?_eq_some_getLast h, hnil])

theorem parent?_cases {p q : Path} (h : p.parent? = some q) :
    ∃ first rest, p.pieces = first :: rest ∧
      ((dropIdle rest = [] ∧ first ≠ [] ∧ q = .empty) ∨
        (dropIdle rest ≠ [] ∧
          q = if first = [] ∧ dropIdle (dropIdle rest).dropLast = [] then ⟨['/']⟩
            else ⟨Text.joinWith ['/'] (first :: dropIdle (dropIdle rest).dropLast)⟩)) := by
  unfold parent? at h
  split at h
  next => cases h
  next first rest hpieces =>
    refine ⟨first, rest, hpieces, ?_⟩
    split at h
    next hidle =>
      split at h
      next => cases h
      next hfirst => exact .inl ⟨hidle, by simpa using hfirst, (Option.some.inj h).symm⟩
    next hkept =>
      refine .inr ⟨hkept, ?_⟩
      dsimp only at h
      split at h
      next hroot =>
        rw [if_pos (by simpa using hroot)]
        exact (Option.some.inj h).symm
      next hroot =>
        rw [if_neg (by simpa using hroot)]
        exact (Option.some.inj h).symm

theorem length_parent?_lt {p q : Path} (h : p.parent? = some q) :
    q.text.length < p.text.length := by
  rcases parent?_cases h with ⟨first, rest, hpieces, hparent⟩
  have htext : Text.joinWith ['/'] (first :: rest) = p.text := by
    rw [← hpieces]
    exact Text.joinWith_splitOn '/' p.text
  rcases hparent with ⟨-, hfirst, rfl⟩ | ⟨hkept, rfl⟩
  · obtain ⟨tail, htail⟩ := Text.joinWith_cons ['/'] first rest
    have hpos : 0 < first.length := List.length_pos_iff.2 hfirst
    simp only [← htext, htail, empty, List.length_append, List.length_nil]
    omega
  · obtain ⟨dropped, hrest, piece, hpiece, hne⟩ := exists_dropped hkept
    obtain ⟨c, hc⟩ := List.exists_mem_of_ne_nil _ hne
    have hpos := List.length_pos_of_mem (Text.mem_joinWith_of_mem ['/'] hpiece hc)
    have hlonger : p.text.length =
        (Text.joinWith ['/'] (first :: dropIdle (dropIdle rest).dropLast)).length +
          ((Text.joinWith ['/'] dropped).length + 1) := by
      have hsplit : first :: rest =
          (first :: dropIdle (dropIdle rest).dropLast) ++ dropped := by
        rw [List.cons_append, ← hrest]
      rw [← htext, hsplit, joinWith_append (by simp) (List.ne_nil_of_mem hpiece)]
      simp
    split
    all_goals
      simp only [hlonger, List.length_singleton]
      omega

def leading (first : Text) : Component :=
  if first = [] then .root
  else if first = ['.'] then .here
  else if first = ['.', '.'] then .up
  else .name first

theorem components_of_pieces {p : Path} {first : Text} {rest : List Text}
    (hpieces : p.pieces = first :: rest) (h : first = [] → rest ≠ []) :
    p.components = leading first :: rest.filterMap Component.ofPiece? := by
  unfold components leading
  rw [hpieces]
  split_ifs <;> simp_all

theorem filterMap_dropIdle (pieces : List Text) :
    (dropIdle pieces).filterMap Component.ofPiece? = pieces.filterMap Component.ofPiece? := by
  induction pieces using List.reverseRecOn with
  | nil => rfl
  | append_singleton pieces last ih =>
    rw [dropIdle_concat]
    split
    next hidle =>
      rw [ih, List.filterMap_append]
      simp [Option.isNone_iff_eq_none.mp hidle]
    next => rfl

/-- The last piece that is kept denotes something. -/
theorem exists_filterMap_dropLast {pieces : List Text} (h : dropIdle pieces ≠ []) :
    ∃ c, pieces.filterMap Component.ofPiece? =
      (dropIdle pieces).dropLast.filterMap Component.ofPiece? ++ [c] := by
  have hlast : ¬(Component.ofPiece? ((dropIdle pieces).getLast h)).isNone :=
    List.rdropWhile_last_not (fun piece => (Component.ofPiece? piece).isNone) pieces h
  rcases Option.ne_none_iff_exists'.mp (mt Option.isNone_iff_eq_none.mpr hlast) with ⟨c, hc⟩
  refine ⟨c, ?_⟩
  rw [← filterMap_dropIdle pieces]
  conv_lhs => rw [← List.dropLast_append_getLast h]
  simp [hc]

theorem components_parent? {p q : Path} (h : p.parent? = some q) :
    ∃ c, p.components = q.components ++ [c] := by
  rcases parent?_cases h with ⟨first, rest, hpieces, ⟨hidle, hfirst, rfl⟩ | ⟨hkept, hq⟩⟩
  · refine ⟨leading first, ?_⟩
    rw [components_of_pieces hpieces (absurd · hfirst), ← filterMap_dropIdle, hidle]
    rfl
  · have hplain : ∀ piece ∈ first :: dropIdle (dropIdle rest).dropLast, '/' ∉ piece := by
      intro piece hpiece
      have hkeeps : dropIdle (dropIdle rest).dropLast <+: rest :=
        ((isPrefix_dropIdle _).trans (List.dropLast_prefix _)).trans (isPrefix_dropIdle rest)
      have hmem : piece ∈ p.pieces := by
        rw [hpieces]
        exact List.cons_subset_cons _ hkeeps.subset hpiece
      exact Text.notMem_of_mem_splitOn hmem
    have hcomponents : q.components =
        leading first :: (dropIdle rest).dropLast.filterMap Component.ofPiece? := by
      rw [hq, ← filterMap_dropIdle]
      split
      next hroot =>
        rw [hroot.1, hroot.2]
        rfl
      next hroot =>
        apply components_of_pieces (Text.splitOn_joinWith (by simp) hplain)
        intro hfirst habove
        exact hroot ⟨hfirst, habove⟩
    have hrest : rest ≠ [] := by
      rintro rfl
      exact hkept rfl
    rcases exists_filterMap_dropLast hkept with ⟨c, hc⟩
    refine ⟨c, ?_⟩
    rw [components_of_pieces hpieces fun _ => hrest, hc, hcomponents, List.cons_append]

theorem up?_succ (n : Nat) (p : Path) : up? (n + 1) p = (up? n p).bind parent? := by
  induction n generalizing p with
  | zero => simp [up?]
  | succ n ih =>
    rw [up?]
    cases hparent : p.parent? with
    | none => simp [up?, hparent]
    | some q =>
      rw [Option.bind_some, ih]
      simp [up?, hparent]

theorem components_up? {n : Nat} {p q : Path} (h : up? n p = some q) :
    ∃ below, p.components = q.components ++ below ∧ below.length = n := by
  induction n generalizing q with
  | zero =>
    obtain rfl := Option.some.inj h
    exact ⟨[], by simp, rfl⟩
  | succ n ih =>
    rw [up?_succ] at h
    rcases Option.bind_eq_some_iff.mp h with ⟨r, hr, hparent⟩
    rcases ih hr with ⟨below, hbelow, hlength⟩
    rcases components_parent? hparent with ⟨c, hc⟩
    refine ⟨c :: below, ?_, by simp [hlength]⟩
    rw [hbelow, hc, List.append_assoc, List.singleton_append]

/-- Enough fuel lists all that lie above. -/
theorem getElem?_ancestorsWithin {fuel : Nat} {p : Path} (h : p.text.length ≤ fuel) (n : Nat) :
    (ancestorsWithin fuel p)[n]? = up? n p := by
  induction fuel generalizing p n with
  | zero =>
    have hnone : p.parent? = none := by
      cases hparent : p.parent? with
      | none => rfl
      | some q => have := length_parent?_lt hparent; omega
    cases n <;> simp [ancestorsWithin, up?, hnone]
  | succ fuel ih =>
    unfold ancestorsWithin
    cases hparent : p.parent? with
    | none => cases n <;> simp [up?, hparent]
    | some q =>
      have := length_parent?_lt hparent
      cases n with
      | zero => rfl
      | succ n => simpa [up?, hparent] using ih (by omega) n

theorem getElem?_ancestors (p : Path) (n : Nat) : p.ancestors[n]? = up? n p :=
  getElem?_ancestorsWithin (Nat.le_refl _) n

theorem find?_ancestors_eq_some_iff {fits : Path → Bool} {p q : Path} :
    p.ancestors.find? fits = some q ↔
      ∃ n, up? n p = some q ∧ fits q ∧ ∀ m < n, ∀ r ∈ up? m p, ¬fits r := by
  rw [List.find?_eq_some_iff_getElem]
  constructor
  · rintro ⟨hq, n, hn, rfl, hbefore⟩
    refine ⟨n, by rw [← getElem?_ancestors, List.getElem?_eq_getElem hn], hq, fun m hm r hr => ?_⟩
    rw [← getElem?_ancestors, List.getElem?_eq_getElem (hm.trans hn), Option.mem_some_iff] at hr
    simpa [hr] using hbefore m hm
  · rintro ⟨n, hn, hq, hbefore⟩
    rw [← getElem?_ancestors] at hn
    obtain ⟨hlt, rfl⟩ := List.getElem?_eq_some_iff.1 hn
    refine ⟨hq, n, hlt, rfl, fun m hm => ?_⟩
    have := hbefore m hm p.ancestors[m] (by
      rw [← getElem?_ancestors, List.getElem?_eq_getElem (hm.trans hlt), Option.mem_some_iff])
    simpa using this

end SkinLint.Path
