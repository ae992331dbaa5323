import SkinLint.Proofs.FileTree.Rewriting

/-!
# The components of a path

The first piece of a path says where it starts; the text behind it adds the components that its own
pieces denote, whatever the path in front. So a slash at the end adds nothing to a path, unless it
is all there is, and components with slashes between them are read back as they are.
-/
namespace SkinLint.Path

/-- The components that a text adds to the path in front of it. -/
def trail (t : Text) : List Component := (Text.splitOn '/' t).filterMap Component.ofPiece?

@[simp] theorem trail_nil : trail [] = [] := rfl

theorem trail_slash (a b : Text) : trail (a ++ '/' :: b) = trail a ++ trail b := by
  rw [trail, Text.splitOn_append, List.filterMap_append]
  rfl

theorem trail_cons_slash (t : Text) : trail ('/' :: t) = trail t := trail_slash [] t

/-- What stands behind a slash is read for itself. -/
theorem trail_append_of_closed {a : Text} (h : a.getLast? = some '/') (b : Text) :
    trail (a ++ b) = trail a ++ trail b := by
  rcases List.getLast?_eq_some_iff.mp h with ⟨front, rfl⟩
  rw [List.append_assoc, List.singleton_append, trail_slash, trail_slash, trail_nil,
    List.append_nil]

theorem text_mem_splitOn {c : Component} {t : Text} (h : c ∈ trail t) :
    c.text ∈ Text.splitOn '/' t ∧ Component.ofPiece? c.text = some c := by
  rcases List.mem_filterMap.mp h with ⟨piece, hpiece, hc⟩
  have htext : c.text = piece := by
    unfold Component.ofPiece? at hc
    split_ifs at hc with hidle hup
    · rw [← Option.some.inj hc, hup]
      rfl
    · rw [← Option.some.inj hc]
      rfl
  rw [htext]
  exact ⟨hpiece, hc⟩

theorem root_notMem_trail (t : Text) : .root ∉ trail t := by
  intro h
  cases (text_mem_splitOn h).2

theorem trail_slashed {cs : List Component} {t : Text} (h : cs ⊆ trail t) :
    trail (slashed cs) = cs := by
  by_cases hnil : cs = []
  · subst hnil
    rfl
  have hpieces : Text.splitOn '/' (slashed cs) = cs.map Component.text := by
    apply Text.splitOn_joinWith (by simpa using hnil)
    intro piece hpiece
    rcases List.mem_map.mp hpiece with ⟨c, hc, rfl⟩
    exact Text.notMem_of_mem_splitOn (text_mem_splitOn (h hc)).1
  rw [trail, hpieces, List.filterMap_map]
  calc cs.filterMap (Component.ofPiece? ∘ Component.text)
      = cs.filterMap some := List.filterMap_congr fun c hc => (text_mem_splitOn (h hc)).2
    _ = cs := List.filterMap_some

theorem isAbsolute_slashed {cs : List Component} {t : Text} (h : cs ⊆ trail t) :
    isAbsolute ⟨slashed cs⟩ = false := by
  cases cs with
  | nil => rfl
  | cons c cs =>
    rcases text_mem_splitOn (h List.mem_cons_self) with ⟨hpiece, hdenotes⟩
    have hne : c.text ≠ [] := by
      intro hnil
      rw [hnil] at hdenotes
      cases hdenotes
    rcases Text.joinWith_cons ['/'] c.text (cs.map Component.text) with ⟨behind, hbehind⟩
    have htext : slashed (c :: cs) = c.text ++ behind := hbehind
    rw [isAbsolute, htext, List.head?_append_of_ne_nil _ hne, beq_eq_false_iff_ne]
    intro hhead
    exact Text.notMem_of_mem_splitOn hpiece (List.mem_of_mem_head? hhead)

section Start

variable {p : Path}

theorem text_leading {first : Text} (h : first ≠ []) : (leading first).text = first := by
  rw [leading, if_neg h]
  split_ifs with hhere hup
  · exact hhere.symm
  · exact hup.symm
  · rfl

theorem leading_ne_root {first : Text} (h : first ≠ []) : leading first ≠ .root := by
  rw [leading, if_neg h]
  split_ifs <;> simp

theorem components_of_isAbsolute (h : p.isAbsolute) : p.components = .root :: trail p.text := by
  obtain ⟨t, ht⟩ : ∃ t, p.text = '/' :: t := by
    rw [isAbsolute, beq_iff_eq] at h
    exact List.head?_eq_some_iff.mp h
  have hpieces : p.pieces = [] :: Text.splitOn '/' t := by
    rw [pieces, ht]
    exact Text.splitOn_append '/' [] t
  rw [components_of_pieces hpieces fun _ => Text.splitOn_ne_nil '/' t, ht, trail_cons_slash]
  rfl

/-- A text that says something goes on behind a slash without a change to it. -/
theorem components_slash {t : Text} (h : t ≠ []) (behind : Text) :
    components ⟨t ++ '/' :: behind⟩ = components ⟨t⟩ ++ trail behind := by
  obtain ⟨first, rest, hpieces⟩ : ∃ first rest, Text.splitOn '/' t = first :: rest :=
    List.exists_cons_of_ne_nil (Text.splitOn_ne_nil '/' t)
  have hrest : first = [] → rest ≠ [] := by
    rintro rfl rfl
    apply h
    rw [← Text.joinWith_splitOn '/' t, hpieces]
    rfl
  have hlonger : pieces ⟨t ++ '/' :: behind⟩ = first :: (rest ++ Text.splitOn '/' behind) := by
    rw [pieces, Text.splitOn_append, hpieces]
    rfl
  have hwhole := components_of_pieces hlonger fun hfirst => by simp [hrest hfirst]
  have hpart : components ⟨t⟩ = leading first :: rest.filterMap Component.ofPiece? :=
    components_of_pieces hpieces hrest
  rw [hwhole, hpart, List.filterMap_append]
  rfl

theorem components_append_of_closed (h : p.text.getLast? = some '/') (behind : Text) :
    components ⟨p.text ++ behind⟩ = p.components ++ trail behind := by
  rcases List.getLast?_eq_some_iff.mp h with ⟨front, hfront⟩
  have htext : components ⟨front ++ '/' :: []⟩ = p.components :=
    congrArg components (by rw [← hfront])
  rw [hfront, List.append_assoc, List.singleton_append]
  by_cases hnil : front = []
  · subst hnil
    have habsolute : isAbsolute ⟨'/' :: behind⟩ := rfl
    rw [← htext, List.nil_append, components_of_isAbsolute habsolute, trail_cons_slash]
    rfl
  · rw [← htext, components_slash hnil, components_slash hnil, trail_nil, List.append_nil]

/-- A relative path adds what it says to the path that it is seen from. -/
theorem components_join (hp : p.text ≠ []) {q : Path} (hq : q.isAbsolute = false) :
    (p.join q).components = p.components ++ trail q.text := by
  rw [join, hq, if_neg (by simp)]
  by_cases hclosed : p.text.getLast? = some '/'
  · rw [if_pos (by simp [hclosed]), components_append_of_closed hclosed]
  · rw [if_neg (by simp [isEmpty, hp, hclosed]), components_slash hp]

/-- A relative path that is not empty starts with a piece of its own. -/
theorem exists_pieces (habsolute : p.isAbsolute = false) (hne : p ≠ .empty) :
    ∃ first rest, p.pieces = first :: rest ∧ first ≠ [] := by
  obtain ⟨first, rest, hpieces⟩ : ∃ first rest, p.pieces = first :: rest :=
    List.exists_cons_of_ne_nil (Text.splitOn_ne_nil '/' p.text)
  refine ⟨first, rest, hpieces, ?_⟩
  rintro rfl
  have htext : p.text = Text.joinWith ['/'] ([] :: rest) := by
    rw [← hpieces]
    exact (Text.joinWith_splitOn '/' p.text).symm
  by_cases hrest : rest = []
  · subst hrest
    exact hne (congrArg Path.mk htext)
  · have hjoined := FileTree.isAbsolute_joinWith hrest
    rw [← htext, habsolute] at hjoined
    cases hjoined

theorem exists_leading (habsolute : p.isAbsolute = false) (hne : p ≠ .empty) : ∃ first behind,
    p.components = leading first :: trail behind ∧ first ≠ [] ∧ '/' ∉ first := by
  rcases exists_pieces habsolute hne with ⟨first, rest, hpieces, hfirst⟩
  have hplain : ∀ piece ∈ first :: rest, '/' ∉ piece := by
    intro piece hpiece
    exact Text.notMem_of_mem_splitOn (hpieces ▸ hpiece : piece ∈ p.pieces)
  refine ⟨first, Text.joinWith ['/'] rest, ?_, hfirst, hplain first List.mem_cons_self⟩
  rw [components_of_pieces hpieces (absurd · hfirst)]
  by_cases hrest : rest = []
  · subst hrest
    rfl
  · rw [trail, Text.splitOn_joinWith hrest fun piece hpiece =>
      hplain piece (List.mem_cons_of_mem _ hpiece)]

/-- Behind the first component of a path stands what some text adds to it. -/
theorem exists_cons_trail (h : p ≠ .empty) :
    ∃ first behind, p.components = first :: trail behind := by
  cases habsolute : p.isAbsolute with
  | true => exact ⟨.root, p.text, components_of_isAbsolute habsolute⟩
  | false =>
    rcases exists_leading habsolute h with ⟨first, behind, hcomponents, -, -⟩
    exact ⟨leading first, behind, hcomponents⟩

theorem components_eq_nil_iff : p.components = [] ↔ p = .empty := by
  constructor
  · intro hnil
    by_contra hne
    rcases exists_cons_trail hne with ⟨first, behind, hcomponents⟩
    rw [hcomponents] at hnil
    cases hnil
  · rintro rfl
    rfl

theorem root_mem_components_iff : .root ∈ p.components ↔ p.isAbsolute := by
  constructor
  · intro hroot
    by_contra habsolute
    rw [Bool.not_eq_true] at habsolute
    by_cases hne : p = .empty
    · subst hne
      cases hroot
    rcases exists_leading habsolute hne with ⟨first, behind, hcomponents, hfirst, -⟩
    rw [hcomponents, List.mem_cons] at hroot
    rcases hroot with hroot | hroot
    · exact leading_ne_root hfirst hroot.symm
    · exact root_notMem_trail behind hroot
  · intro habsolute
    rw [components_of_isAbsolute habsolute]
    exact List.mem_cons_self

/-- A path is written with the characters of its components. -/
theorem text_subset {c : Component} (h : c ∈ p.components) : c.text ⊆ p.text := by
  have htrail : c ∈ trail p.text → c.text ⊆ p.text := fun hc _ =>
    Text.mem_of_mem_splitOn (text_mem_splitOn hc).1
  cases habsolute : p.isAbsolute with
  | true =>
    rw [components_of_isAbsolute habsolute, List.mem_cons] at h
    rcases h with rfl | h
    · have hhead : p.text.head? = some '/' := by simpa [isAbsolute] using habsolute
      simpa [Component.text] using List.mem_of_mem_head? hhead
    · exact htrail h
  | false =>
    have hne : p ≠ .empty := by
      rintro rfl
      cases h
    rcases exists_pieces habsolute hne with ⟨first, rest, hpieces, hfirst⟩
    rw [components_of_pieces hpieces (absurd · hfirst), List.mem_cons] at h
    rcases h with rfl | h
    · rw [text_leading hfirst]
      intro x hx
      have hmem : first ∈ p.pieces := hpieces ▸ List.mem_cons_self
      exact Text.mem_of_mem_splitOn hmem hx
    · apply htrail
      rcases List.mem_filterMap.mp h with ⟨piece, hpiece, hc⟩
      have hmem : piece ∈ p.pieces := hpieces ▸ List.mem_cons_of_mem _ hpiece
      exact List.mem_filterMap.mpr ⟨piece, hmem, hc⟩

theorem components_slashed (h : p.isAbsolute = false) :
    components ⟨slashed p.components⟩ = p.components := by
  by_cases hne : p = .empty
  · subst hne
    rfl
  rcases exists_leading h hne with ⟨first, behind, hcomponents, hfirst, hslash⟩
  have htext := text_leading hfirst
  have hstart : components ⟨first⟩ = [leading first] := by
    have hpieces : pieces ⟨first⟩ = [first] := by
      have hjoined : Text.joinWith ['/'] [first] = first := rfl
      rw [pieces, ← hjoined]
      exact Text.splitOn_joinWith (by simp) (by simpa using hslash)
    exact components_of_pieces hpieces (absurd · hfirst)
  rw [hcomponents]
  by_cases hbehind : trail behind = []
  · rw [hbehind, slashed, List.map_cons, htext, List.map_nil]
    exact hstart
  · have hspelled : slashed (leading first :: trail behind) =
        first ++ '/' :: slashed (trail behind) := by
      rw [slashed, List.map_cons, htext]
      exact joinWith_append (a := [first]) (by simp) (by simpa using hbehind)
    rw [hspelled, components_slash hfirst, hstart, trail_slashed (List.Subset.refl _)]
    rfl

end Start

section Above

variable {p q : Path}

/-- Going up leads neither out of the root nor into it. -/
theorem isAbsolute_parent? (h : p.parent? = some q) : q.isAbsolute = p.isAbsolute := by
  rw [Bool.eq_iff_iff]
  constructor
  · intro hq
    rcases components_parent? h with ⟨c, hc⟩
    rw [← root_mem_components_iff] at hq ⊢
    rw [hc]
    exact List.mem_append_left _ hq
  · intro hp
    rcases FileTree.pieces_of_isAbsolute hp with ⟨rest, hrest⟩
    rcases parent?_cases h with ⟨first, rest', hpieces, hparent⟩
    obtain ⟨rfl, rfl⟩ : first = [] ∧ rest' = rest := by simpa [hrest, eq_comm] using hpieces
    rcases hparent with ⟨-, hfirst, -⟩ | ⟨-, hq⟩
    · exact absurd rfl hfirst
    rw [hq]
    split
    next => rfl
    next habove => exact FileTree.isAbsolute_joinWith fun hnil => habove ⟨rfl, hnil⟩

theorem isAbsolute_up? {n : Nat} (h : up? n p = some q) : q.isAbsolute = p.isAbsolute := by
  induction n generalizing q with
  | zero => rw [Option.some.inj h]
  | succ n ih =>
    rw [up?_succ] at h
    rcases Option.bind_eq_some_iff.mp h with ⟨r, hr, hparent⟩
    rw [isAbsolute_parent? hparent, ih hr]

/-- A path starts with what is written for those above it. -/
theorem isPrefix_parent? (h : p.parent? = some q) : q.text <+: p.text := by
  rcases parent?_cases h with ⟨first, rest, hpieces, ⟨-, -, rfl⟩ | ⟨hkept, hq⟩⟩
  · exact List.nil_prefix
  rcases exists_dropped hkept with ⟨dropped, hrest, piece, hpiece, -⟩
  have htext : p.text = Text.joinWith ['/'] (first :: dropIdle (dropIdle rest).dropLast) ++
      '/' :: Text.joinWith ['/'] dropped := by
    rw [← joinWith_append (by simp) (List.ne_nil_of_mem hpiece), List.cons_append, ← hrest,
      ← hpieces]
    exact (Text.joinWith_splitOn '/' p.text).symm
  rw [hq, htext]
  split
  next hroot =>
    rw [hroot.1, hroot.2]
    exact ⟨_, rfl⟩
  next => exact List.prefix_append _ _

theorem isPrefix_up? {n : Nat} (h : up? n p = some q) : q.text <+: p.text := by
  induction n generalizing q with
  | zero =>
    cases h
    exact List.prefix_rfl
  | succ n ih =>
    rw [up?_succ] at h
    rcases Option.bind_eq_some_iff.mp h with ⟨r, hr, hparent⟩
    exact (isPrefix_parent? hparent).trans (ih hr)

theorem components_of_parent?_eq_none (h : p.parent? = none) (hp : p.isAbsolute) :
    p.components = [.root] := by
  rcases FileTree.pieces_of_isAbsolute hp with ⟨rest, hrest⟩
  unfold parent? at h
  rw [hrest] at h
  dsimp only at h
  split at h
  next hidle =>
    have htrail : trail p.text = [] := by
      change p.pieces.filterMap Component.ofPiece? = []
      rw [hrest, List.filterMap_cons, ← filterMap_dropIdle, hidle]
      rfl
    rw [components_of_isAbsolute hp, htrail]
  next => split at h <;> cases h

theorem eq_empty_of_parent?_eq_none (h : p.parent? = none) (hp : p.isAbsolute = false) :
    p = .empty := by
  by_contra hne
  rcases exists_pieces hp hne with ⟨first, rest, hpieces, hfirst⟩
  unfold parent? at h
  rw [hpieces] at h
  dsimp only at h
  split at h
  next => simp [hfirst] at h
  next => split at h <;> cases h

end Above

end SkinLint.Path
