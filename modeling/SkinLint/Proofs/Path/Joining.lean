import SkinLint.Proofs.Path.Components
import SkinLint.Proofs.Path.Normal

/-!
# Normal forms of joined paths

The normal form is where one gets to by going along a path: each name is joined to the path reached
so far, and each `..` leads to its parent. That path spells the names that are left, and these are
all that the components to come can see. So a path can be brought into normal form before another is
joined to it, and a normal form is its own.
-/
namespace SkinLint.Path
open FileTree (IsName)

def through (absolute : Bool) (names : Names) : Path :=
  if absolute then names.path else ⟨Text.joinWith ['/'] names⟩

theorem normalize_eq_through (p : Path) : p.normalize = through p.isAbsolute p.names := by
  cases h : p.isAbsolute with
  | true => exact normalize_of_isAbsolute h
  | false => exact normalize_of_relative h

section Through

variable {names : Names} (h : names.Plain) (absolute : Bool)
include h

theorem isAbsolute_through : (through absolute names).isAbsolute = absolute := by
  cases absolute with
  | true => rfl
  | false => simpa [through, isAbsolute] using h.head?_joinWith

theorem names_through : (through absolute names).names = names := by
  cases absolute with
  | true => exact names_path h
  | false => exact names_joinWith h

theorem components_through : (through absolute names).components =
    (if absolute then [Component.root] else []) ++ names.map Component.name := by
  cases absolute with
  | true => exact components_path h
  | false => exact components_joinWith h

theorem pieces_through : (through absolute names).pieces =
    (if absolute then [[]] else []) ++ if names = [] then [[]] else names := by
  cases absolute with
  | true => exact pieces_path h
  | false =>
    change Text.splitOn '/' (Text.joinWith ['/'] names) = if names = [] then [[]] else names
    split
    next hnil => simp [hnil, Text.joinWith, Text.splitOn]
    next hne => exact h.splitOn_joinWith hne

end Through

section Walking

/-- One component further. Nothing lies above the root or above an empty path. -/
def advance (p : Path) : Component → Path
  | .here => p
  | .up => p.parent?.getD p
  | c => p.join ⟨c.text⟩

theorem dropIdle_of_plain {names : Names} (h : names.Plain) : dropIdle names = names := by
  rcases List.eq_nil_or_concat' names with rfl | ⟨front, last, rfl⟩
  · rfl
  · have hlast := ofPiece?_of_isName (h last (by simp)).1
    rw [dropIdle_concat, hlast, if_neg (by simp)]

theorem parent?_of_plain {p : Path} {first last : Text} {above : Names}
    (hpieces : p.pieces = first :: (above ++ [last])) (h : Names.Plain (above ++ [last])) :
    p.parent? = some (if first = [] ∧ above = [] then ⟨['/']⟩
      else ⟨Text.joinWith ['/'] (first :: above)⟩) := by
  have habove : above.Plain := fun name hname => h name (List.mem_append_left _ hname)
  unfold parent?
  rw [hpieces]
  dsimp only
  rw [dropIdle_of_plain h]
  split
  next hnil => simp at hnil
  next =>
    rw [List.dropLast_concat, dropIdle_of_plain habove]
    simp only [Bool.and_eq_true, List.isEmpty_iff]
    split <;> rfl

theorem parent?_through {above : Names} {last : Text} (h : Names.Plain (above ++ [last]))
    (absolute : Bool) :
    (through absolute (above ++ [last])).parent? = some (through absolute above) := by
  have hpieces := pieces_through h absolute
  have hne : above ++ [last] ≠ [] := by simp
  rw [if_neg hne] at hpieces
  cases absolute with
  | true =>
    rw [parent?_of_plain hpieces h]
    cases above <;> rfl
  | false =>
    cases above with
    | nil =>
      have hlast : last ≠ [] := (h last (by simp)).1.nonempty
      unfold parent?
      rw [hpieces]
      change (if last.isEmpty then none else some empty) = _
      rw [if_neg (by simpa using hlast)]
      rfl
    | cons first above =>
      have hfirst : first ≠ [] := (h first (by simp)).1.nonempty
      have hrest : Names.Plain (above ++ [last]) := @Names.Plain.of_append_right [first] _ h
      rw [parent?_of_plain hpieces hrest, if_neg (by simp [hfirst])]
      rfl

variable {names : Names} (h : names.Plain) (absolute : Bool)
include h

theorem advance_name {name : Text} (hname : IsName name ∧ '/' ∉ name) :
    (through absolute names).advance (.name name) = through absolute (names ++ [name]) := by
  have hplain : Names.Plain [name] := by simpa [Names.Plain] using hname
  have hjoined : Text.joinWith ['/'] [name] = name := rfl
  have hrelative : isAbsolute ⟨name⟩ = false := by
    simpa [isAbsolute, hjoined] using hplain.head?_joinWith
  cases absolute with
  | true => exact join_path h hplain (by simp)
  | false =>
    by_cases hnil : names = []
    · subst hnil
      change join ⟨[]⟩ ⟨name⟩ = ⟨name⟩
      simp [join, hrelative, isEmpty]
    · have hjoin := join_relativePath h hplain (by simp)
      rwa [if_neg hnil, Names.relativePath, if_neg hnil, Names.relativePath,
        if_neg (by simp)] at hjoin

theorem advance_up : (through absolute names).advance .up = through absolute names.dropLast := by
  rcases List.eq_nil_or_concat' names with rfl | ⟨above, last, rfl⟩
  · cases absolute <;> rfl
  · rw [advance, parent?_through h, List.dropLast_concat]
    rfl

/-- The path reached spells the names that are left, whatever the components. -/
theorem foldl_advance {cs : List Component} (hroot : .root ∉ cs)
    (hcs : ∀ name, .name name ∈ cs → IsName name ∧ '/' ∉ name) :
    cs.foldl advance (through absolute names) =
      through absolute (cs.foldl pushComponent names.reverse).reverse := by
  induction cs generalizing names with
  | nil => rw [List.foldl_nil, List.foldl_nil, List.reverse_reverse]
  | cons c cs ih =>
    rw [List.mem_cons, not_or] at hroot
    have hrest : ∀ name, .name name ∈ cs → IsName name ∧ '/' ∉ name :=
      fun name hname => hcs name (List.mem_cons_of_mem _ hname)
    rw [List.foldl_cons, List.foldl_cons]
    cases c with
    | root => exact absurd rfl hroot.1
    | here => exact ih h hroot.2 hrest
    | up =>
      have habove : Names.Plain names.dropLast :=
        fun name hname => h name (List.dropLast_subset _ hname)
      rw [advance_up h, ih habove hroot.2 hrest, pushComponent, List.tail_reverse]
    | name name =>
      have hname := hcs name List.mem_cons_self
      have hplain : Names.Plain (names ++ [name]) := h.append (by simpa [Names.Plain] using hname)
      rw [advance_name h absolute hname, ih hplain hroot.2 hrest, pushComponent,
        List.reverse_concat]

end Walking

theorem plain_of_mem_trail {t name : Text} (h : .name name ∈ trail t) :
    IsName name ∧ '/' ∉ name := by
  rcases text_mem_splitOn h with ⟨hpiece, hdenotes⟩
  exact ⟨(isName_of_ofPiece? hdenotes).1, Text.notMem_of_mem_splitOn hpiece⟩

theorem plain_of_mem_components {p : Path} {name : Text} (h : .name name ∈ p.components) :
    IsName name ∧ '/' ∉ name := by
  have hne : p ≠ .empty := by
    rintro rfl
    cases h
  cases habsolute : p.isAbsolute with
  | true =>
    rw [components_of_isAbsolute habsolute, List.mem_cons] at h
    exact plain_of_mem_trail (h.resolve_left (by simp))
  | false =>
    rcases exists_leading habsolute hne with ⟨first, behind, hcomponents, hfirst, hslash⟩
    rw [hcomponents, List.mem_cons] at h
    rcases h with hname | htrail
    · rw [leading, if_neg hfirst] at hname
      split_ifs at hname with hhere hup
      obtain rfl := Component.name.inj hname
      exact ⟨⟨hfirst, hhere, hup⟩, hslash⟩
    · exact plain_of_mem_trail htrail

/-- The normal form of a path is reached by going along its components from an empty path. -/
theorem normalize_eq_foldl_advance (p : Path) :
    p.normalize = p.components.foldl advance .empty := by
  have hplain : Names.Plain [] := by simp [Names.Plain]
  rw [normalize_eq_through]
  cases h : p.isAbsolute with
  | true =>
    -- The root is the first step, and there is none behind it.
    rw [names, components_of_isAbsolute h]
    exact (foldl_advance hplain true (root_notMem_trail p.text) fun name => plain_of_mem_trail).symm
  | false =>
    have hroot : .root ∉ p.components := by simp [root_mem_components_iff, h]
    exact (foldl_advance hplain false hroot fun name => plain_of_mem_components).symm

/-- Of the components read so far, only the names that are left of them matter to the next ones. -/
theorem normalNames_append (cs ds : List Component) :
    normalNames (cs ++ ds) = (ds.foldl pushComponent (normalNames cs).reverse).reverse := by
  rw [normalNames, normalNames, List.foldl_append, List.reverse_reverse]

theorem names_join_of_relative (p : Path) {q : Path} (h : q.isAbsolute = false) :
    (p.join q).names = ((q.pieces.filterMap Component.ofPiece?).foldl pushComponent
      p.names.reverse).reverse := by
  rw [names, names, normalNames_components, filterMap_pieces_join h, normalNames_append,
    ← normalNames_components]

section Normal

variable (p : Path)

theorem isAbsolute_normalize : p.normalize.isAbsolute = p.isAbsolute := by
  rw [normalize_eq_through, isAbsolute_through p.plain_names]

theorem names_normalize : p.normalize.names = p.names := by
  rw [normalize_eq_through, names_through p.plain_names]

theorem normalize_normalize : p.normalize.normalize = p.normalize := by
  rw [normalize_eq_through p.normalize, isAbsolute_normalize, names_normalize,
    ← normalize_eq_through]

/-- An absolute path stays what it is behind any other; before a relative one, a path and its normal
form leave the same names. -/
theorem normalize_join (q : Path) : (p.join q).normalize = (p.normalize.join q).normalize := by
  cases h : q.isAbsolute with
  | true => rw [join, join, if_pos h, if_pos h]
  | false =>
    rw [normalize_eq_through, normalize_eq_through (p.normalize.join q),
      isAbsolute_join_of_relative h, isAbsolute_join_of_relative h, isAbsolute_normalize,
      names_join_of_relative p h, names_join_of_relative p.normalize h, names_normalize]

theorem notMem_components_normalize {c : Component} (hroot : c ≠ .root)
    (hname : ∀ name, c ≠ .name name) : c ∉ p.normalize.components := by
  rw [normalize_eq_through, components_through p.plain_names]
  split <;> simp [hroot, eq_comm, hname]

/-- No dots stand between the slashes of a normal form. -/
theorem notMem_pieces_normalize {piece : Text} (hne : piece ≠ []) (hname : ¬IsName piece) :
    piece ∉ p.normalize.pieces := by
  rw [normalize_eq_through, pieces_through p.plain_names]
  have hplain : piece ∉ p.names := fun hmem => hname (p.plain_names.isName piece hmem)
  split <;> split <;> simp [hne, hplain]

end Normal

/-- Going along a path leads to its normal form. That has neither `.` nor `..` in it and is absolute
if the path is; it is its own normal form, and it can stand for the path in front of any other. -/
theorem normalize_is_normal_form (p q : Path) :
    p.normalize = p.components.foldl advance .empty ∧
    (.here ∉ p.normalize.components ∧ .up ∉ p.normalize.components) ∧
    (['.'] ∉ p.normalize.pieces ∧ ['.', '.'] ∉ p.normalize.pieces) ∧
    p.normalize.isAbsolute = p.isAbsolute ∧
    p.normalize.normalize = p.normalize ∧
    (p.join q).normalize = (p.normalize.join q).normalize := by
  refine ⟨normalize_eq_foldl_advance p, ⟨?_, ?_⟩, ⟨?_, ?_⟩, isAbsolute_normalize p,
    normalize_normalize p, normalize_join p q⟩
  · apply notMem_components_normalize <;> simp
  · apply notMem_components_normalize <;> simp
  · apply notMem_pieces_normalize p (by simp)
    exact fun h => h.notHere rfl
  · apply notMem_pieces_normalize p (by simp)
    exact fun h => h.notUp rfl

end SkinLint.Path
