import SkinLint.Proofs.FileTree.WellFormed

/-!
# Paths in normal form

A path in normal form is spelled by names alone, behind a root if it is absolute. It is a single dot
where no name is left. What is found below a folder is spelled by the names of the folder and those
below it; only below the folder that is a dot is a dot put in front.
-/
namespace SkinLint

open FileTree (IsName)

def Names.Plain (names : Names) : Prop := ∀ name ∈ names, IsName name ∧ '/' ∉ name

def Names.relativePath (names : Names) : Path :=
  if names = [] then ⟨['.']⟩ else ⟨Text.joinWith ['/'] names⟩

def Names.dottedPath (names : Names) : Path := ⟨'.' :: '/' :: Text.joinWith ['/'] names⟩

theorem ofPiece?_of_isName {name : Text} (h : IsName name) :
    Component.ofPiece? name = some (.name name) := by
  simp [Component.ofPiece?, h.nonempty, h.notHere, h.notUp]

theorem isName_of_ofPiece? {piece name : Text} (h : Component.ofPiece? piece = some (.name name)) :
    IsName name ∧ piece = name := by
  unfold Component.ofPiece? at h
  split_ifs at h with hidle hup
  · cases h
  · obtain rfl := Component.name.inj (Option.some.inj h)
    exact ⟨⟨fun hnil => hidle (.inl hnil), fun hdot => hidle (.inr hdot), hup⟩, rfl⟩

theorem name_injective : Function.Injective Component.name := fun _ _ => Component.name.inj

theorem map_name_inj {names names' : Names} :
    names.map Component.name = names'.map .name ↔ names = names' :=
  (List.map_injective_iff.2 name_injective).eq_iff

/-- Names have no root and no dot in front. -/
theorem map_name_ne_cons (names : Names) {c : Component} (hc : ∀ name, c ≠ .name name)
    (rest : List Component) : names.map Component.name ≠ c :: rest := by
  intro heq
  have hmem : c ∈ names.map Component.name := heq ▸ List.mem_cons_self
  obtain ⟨name, -, rfl⟩ := List.mem_map.1 hmem
  exact hc name rfl

theorem map_name_isPrefix_iff {names names' : Names} :
    names.map Component.name <+: names'.map .name ↔ names <+: names' :=
  List.prefix_map_iff_of_injective name_injective

namespace Names.Plain

variable {names below : Names}

theorem append (h : names.Plain) (h' : below.Plain) : Plain (names ++ below) := by
  intro name hname
  obtain hname | hname := List.mem_append.1 hname
  · exact h name hname
  · exact h' name hname

theorem of_append_right (h : Plain (names ++ below)) : below.Plain :=
  fun name hname => h name (List.mem_append_right _ hname)

variable (h : names.Plain)
include h

theorem splitOn_joinWith (hne : names ≠ []) :
    Text.splitOn '/' (Text.joinWith ['/'] names) = names :=
  Text.splitOn_joinWith hne fun name hname => (h name hname).2

theorem filterMap_ofPiece? : names.filterMap Component.ofPiece? = names.map .name := by
  rw [← List.filterMap_eq_map']
  exact List.filterMap_congr fun name hname => ofPiece?_of_isName (h name hname).1

theorem isName : ∀ name ∈ names, IsName name := fun name hname => (h name hname).1

theorem joinWith_ne_nil (hne : names ≠ []) : Text.joinWith ['/'] names ≠ [] := by
  obtain ⟨name, rest, rfl⟩ := List.exists_cons_of_ne_nil hne
  obtain ⟨tail, htail⟩ := Text.joinWith_cons ['/'] name rest
  rw [htail]
  simp [(h name List.mem_cons_self).1.nonempty]

theorem head?_joinWith : (Text.joinWith ['/'] names).head? ≠ some '/' := by
  cases names with
  | nil => simp [Text.joinWith]
  | cons name rest =>
    obtain ⟨hname, hslash⟩ := h name List.mem_cons_self
    obtain ⟨c, text, rfl⟩ := List.exists_cons_of_ne_nil hname.nonempty
    obtain ⟨tail, htail⟩ := Text.joinWith_cons ['/'] (c :: text) rest
    rw [htail]
    simp only [List.cons_append, List.head?_cons, ne_eq, Option.some.injEq]
    rintro rfl
    exact hslash List.mem_cons_self

theorem getLast?_joinWith : (Text.joinWith ['/'] names).getLast? ≠ some '/' := by
  cases names with
  | nil => simp [Text.joinWith]
  | cons name rest =>
    have hpieces : Path.pieces ⟨Text.joinWith ['/'] (name :: rest)⟩ = name :: rest :=
      h.splitOn_joinWith (by simp)
    refine FileTree.getLast?_ne_slash (p := ⟨Text.joinWith ['/'] (name :: rest)⟩) ?_
    rw [hpieces]
    intro hlast
    exact (h _ (List.mem_of_getLast? hlast)).1.nonempty rfl

end Names.Plain

section Spelling

variable {names below : Names} (h : names.Plain)
include h

theorem pieces_slashed (first : Text) (hfirst : '/' ∉ first) :
    Path.pieces ⟨first ++ '/' :: Text.joinWith ['/'] names⟩ =
      first :: if names = [] then [[]] else names := by
  rw [Path.pieces, Text.splitOn_append, Text.splitOn_of_notMem hfirst, List.singleton_append]
  split
  next hnil => simp [hnil, Text.joinWith, Text.splitOn]
  next hne => rw [h.splitOn_joinWith hne]

theorem pieces_path : names.path.pieces = [] :: if names = [] then [[]] else names :=
  pieces_slashed h [] List.not_mem_nil

theorem pieces_dottedPath : names.dottedPath.pieces = ['.'] :: if names = [] then [[]] else names :=
  pieces_slashed h ['.'] (by decide)

theorem components_path : names.path.components = .root :: names.map .name := by
  unfold Path.components
  rw [pieces_path h]
  by_cases hne : names = []
  · simp [hne, Component.ofPiece?]
  · simp [hne, h.filterMap_ofPiece?]

theorem components_dottedPath : names.dottedPath.components = .here :: names.map .name := by
  unfold Path.components
  rw [pieces_dottedPath h]
  by_cases hne : names = []
  · simp [hne, Component.ofPiece?]
  · simp [hne, h.filterMap_ofPiece?]

theorem components_relativePath :
    names.relativePath.components = if names = [] then [.here] else names.map .name := by
  unfold Names.relativePath
  split
  next => rfl
  next hne =>
    obtain ⟨name, rest, rfl⟩ := List.exists_cons_of_ne_nil hne
    have hpieces : Path.pieces ⟨Text.joinWith ['/'] (name :: rest)⟩ = name :: rest :=
      h.splitOn_joinWith hne
    have hname := (h name List.mem_cons_self).1
    have hrest : Names.Plain rest := fun n hn => h n (List.mem_cons_of_mem _ hn)
    unfold Path.components
    rw [hpieces]
    simp [hname.nonempty, hname.notHere, hname.notUp, hrest.filterMap_ofPiece?]

theorem components_joinWith : Path.components ⟨Text.joinWith ['/'] names⟩ = names.map .name := by
  by_cases hnil : names = []
  · subst hnil
    rfl
  · have hcomponents := components_relativePath h
    rwa [Names.relativePath, if_neg hnil, if_neg hnil] at hcomponents

theorem spells_slashed (first : Text) (hidle : first = [] ∨ first = ['.']) :
    Path.Spells ⟨first ++ '/' :: Text.joinWith ['/'] names⟩ names where
  nonempty := by simp
  pieces := by
    have hfirst : '/' ∉ first := by rcases hidle with rfl | rfl <;> decide
    rw [pieces_slashed h first hfirst]
    by_cases hne : names = []
    · exact ⟨[first, []], by simpa using hidle, by simp [hne]⟩
    · exact ⟨[first], by simpa using hidle, by simp [hne]⟩
  plain := h.isName

theorem spells_path : names.path.Spells names := spells_slashed h [] (.inl rfl)

theorem spells_dottedPath : names.dottedPath.Spells names := spells_slashed h ['.'] (.inr rfl)

theorem spells_relativePath : names.relativePath.Spells names := by
  unfold Names.relativePath
  split
  next hnil =>
    subst hnil
    exact ⟨by simp, ⟨[['.']], by simp, rfl⟩, by simp⟩
  next hne => exact ⟨h.joinWith_ne_nil hne, ⟨[], by simp, h.splitOn_joinWith hne⟩, h.isName⟩

theorem isAbsolute_relativePath : names.relativePath.isAbsolute = false := by
  unfold Names.relativePath Path.isAbsolute
  split
  next => rfl
  next => simpa using h.head?_joinWith

theorem join_path (hbelow : below.Plain) (hne : below ≠ []) :
    names.path.join ⟨Text.joinWith ['/'] below⟩ = Names.path (names ++ below) := by
  have hrelative : Path.isAbsolute ⟨Text.joinWith ['/'] below⟩ = false := by
    simpa [Path.isAbsolute] using hbelow.head?_joinWith
  unfold Path.join
  rw [hrelative, if_neg (by simp)]
  by_cases hnil : names = []
  · simp [hnil, Names.path, Path.isEmpty, Text.joinWith]
  · have hlast : names.path.text.getLast? ≠ some '/' := by
      simpa [Names.path, List.getLast?_cons_of_ne_nil (h.joinWith_ne_nil hnil)] using
        h.getLast?_joinWith
    have hempty : names.path.isEmpty = false := rfl
    rw [hempty, decide_eq_false hlast]
    simp [Names.path, Path.joinWith_append hnil hne]

theorem join_relativePath (hbelow : below.Plain) (hne : below ≠ []) :
    names.relativePath.join ⟨Text.joinWith ['/'] below⟩ =
      if names = [] then below.dottedPath else Names.relativePath (names ++ below) := by
  have hrelative : Path.isAbsolute ⟨Text.joinWith ['/'] below⟩ = false := by
    simpa [Path.isAbsolute] using hbelow.head?_joinWith
  unfold Path.join
  rw [hrelative, if_neg (by simp)]
  by_cases hnil : names = []
  · simp [hnil, Names.relativePath, Names.dottedPath, Path.isEmpty]
  · have hlast := h.getLast?_joinWith
    simp [Names.relativePath, hnil, Path.isEmpty, h.joinWith_ne_nil hnil, hlast,
      Path.joinWith_append hnil hne]

end Spelling

namespace FileTree.WellFormed

variable {t : FileTree} (h : t.WellFormed) {names : Names} {e : FileEntry}
  (he : t.entry? names = some e)
include h he

/-- What is there under some names has names that can stand between slashes. -/
theorem plain : names.Plain := fun _ hname =>
  have hentry := h.isEntryName he hname
  ⟨hentry.toIsName, hentry.slash⟩

theorem locate_path : t.locate names.path = .ok names :=
  h.locate_of_spells (spells_path (h.plain he)) he

end FileTree.WellFormed

namespace Path

def names (p : Path) : Names := normalNames p.components

/-- Only the pieces that denote something play a part in the normal form. -/
theorem normalNames_components (p : Path) :
    normalNames p.components = normalNames (p.pieces.filterMap Component.ofPiece?) := by
  unfold components normalNames
  split
  next hnil => rw [hnil]; rfl
  next first rest hpieces =>
    rw [hpieces, List.filterMap_cons]
    unfold Component.ofPiece?
    split_ifs <;> simp_all [pushComponent]

section Join

variable {root p : Path}

theorem isAbsolute_join_of_relative (h : p.isAbsolute = false) :
    (root.join p).isAbsolute = root.isAbsolute := by
  unfold join
  rw [h, if_neg (by simp)]
  by_cases hnil : root.text = []
  · simpa [isEmpty, isAbsolute, hnil] using h
  · split <;> simp [isAbsolute, List.head?_append_of_ne_nil _ hnil]

theorem isAbsolute_absoluteFrom (h : root.isAbsolute) (p : Path) :
    (root.absoluteFrom p).isAbsolute := by
  unfold absoluteFrom
  split
  next habsolute => exact habsolute
  next hrelative => rwa [isAbsolute_join_of_relative (by simpa using hrelative)]

/-- Joining two paths puts what they denote one behind the other. -/
theorem filterMap_pieces_join (h : p.isAbsolute = false) :
    (root.join p).pieces.filterMap Component.ofPiece? =
      root.pieces.filterMap Component.ofPiece? ++ p.pieces.filterMap Component.ofPiece? := by
  unfold join pieces
  rw [h, if_neg (by simp)]
  split
  next hend =>
    simp only [isEmpty, Bool.or_eq_true, List.isEmpty_iff, decide_eq_true_eq] at hend
    obtain hnil | hslash := hend
    · simp [hnil, Text.splitOn, Component.ofPiece?]
    · obtain ⟨text, htext⟩ := List.getLast?_eq_some_iff.1 hslash
      rw [htext, List.append_assoc, List.singleton_append, Text.splitOn_append,
        Text.splitOn_append]
      simp [Text.splitOn, Component.ofPiece?]
  next => rw [Text.splitOn_append, List.filterMap_append]

theorem foldl_pushComponent_of_up_notMem {cs : List Component} (h : .up ∉ cs) (stack : Names) :
    cs.foldl pushComponent stack = cs.foldl pushComponent [] ++ stack := by
  induction cs generalizing stack with
  | nil => rfl
  | cons c cs ih =>
    have ih := ih fun hup => h (List.mem_cons_of_mem _ hup)
    rw [List.foldl_cons, List.foldl_cons, ih]
    cases c with
    | root => rfl
    | here => rfl
    | up => exact absurd List.mem_cons_self h
    | name text => rw [ih (pushComponent [] _)]; simp [pushComponent]

theorem up_mem_components_iff : .up ∈ p.components ↔
    .up ∈ p.pieces.filterMap Component.ofPiece? := by
  unfold components
  split
  next hnil => simp [hnil]
  next first rest hpieces =>
    rw [hpieces, List.filterMap_cons]
    unfold Component.ofPiece?
    split_ifs <;> simp_all

/-- A path without `..` leads below the root that it is seen from. -/
theorem names_join (h : p.isAbsolute = false) (hup : .up ∉ p.components) :
    (root.join p).names = root.names ++ p.names := by
  rw [up_mem_components_iff] at hup
  unfold names
  rw [normalNames_components, normalNames_components root, normalNames_components p,
    filterMap_pieces_join h, normalNames, List.foldl_append, foldl_pushComponent_of_up_notMem hup,
    List.reverse_append]
  rfl

end Join

theorem names_joinWith {names : Names} (h : names.Plain) :
    Path.names ⟨Text.joinWith ['/'] names⟩ = names := by
  have hpush (names stack : Names) :
      (names.map Component.name).foldl pushComponent stack = names.reverse ++ stack := by
    induction names generalizing stack with
    | nil => rfl
    | cons name names ih => simp [pushComponent, ih]
  unfold Path.names normalNames
  rw [components_joinWith h, hpush, List.append_nil, List.reverse_reverse]

theorem names_path {names : Names} (h : names.Plain) : names.path.names = names := by
  have hroot : normalNames (.root :: names.map .name) = normalNames (names.map .name) := rfl
  rw [Path.names, components_path h, hroot, ← components_joinWith h]
  exact names_joinWith h

/-- The names below a folder stand behind those of the folder. -/
theorem names_join_joinWith (folder : Path) {below : Names} (h : below.Plain) :
    (folder.join ⟨Text.joinWith ['/'] below⟩).names = folder.names ++ below := by
  have hrelative : Path.isAbsolute ⟨Text.joinWith ['/'] below⟩ = false := by
    simpa [isAbsolute] using h.head?_joinWith
  rw [names_join hrelative (by simp [components_joinWith h]), names_joinWith h]

theorem plain_foldl_pushComponent {cs : List Component} {stack : Names} (hstack : stack.Plain)
    (hcs : ∀ name, .name name ∈ cs → IsName name ∧ '/' ∉ name) :
    Names.Plain (cs.foldl pushComponent stack) := by
  induction cs generalizing stack with
  | nil => exact hstack
  | cons c cs ih =>
    refine ih ?_ fun name hname => hcs name (List.mem_cons_of_mem _ hname)
    cases c with
    | root => exact hstack
    | here => exact hstack
    | up => exact fun name hname => hstack name (List.mem_of_mem_tail hname)
    | name text =>
      intro name hname
      obtain rfl | hname := List.mem_cons.1 hname
      · exact hcs name List.mem_cons_self
      · exact hstack name hname

theorem plain_names (p : Path) : p.names.Plain := by
  intro name hname
  rw [names, normalNames_components, normalNames, List.mem_reverse] at hname
  refine @plain_foldl_pushComponent _ [] (by simp [Names.Plain]) ?_ name hname
  intro name hname
  obtain ⟨piece, hpiece, hname⟩ := List.mem_filterMap.1 hname
  obtain ⟨hname, rfl⟩ := isName_of_ofPiece? hname
  exact ⟨hname, Text.notMem_of_mem_splitOn hpiece⟩

theorem normalize_of_isAbsolute {p : Path} (h : p.isAbsolute) : p.normalize = p.names.path := by
  simp [normalize, h, Names.path, names]

theorem normalize_of_relative {p : Path} (h : p.isAbsolute = false) :
    p.normalize = ⟨Text.joinWith ['/'] p.names⟩ := by
  simp [normalize, h, names]

theorem clean_of_isAbsolute {p : Path} (h : p.isAbsolute) : p.clean = p.names.path := by
  have hempty : p.names.path.isEmpty = false := rfl
  simp [clean, normalize_of_isAbsolute h, hempty]

theorem clean_of_relative {p : Path} (h : p.isAbsolute = false) :
    p.clean = p.names.relativePath := by
  unfold clean Names.relativePath
  rw [normalize_of_relative h]
  by_cases hnil : p.names = []
  · simp [hnil, isEmpty, Text.joinWith]
  · simp [hnil, isEmpty, p.plain_names.joinWith_ne_nil hnil]

end Path

end SkinLint
