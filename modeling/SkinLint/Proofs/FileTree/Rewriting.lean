import Mathlib.Data.List.DropRight
import SkinLint.Proofs.FileTree
import SkinLint.Proofs.Path.Ancestors

/-!
# Replacing a file where a path leads

A path that leads to a place has its folder there already, so replacing the file changes that one
entry and makes nothing else. All other paths find what they found.
-/
namespace SkinLint.FileTree

variable {t t' : FileTree}

/-- A piece of a path that names a file or a folder. -/
structure IsName (piece : Text) : Prop where
  nonempty : piece ≠ []
  notHere : piece ≠ ['.']
  notUp : piece ≠ ['.', '.']

theorem step_eq_ok_iff {names next : Names} {piece : Text} (h : IsName piece) :
    t.step names piece = .ok next ↔ t.entry? names = some .folder ∧
      (Utf8.encode piece).length ≤ maxNameLength ∧ next = names ++ [piece] := by
  unfold step
  split
  next hnone => simp [hnone]
  next hfile => simp [hfile]
  next hfolder =>
    rw [if_neg (by simp [h.nonempty, h.notHere]), if_neg h.notUp]
    split
    next hlong => simp [hfolder, Nat.not_le.2 hlong]
    next hshort => simp [hfolder, Nat.not_lt.1 hshort, eq_comm]

theorem step_idle {names next : Names} {piece : Text} (hidle : (Component.ofPiece? piece).isNone)
    (h : t.step names piece = .ok next) : next = names := by
  have hpiece : piece = [] ∨ piece = ['.'] := by
    unfold Component.ofPiece? at hidle
    split_ifs at hidle with hpiece
    · exact hpiece
    all_goals cases hidle
  unfold step at h
  split at h
  next => cases h
  next => cases h
  next =>
    rw [if_pos hpiece] at h
    cases h
    rfl

def start (t : FileTree) (p : Path) : Names := if p.isAbsolute then [] else t.workingFolder

theorem locate_eq {p : Path} (hne : p.text ≠ []) (hzero : Char.ofNat 0 ∉ p.text) :
    t.locate p = p.pieces.foldlM t.step (t.start p) := by
  simp [locate, start, Path.isEmpty, hne, hzero]

theorem locate_eq_ok_iff {p : Path} {names : Names} :
    t.locate p = .ok names ↔ p.text ≠ [] ∧ Char.ofNat 0 ∉ p.text ∧
      p.pieces.foldlM t.step (t.start p) = .ok names := by
  unfold locate start
  split
  next hempty => simp_all [Path.isEmpty]
  next hempty =>
    split
    next hzero => simp_all
    next hzero => simp_all [Path.isEmpty]

theorem foldlM_concat {init : List Text} {last : Text} {first names : Names} :
    (init ++ [last]).foldlM t.step first = .ok names ↔
      ∃ m, init.foldlM t.step first = .ok m ∧ t.step m last = .ok names := by
  rw [List.foldlM_append]
  cases init.foldlM t.step first with
  | error e => simp [bind, Except.bind]
  | ok m => cases hstep : t.step m last <;> simp [bind, Except.bind, pure, Except.pure, hstep]

/-- A path that ends with a name leads to that name in a folder. -/
theorem locate_name {p : Path} {init : List Text} {last : Text} (hp : p.pieces = init ++ [last])
    (hlast : IsName last) {names : Names} (h : t.locate p = .ok names) :
    ∃ m, init.foldlM t.step (t.start p) = .ok m ∧ t.entry? m = some .folder ∧
      names = m ++ [last] := by
  obtain ⟨-, -, h⟩ := locate_eq_ok_iff.1 h
  rw [hp, foldlM_concat] at h
  obtain ⟨m, hm, hstep⟩ := h
  obtain ⟨hfolder, -, hnames⟩ := (step_eq_ok_iff hlast).1 hstep
  exact ⟨m, hm, hfolder, hnames⟩

section Parent

open SkinLint.Path (dropIdle dropIdle_concat isPrefix_dropIdle getLast?_dropIdle)

theorem isNone_ofPiece? {piece : Text} (h : IsName piece) :
    (Component.ofPiece? piece).isNone = false := by
  simp [Component.ofPiece?, h.nonempty, h.notHere, h.notUp]

theorem foldlM_dropIdle {pieces : List Text} {first names : Names}
    (h : pieces.foldlM t.step first = .ok names) :
    (dropIdle pieces).foldlM t.step first = .ok names := by
  induction pieces using List.reverseRecOn generalizing names with
  | nil => exact h
  | append_singleton pieces last ih =>
    rw [dropIdle_concat]
    split
    next hidle =>
      obtain ⟨m, hm, hstep⟩ := foldlM_concat.1 h
      rw [step_idle hidle hstep]
      exact ih hm
    next => exact h

theorem directory_of_pieces {p : Path} {mid : List Text} {last : Text}
    (hp : p.pieces = [] :: (mid ++ [last])) (hlast : IsName last) :
    p.directory = if dropIdle mid = [] then ⟨['/']⟩
      else ⟨Text.joinWith ['/'] ([] :: dropIdle mid)⟩ := by
  have hkept : dropIdle (mid ++ [last]) = mid ++ [last] := by
    rw [dropIdle_concat, isNone_ofPiece? hlast]
    rfl
  unfold Path.directory Path.parent?
  rw [hp]
  dsimp only
  split
  next hnil => simp [hkept] at hnil
  next =>
    rw [hkept, List.dropLast_concat]
    by_cases habove : dropIdle mid = [] <;> simp [habove]

theorem pieces_of_isAbsolute {p : Path} (h : p.isAbsolute) : ∃ rest, p.pieces = [] :: rest := by
  unfold Path.isAbsolute at h
  unfold Path.pieces
  cases htext : p.text with
  | nil => simp [htext] at h
  | cons c text =>
    obtain rfl : c = '/' := by simpa [htext] using h
    exact ⟨Text.splitOn '/' text, by simp [Text.splitOn]⟩

/-- The text that pieces are joined to, for a path that starts at the root. -/
theorem isAbsolute_joinWith {pieces : List Text} (hne : pieces ≠ []) :
    Path.isAbsolute ⟨Text.joinWith ['/'] ([] :: pieces)⟩ := by
  cases pieces with
  | nil => exact absurd rfl hne
  | cons piece rest => simp [Path.isAbsolute, Text.joinWith_cons_cons]

theorem getLast?_ne_slash {p : Path} (h : p.pieces.getLast? ≠ some []) :
    p.text.getLast? ≠ some '/' := by
  intro hslash
  obtain ⟨text, htext⟩ := List.getLast?_eq_some_iff.1 hslash
  have hpieces : p.pieces = Text.splitOn '/' text ++ [[]] := by
    unfold Path.pieces
    rw [htext, Text.splitOn_append]
    rfl
  simp [hpieces] at h

/-- The folder of a place that a path leads to is there, and its path has no slash at the end
unless it is the root. -/
theorem locate_directory {p : Path} (habsolute : p.isAbsolute) {init : List Text} {last : Text}
    (hp : p.pieces = init ++ [last]) (hlast : IsName last) {names : Names}
    (h : t.locate p = .ok names) :
    ∃ m, t.locate p.directory = .ok m ∧ t.entry? m = some .folder ∧
      (p.directory.text = ['/'] ∨ p.directory.text.getLast? ≠ some '/') := by
  obtain ⟨rest, hrest⟩ := pieces_of_isAbsolute habsolute
  obtain ⟨mid, rfl⟩ : ∃ mid, init = [] :: mid := by
    cases init with
    | nil =>
      rw [hp] at hrest
      exact absurd (List.cons.inj hrest).1 hlast.nonempty
    | cons piece mid =>
      rw [hp] at hrest
      exact ⟨mid, by rw [(List.cons.inj hrest).1]⟩
  obtain ⟨-, hzero, -⟩ := locate_eq_ok_iff.1 h
  obtain ⟨m, hm, hfolder, rfl⟩ := locate_name hp hlast h
  have hsteps : (dropIdle mid).foldlM t.step [] = .ok m := by
    rw [start, if_pos habsolute] at hm
    exact foldlM_dropIdle hm
  rw [directory_of_pieces hp hlast]
  split
  next hroot =>
    rw [hroot] at hsteps
    exact ⟨m, hsteps, hfolder, .inl rfl⟩
  next habove =>
    have hmem : ∀ piece ∈ [] :: dropIdle mid, piece ∈ p.pieces := by
      rw [hp]
      intro piece hpiece
      have habove := (isPrefix_dropIdle mid).trans (List.prefix_append mid [last])
      exact List.cons_subset_cons [] habove.subset hpiece
    have hpieces : Path.pieces ⟨Text.joinWith ['/'] ([] :: dropIdle mid)⟩ = [] :: dropIdle mid :=
      Text.splitOn_joinWith (by simp) fun piece hpiece =>
        Text.notMem_of_mem_splitOn (hmem piece hpiece)
    have habsolute' := isAbsolute_joinWith habove
    refine ⟨m, locate_eq_ok_iff.2 ⟨?_, ?_, ?_⟩, hfolder, .inr ?_⟩
    · rintro (hnil : Text.joinWith _ _ = [])
      simp [Path.isAbsolute, hnil] at habsolute'
    · intro hzero'
      obtain hslash | ⟨piece, hpiece, hc⟩ := Text.mem_joinWith hzero'
      · cases List.mem_singleton.1 hslash
      · exact hzero (Text.mem_of_mem_splitOn (hmem piece hpiece) hc)
    · rw [hpieces, start, if_pos habsolute']
      exact hsteps
    · refine getLast?_ne_slash ?_
      rw [hpieces, List.getLast?_cons_of_ne_nil habove]
      exact getLast?_dropIdle mid

theorem makeFolders_of_folder {q : Path} {m : Names} (hq : t.locate q = .ok m)
    (hfolder : t.entry? m = some .folder) (hslash : q.text = ['/'] ∨ q.text.getLast? ≠ some '/') :
    t.makeFolders q = .ok t := by
  obtain ⟨hne, -, -⟩ := locate_eq_ok_iff.1 hq
  have hthere : t.makeFolder q = .error .alreadyThere := by
    unfold makeFolder
    obtain hroot | hslash := hslash
    · simp [hroot, locate, Path.isEmpty]
    · have hkeep : (q.text.reverse.dropWhile (· == '/')).reverse = q.text := by
        refine List.rdropWhile_eq_self_iff.2 fun hl => ?_
        simpa [List.getLast?_eq_some_getLast hl] using hslash
      rw [hkeep, hq]
      simp [hfolder]
  have hisFolder : t.isFolder q := by simp [isFolder, look, hq, hfolder]
  have hnotEmpty : q.isEmpty = false := by simpa [Path.isEmpty] using hne
  simp [makeFolders, makeFoldersWithin, hnotEmpty, hthere, hisFolder]

end Parent

section Join

structure IsFileName (q : Path) : Prop extends IsName q.text where
  slash : '/' ∉ q.text
  zero : Char.ofNat 0 ∉ q.text

variable {q : Path} (hq : IsFileName q)
include hq

end Join

/-- Two trees that differ in one file, which has some contents in the second. -/
structure Rewrites (t t' : FileTree) (names : Names) (contents : Bytes) : Prop where
  workingFolder : t'.workingFolder = t.workingFolder
  was : t.entry? names ≠ some .folder
  now : ∃ x, t'.entry? names = some (.file contents x)
  others : ∀ n, n ≠ names → t'.entry? n = t.entry? n

theorem rewrites_set {names : Names} (hwas : t.entry? names ≠ some .folder) (contents : Bytes)
    (executable : Bool) : Rewrites t (t.set names (.file contents executable)) names contents := by
  have hne := ne_nil_of_entry? hwas
  exact ⟨rfl, hwas, ⟨executable, entry?_set_self hne _ _⟩, fun _ hn => entry?_set_of_ne hn _ _⟩

theorem replace_rewrites {p : Path} (habsolute : p.isAbsolute) {names : Names} {contents : Bytes}
    (hl : t.locate p = .ok names) (h : t.replace p contents = .ok t') :
    Rewrites t t' names contents := by
  unfold replace at h
  dsimp only at h
  split at h
  next => cases h
  next made hmade =>
    split_ifs at h with hempty hbusy hnone
    obtain hnil | ⟨init, last, hp⟩ := p.pieces.eq_nil_or_concat
    · exact absurd hnil (Text.splitOn_ne_nil '/' p.text)
    have hlast : IsName last := by
      simp only [hp, List.concat_eq_append, List.getLast?_concat, Option.getD_some] at hbusy hnone
      exact ⟨hnone, fun h => hbusy (.inl h), fun h => hbusy (.inr (.inl h))⟩
    rw [List.concat_eq_append] at hp
    obtain ⟨m, hparent, hfolder, hslash⟩ := locate_directory habsolute hp hlast hl
    have hne : p.directory.isEmpty = false := by
      simpa [Path.isEmpty] using (locate_eq_ok_iff.1 hparent).1
    rw [hne, if_neg (by simp), makeFolders_of_folder hparent hfolder hslash] at hmade
    obtain rfl := Except.ok.inj hmade
    rw [hl] at h
    dsimp only at h
    split at h
    next => cases h
    next old x hold =>
      obtain rfl := Except.ok.inj h
      exact rewrites_set (by simp [hold]) contents x
    next hnone =>
      obtain rfl := Except.ok.inj h
      exact rewrites_set (by simp [hnone]) contents false

/-- A file that a path ends with the name of can be replaced. -/
theorem exists_replace {p : Path} (habsolute : p.isAbsolute) {init : List Text} {last : Text}
    (hp : p.pieces = init ++ [last]) (hlast : IsName last) {names : Names}
    (hl : t.locate p = .ok names) {old : Bytes} {x : Bool}
    (he : t.entry? names = some (.file old x)) (contents : Bytes) :
    ∃ t', t.replace p contents = .ok t' := by
  obtain ⟨m, hparent, hfolder, hslash⟩ := locate_directory habsolute hp hlast hl
  obtain ⟨hnonempty, -, -⟩ := locate_eq_ok_iff.1 hparent
  have hdirectory : p.directory.isEmpty = false := by simpa [Path.isEmpty] using hnonempty
  obtain ⟨hne, -, -⟩ := locate_eq_ok_iff.1 hl
  have hempty : p.isEmpty = false := by simpa [Path.isEmpty] using hne
  have hslashes : p.text.all (· == '/') = false := by
    rw [List.all_eq_false]
    obtain ⟨c, hc⟩ := List.exists_mem_of_ne_nil last hlast.nonempty
    have hmem : last ∈ p.pieces := by simp [hp]
    refine ⟨c, Text.mem_of_mem_splitOn hmem hc, ?_⟩
    intro hslash
    rw [beq_iff_eq] at hslash
    exact Text.notMem_of_mem_splitOn hmem (hslash ▸ hc)
  have hend : p.pieces.getLast?.getD [] = last := by simp [hp]
  have hmade := makeFolders_of_folder hparent hfolder hslash
  refine ⟨t.set names (.file contents x), ?_⟩
  simp [replace, hdirectory, hmade, hempty, hend, hslashes, hlast.nonempty, hlast.notHere,
    hlast.notUp, hl, he]

theorem look_eq_ok_iff {p : Path} {e : FileEntry} :
    t.look p = .ok e ↔ ∃ names, t.locate p = .ok names ∧ t.entry? names = some e := by
  unfold look
  cases t.locate p with
  | error reason => simp
  | ok names => cases hentry : t.entry? names <;> simp [hentry]

theorem contains_iff {p : Path} : t.contains p ↔ ∃ e, t.look p = .ok e := by
  unfold contains
  cases t.look p <;> simp [Except.isOk, Except.toBool]

namespace Rewrites

variable {names : Names} {contents : Bytes} (h : Rewrites t t' names contents)
include h

theorem folder_iff (n : Names) : t'.entry? n = some .folder ↔ t.entry? n = some .folder := by
  by_cases hn : n = names
  · subst hn
    obtain ⟨x, hx⟩ := h.now
    simp [hx, h.was]
  · rw [h.others n hn]

theorem locate_iff (p : Path) (n : Names) : t'.locate p = .ok n ↔ t.locate p = .ok n := by
  constructor
  · exact KeepsFolders.locate ⟨h.workingFolder.symm, (h.folder_iff _).1⟩
  · exact KeepsFolders.locate ⟨h.workingFolder, (h.folder_iff _).2⟩

theorem look_iff {p : Path} (hne : t.locate p ≠ .ok names) (e : FileEntry) :
    t'.look p = .ok e ↔ t.look p = .ok e := by
  rw [look_eq_ok_iff, look_eq_ok_iff]
  refine exists_congr fun n => ?_
  rw [h.locate_iff]
  refine and_congr_right fun hl => ?_
  rw [h.others n fun heq => hne (heq ▸ hl)]

theorem contains_of_ne {p : Path} (hne : t.locate p ≠ .ok names) : t'.contains p = t.contains p := by
  rw [Bool.eq_iff_iff, contains_iff, contains_iff]
  exact exists_congr (h.look_iff hne)

theorem contains {p : Path} (hp : t.contains p) : t'.contains p := by
  by_cases hl : t.locate p = .ok names
  · obtain ⟨x, hx⟩ := h.now
    exact contains_iff.2 ⟨_, look_eq_ok_iff.2 ⟨names, (h.locate_iff p names).2 hl, hx⟩⟩
  · rwa [h.contains_of_ne hl]

end Rewrites

end SkinLint.FileTree
