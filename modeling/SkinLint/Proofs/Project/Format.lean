import SkinLint.Project.Format
import SkinLint.Proofs.Encoding.RoundTrip
import SkinLint.Proofs.FileTree
import SkinLint.Proofs.Layout

/-!
# Files after formatting

Writing the changes one after the other leaves every file either as it was or laid out in its own
encoding. The written bytes are read back as the layout unless a byte order mark came to stand in
front of plain UTF-8, where the text had only blanks before it.
-/
namespace SkinLint
open Document

def Source.laidOut (source : Source) : Bytes := source.encoding.encode (Layout.format source.text)

/-- Plain UTF-8 in which a byte order mark comes first after some blanks. -/
def Source.MarkSurfaces (source : Source) : Prop :=
  source.encoding = .utf8 ∧ (Text.trimStart source.text).head? = some mark

theorem Layout.head?_format_eq_mark_iff (text : Text) :
    (Layout.format text).head? = some mark ↔ (Text.trimStart text).head? = some mark := by
  rw [Layout.head?_format]
  cases (Text.trimStart text).head? with
  | none =>
    constructor
    · intro h
      exact absurd (Option.some.inj h) (by decide)
    · intro h
      simp at h
  | some c => rfl

/-- Laid out bytes are read back as what they were made from, but for a mark that surfaced. -/
theorem Source.decode_laidOut (source : Source) : Source.decode source.laidOut =
    .ok ⟨Layout.format source.text, source.encoding⟩ ↔ ¬ source.MarkSurfaces := by
  have hsurface : source.MarkSurfaces ↔
      source.encoding = .utf8 ∧ (Layout.format source.text).head? = some mark := by
    rw [Layout.head?_format_eq_mark_iff]
    rfl
  rw [laidOut, decode_encode, hsurface]
  constructor
  · intro h hm
    rw [if_pos hm, Except.ok.injEq, Source.mk.injEq, hm.1] at h
    exact absurd h.2 (by decide)
  · intro hm
    exact if_neg hm

namespace Project

/-- A change made for a file of the tree: it writes what the file holds, laid out. -/
def MadeFor (t : FileTree) (c : Change) : Prop :=
  ∃ names old x source, t.locate c.target.path = .ok names ∧
    t.entry? names = some (.file old x) ∧ Source.decode old = .ok source ∧
    c.contents = source.laidOut

def Touched (t : FileTree) (changes : List Change) (names : Names) : Prop :=
  ∃ c ∈ changes, t.locate c.target.path = .ok names

/-- The tree after some changes were written: the files they go to are laid out, and all others are
as they were. -/
structure Written (before : FileTree) (changes : List Change) (t : FileTree) : Prop where
  folders : before.KeepsFolders t
  touched : ∀ {names : Names} {old : Bytes} {x : Bool} {source : Source},
    before.entry? names = some (.file old x) → Source.decode old = .ok source →
    Touched before changes names → t.entry? names = some (.file source.laidOut x)
  untouched : ∀ {names : Names} {old : Bytes} {x : Bool},
    before.entry? names = some (.file old x) → ¬ Touched before changes names →
    t.entry? names = some (.file old x)

theorem Written.nil (t : FileTree) : Written t [] t :=
  ⟨⟨rfl, id⟩, fun _ _ ⟨_, hc, _⟩ => absurd hc (by simp), fun he _ => he⟩

theorem Written.step {before t t' : FileTree} {changes : List Change} {c : Change}
    (h : Written before changes t) (hc : MadeFor before c)
    (hr : t.replace c.target.path c.contents = .ok t') : Written before (changes ++ [c]) t' := by
  obtain ⟨names, old, x, source, hl, he, hd, hcontents⟩ := hc
  obtain ⟨now, hnow⟩ : ∃ now, t.entry? names = some (.file now x) := by
    by_cases ht : Touched before changes names
    · exact ⟨_, h.touched he hd ht⟩
    · exact ⟨_, h.untouched he ht⟩
  obtain ⟨hfolders, hself, hother⟩ := FileTree.replace_of_file hr (h.folders.locate hl) hnow
  have htouched (n : Names) : Touched before (changes ++ [c]) n ↔
      Touched before changes n ∨ n = names := by
    constructor
    · rintro ⟨d, hd, hn⟩
      rcases List.mem_append.mp hd with hd | hd
      · exact .inl ⟨d, hd, hn⟩
      · rw [List.mem_singleton.mp hd, hl] at hn
        exact .inr (Except.ok.inj hn).symm
    · rintro (⟨d, hd, hn⟩ | rfl)
      · exact ⟨d, by simp [hd], hn⟩
      · exact ⟨c, by simp, hl⟩
  refine ⟨h.folders.trans hfolders, fun {n old' x' source'} he' hd' ht => ?_,
    fun {n old' x'} he' ht => ?_⟩
  · by_cases hn : n = names
    · subst hn
      rw [he] at he'
      obtain ⟨rfl, rfl⟩ := by simpa using he'
      rw [hd] at hd'
      obtain rfl := Except.ok.inj hd'
      rw [hself, hcontents]
    · exact hother hn (h.touched he' hd' (((htouched n).mp ht).resolve_right hn))
  · rw [htouched, not_or] at ht
    exact hother ht.2 (h.untouched he' ht.1)

theorem Written.writeAll {before t t' : FileTree} {written changes : List Change}
    (h : Written before written t) (hc : ∀ c ∈ changes, MadeFor before c)
    (hw : writeAll changes t = .ok t') : Written before (written ++ changes) t' := by
  induction changes generalizing written t with
  | nil =>
    obtain rfl := Except.ok.inj hw
    simpa using h
  | cons c rest ih =>
    unfold Project.writeAll at hw
    split at hw
    · simp at hw
    · rename_i t₁ hr
      have hstep := h.step (hc c (by simp)) hr
      have hrest := ih hstep (fun d hd => hc d (by simp [hd])) hw
      simpa using hrest

theorem changeOf_eq_ok_iff (t : FileTree) (target : Target) (change : Option Change) :
    changeOf t target = .ok change ↔ ∃ source, readSource t target.path = .ok source ∧
      change = if Layout.format source.text = source.text then none
        else some ⟨target, source, Layout.format source.text⟩ := by
  unfold changeOf
  cases readSource t target.path with
  | error e => simp [Except.map]
  | ok source => simp [Except.map, eq_comm]

theorem readSource_eq_ok_iff (t : FileTree) (p : Path) (source : Source) :
    readSource t p = .ok source ↔ ∃ bytes, t.read p = .ok bytes ∧ Source.decode bytes = .ok source := by
  unfold readSource
  cases t.read p with
  | error e => simp
  | ok bytes =>
    cases hd : Source.decode bytes with
    | error e => simp [hd]
    | ok s => simp [hd]

theorem madeFor_of_changeOf {t : FileTree} {target : Target} {c : Change}
    (h : changeOf t target = .ok (some c)) : MadeFor t c := by
  obtain ⟨source, hs, hc⟩ := (changeOf_eq_ok_iff t target _).mp h
  obtain ⟨bytes, hb, hd⟩ := (readSource_eq_ok_iff t target.path source).mp hs
  obtain ⟨names, x, hl, he⟩ := (FileTree.read_eq_ok_iff t target.path bytes).mp hb
  split at hc
  · simp at hc
  · obtain rfl := Option.some.inj hc
    exact ⟨names, bytes, x, source, hl, he, hd, rfl⟩

theorem changeOf?_eq_some_iff (t : FileTree) (target : Target) (c : Change) :
    changeOf? t target = some c ↔ changeOf t target = .ok (some c) := by
  unfold changeOf?
  cases changeOf t target <;> simp

theorem written_of_format {s : Settings} {paths : List Path} {t t' : FileTree}
    {report : FormatReport} {found : List Target} (hf : targets s.project t paths = .ok found)
    (h : format s .write paths t = .ok (report, t')) :
    Written t (found.filterMap (changeOf? t)) t' := by
  unfold format at h
  rw [hf] at h
  cases hw : writeAll (found.filterMap (changeOf? t)) t with
  | error e => simp [bind, Except.bind, hw] at h
  | ok t₁ =>
    simp only [bind, Except.bind, hw, if_true, pure, Except.pure, Except.ok.injEq,
      Prod.mk.injEq] at h
    have hall := (Written.nil t).writeAll ?_ hw
    · rw [← h.2]
      exact hall
    · intro c hc
      obtain ⟨target, -, ht⟩ := List.mem_filterMap.mp hc
      exact madeFor_of_changeOf ((changeOf?_eq_some_iff t target c).mp ht)

/-- After formatting in place a file holds its text laid out, whether it had to change or not. -/
theorem read_of_format {s : Settings} {paths : List Path} {t t' : FileTree} {report : FormatReport}
    {found : List Target} {target : Target} {bytes : Bytes} {source : Source}
    (hf : targets s.project t paths = .ok found) (hm : target ∈ found)
    (hb : t.read target.path = .ok bytes) (hd : Source.decode bytes = .ok source)
    (h : format s .write paths t = .ok (report, t')) :
    t'.read target.path = .ok source.laidOut := by
  have hw := written_of_format hf h
  obtain ⟨names, x, hl, he⟩ := (FileTree.read_eq_ok_iff t target.path bytes).mp hb
  rw [FileTree.read_eq_ok_iff]
  refine ⟨names, x, hw.folders.locate hl, ?_⟩
  by_cases ht : Touched t (found.filterMap (changeOf? t)) names
  · exact hw.touched he hd ht
  · have hsame : Layout.format source.text = source.text := by
      by_contra hne
      apply ht
      have hs := (readSource_eq_ok_iff t target.path source).mpr ⟨bytes, hb, hd⟩
      have hc := (changeOf_eq_ok_iff t target _).mpr ⟨source, hs, (if_neg hne).symm⟩
      exact ⟨_, List.mem_filterMap.mpr ⟨target, hm, (changeOf?_eq_some_iff t target _).mpr hc⟩, hl⟩
    rw [hw.untouched he ht, Source.laidOut, hsame, Source.encode_of_decode hd]

/-- Formatting in place keeps the encoding of a file exactly when no byte order mark surfaces, and a
second run then finds nothing to do. -/
theorem format_keeps_encoding_iff {bytes : Bytes} {source : Source}
    (h : Source.decode bytes = .ok source) :
    (Source.decode (source.encoding.encode (Layout.format source.text)) =
      .ok ⟨Layout.format source.text, source.encoding⟩ ↔ ¬ source.MarkSurfaces) ∧
    ∀ (s : Settings) (paths : List Path) (t t' : FileTree) (report : FormatReport)
      (found : List Target) (target : Target), targets s.project t paths = .ok found →
      target ∈ found → t.read target.path = .ok bytes →
      format s .write paths t = .ok (report, t') →
      (readSource t' target.path = .ok ⟨Layout.format source.text, source.encoding⟩ ↔
        ¬ source.MarkSurfaces) ∧
      (¬ source.MarkSurfaces → changeOf t' target = .ok none) := by
  refine ⟨source.decode_laidOut, fun s paths t t' report found target hf hm hb hw => ?_⟩
  have hread := read_of_format hf hm hb h hw
  have hsource : readSource t' target.path =
      .ok ⟨Layout.format source.text, source.encoding⟩ ↔ ¬ source.MarkSurfaces := by
    rw [readSource_eq_ok_iff, ← source.decode_laidOut, hread]
    simp
  refine ⟨hsource, fun hm => ?_⟩
  rw [changeOf_eq_ok_iff]
  refine ⟨_, hsource.mpr hm, ?_⟩
  rw [if_pos (Layout.format_format source.text)]

/-- A file with blanks around `=`, behind the mark of UTF-8, is rewritten behind that mark and then
left alone. -/
theorem format_keeps_utf8Mark :
    let bytes : Bytes := [0xef, 0xbb, 0xbf, 0x61, 0x20, 0x3d, 0x62]
    let s : Settings := ⟨⟨⟨"/".toList⟩, [], []⟩, {}, {}, {}, {}⟩
    let t : FileTree := ⟨[(["a.ini".toList], .file bytes false)], []⟩
    let target : Target := ⟨⟨"/a.ini".toList⟩, ⟨"a.ini".toList⟩⟩
    Source.decode bytes = .ok ⟨"a =b".toList, .utf8Mark⟩ ∧
    ∃ report t', format s .write [target.path] t = .ok (report, t') ∧
      readSource t' target.path = .ok ⟨"a=b\n".toList, .utf8Mark⟩ ∧
      changeOf t' target = .ok none := by
  intro bytes s t target
  have h : Source.decode bytes = .ok ⟨"a =b".toList, .utf8Mark⟩ := by decide
  have hf : targets s.project t [target.path] = .ok [target] := by decide +kernel
  have hrun : (format s .write [target.path] t).toOption.isSome = true := by decide +kernel
  cases hw : format s .write [target.path] t with
  | error e => simp [hw, Except.toOption] at hrun
  | ok result =>
    have hmark : ¬ Source.MarkSurfaces ⟨"a =b".toList, .utf8Mark⟩ := fun hm =>
      absurd hm.1 (by decide)
    have hlaid : Layout.format "a =b".toList = "a=b\n".toList := by decide
    obtain ⟨hread, hdone⟩ := (format_keeps_encoding_iff h).2 s [target.path] t result.2 result.1
      [target] target hf (by simp) (by decide) hw
    refine ⟨h, result.1, result.2, rfl, ?_, hdone hmark⟩
    rw [hread.mpr hmark, hlaid]

/-- A mark in the second line surfaces: the written bytes are read in another encoding, without the
mark, and the text that is left is not in its layout. -/
theorem format_surfaces_mark :
    Source.decode [0x0a, 0xef, 0xbb, 0xbf, 0x20, 0x20, 0x5b, 0x41, 0x5d, 0x0a] =
      .ok ⟨"\n\uFEFF  [A]\n".toList, .utf8⟩ ∧
    Source.decode (Encoding.utf8.encode (Layout.format "\n\uFEFF  [A]\n".toList)) =
      .ok ⟨"  [A]\n".toList, .utf8Mark⟩ ∧
    Layout.format "  [A]\n".toList ≠ "  [A]\n".toList := by
  decide

end Project

end SkinLint
