import SkinLint.Proofs.Layout
import SkinLint.Proofs.Validation.MeterKeys
import SkinLint.Proofs.Validation.Pass

/-!
# Passes over a formatted document

The filled lines of a formatted text correspond, one by one, to those of the text: each is the
layout of the other. The first pass looks at the kinds of lines alone and finds the same in both.
The check of a meter's keys also looks at how a declaration is spelled: it may begin earlier in the
formatted text, and then finds more.
-/
namespace SkinLint

def Breach.content (b : Breach) : Rule × String := (b.rule, b.message)

namespace Validation
open Text LineKind Layout Document

def isFilled (l : Line) : Bool := l.kind != .blank

def LaidAs (l l' : Line) : Prop := laid? l.text = some l'.text

theorem LaidAs.kind {l l' : Line} (h : LaidAs l l') : l'.kind = l.kind := classify_laid h

theorem LaidAs.trimmed {l l' : Line} (h : LaidAs l l') : l'.trimmed = l'.text :=
  trim_of_trimmed (trimmed_laid h)

theorem LaidAs.text_eq {l l' : Line} {key value : Text} (h : LaidAs l l')
    (hk : l.kind = .keyValue key value) : l'.text = key ++ '=' :: value := by
  have hlaid := h
  unfold LaidAs laid? at hlaid
  rw [Line.kind] at hk
  rw [hk] at hlaid
  exact (Option.some.inj hlaid).symm

theorem LaidAs.declares {l l' : Line} {key value : Text} {m : Meter} (h : LaidAs l l')
    (hk : l.kind = .keyValue key value) (hd : declares m l.trimmed = true) :
    l'.trimmed = l.trimmed := by
  rw [h.trimmed, h.text_eq hk]
  exact (eq_pair_of_declares hd (isPair_of_classify (.inl hk)).2.1).symm

/-- A line becomes a declaration when its pair names a meter. -/
theorem LaidAs.declares_iff {l l' : Line} {key value : Text} (m : Meter) (h : LaidAs l l')
    (hk : l.kind = .keyValue key value) :
    Validation.declares m l'.trimmed = true ↔ NamesMeter m key value := by
  rw [h.trimmed, h.text_eq hk]
  exact Validation.declares_iff m value (isPair_of_classify (.inl hk)).1.key_equals

theorem map_text_filter_isFilled (text : Text) :
    ((lines text).filter isFilled).map Line.text =
      (splitLines text).filter fun t => classify t != .blank := by
  rw [← map_text_lines, List.filter_map]
  rfl

theorem forall₂_laidAs (text : Text) :
    List.Forall₂ LaidAs ((lines text).filter isFilled) ((lines (format text)).filter isFilled) := by
  have h := forall₂_filterMap_laid? (splitLines text)
  rw [← filter_splitLines_format, ← map_text_filter_isFilled, ← map_text_filter_isFilled,
    List.forall₂_map_left_iff, List.forall₂_map_right_iff] at h
  exact h

/-- A header is judged by its name, wherever it stands. -/
theorem openSection_content (s : ValidationSettings) (state : Sections) (l l' : Line) (raw : Text) :
    (state.openSection s l raw).1 = (state.openSection s l' raw).1 ∧
      (state.openSection s l raw).2.map Breach.content =
        (state.openSection s l' raw).2.map Breach.content := by
  unfold Sections.openSection headerBreaches
  dsimp only
  split_ifs <;> exact ⟨rfl, rfl⟩

/-- A key is judged by its name, wherever it stands. -/
theorem recordKey_content (s : ValidationSettings) (state : Sections) (l l' : Line) (key : Text) :
    (state.recordKey s l key).1 = (state.recordKey s l' key).1 ∧
      (state.recordKey s l key).2.map Breach.content =
        (state.recordKey s l' key).2.map Breach.content := by
  unfold Sections.recordKey
  split <;> exact ⟨rfl, rfl⟩

/-- An inclusion is judged by its value, wherever it stands. -/
theorem checkInclusion_content (c : InclusionContext) (included : List Path) (l l' : Line)
    (value : Text) :
    (checkInclusion c included l value).1 = (checkInclusion c included l' value).1 ∧
      (checkInclusion c included l value).2.map Breach.content =
        (checkInclusion c included l' value).2.map Breach.content := by
  unfold checkInclusion
  dsimp only
  split_ifs <;> exact ⟨rfl, rfl⟩

/-- The first pass looks at the kind of a line alone. -/
theorem step_content (s : ValidationSettings) (c : InclusionContext) (state : State) {l l' : Line}
    (h : l'.kind = l.kind) :
    (step s c state l).1 = (step s c state l').1 ∧
      (step s c state l).2.map Breach.content = (step s c state l').2.map Breach.content := by
  unfold step
  rw [h]
  cases l.kind with
  | blank => exact ⟨rfl, rfl⟩
  | comment => exact ⟨rfl, rfl⟩
  | header name =>
    obtain ⟨hstate, hfound⟩ := openSection_content s state.sections l l' name
    exact ⟨congrArg (fun x => { state with sections := x }) hstate, hfound⟩
  | openHeader => exact ⟨rfl, rfl⟩
  | inclusion key value =>
    obtain ⟨hstate, hfound⟩ := checkInclusion_content c state.included l l' value
    exact ⟨congrArg (fun x => { state with included := x }) hstate, hfound⟩
  | keyValue key value =>
    obtain ⟨hstate, hfound⟩ := recordKey_content s state.sections l l' key
    exact ⟨congrArg (fun x => { state with sections := x }) hstate, hfound⟩
  | malformed => exact ⟨rfl, rfl⟩

theorem step_of_not_filled (s : ValidationSettings) (c : InclusionContext) (state : State)
    (l : Line) (h : isFilled l = false) : step s c state l = (state, []) := by
  have hk : l.kind = .blank := by simpa [isFilled] using h
  rw [step, hk]

/-- The first pass ends in the same state and finds the same in a formatted text. -/
theorem firstPass_format (s : ValidationSettings) (c : InclusionContext) (text : Text) :
    run s c {} (lines text) = run s c {} (lines (format text)) ∧
      (lineBreaches s c {} (lines text)).map Breach.content =
        (lineBreaches s c {} (lines (format text))).map Breach.content := by
  have hskip (ls : List Line) :=
    Pass.filter_skipped (p := step s c) (step_of_not_filled s c) {} ls
  rw [run_eq_after, run_eq_after, lineBreaches_eq_found, lineBreaches_eq_found,
    ← (hskip (lines text)).1, ← (hskip (lines text)).2, ← (hskip (lines (format text))).1,
    ← (hskip (lines (format text))).2]
  refine Pass.related (R := Eq) (P := Eq) rfl (fun ha hb => by rw [ha, hb]) ?_
    (forall₂_laidAs text) rfl
  rintro x _ l l' rfl hl
  exact step_content s c x hl.kind

/-- The same block, or one where a meter has begun already. -/
def Block.Within (b b' : Block) : Prop :=
  b = b' ∨ ∃ name, b = .inSection name ∧ b' = .inMeter name

theorem meterKeyBreaches_content (m : Meter) (keys : List Text) (name : Text) (l l' : Line)
    (key value : Text) :
    (meterKeyBreaches m keys name l key value).map Breach.content =
      (meterKeyBreaches m keys name l' key value).map Breach.content := by
  unfold meterKeyBreaches
  split_ifs <;> rfl

theorem meterStep_of_not_filled (m : Meter) (keys : List Text) (b : Block) (l : Line)
    (h : isFilled l = false) : meterStep m keys b l = (b, []) := by
  have hk : l.kind = .blank := by simpa [isFilled] using h
  exact meterStep_other (by simp [hk]) (by simp [hk])

/-- The check of a meter's keys looks at the kind of a line and at whether it is a declaration. -/
theorem meterStep_content {m : Meter} (keys : List Text) (b : Block) {l l' : Line}
    (h : l'.kind = l.kind) (hd : ∀ key value, l.kind = .keyValue key value →
      declares m l'.trimmed = declares m l.trimmed) :
    (meterStep m keys b l).1 = (meterStep m keys b l').1 ∧
      (meterStep m keys b l).2.map Breach.content =
        (meterStep m keys b l').2.map Breach.content := by
  cases hk : l.kind with
  | keyValue key value =>
    have hsame := hd key value hk
    unfold meterStep
    rw [h, hk, hsame]
    cases b with
    | outside => exact ⟨rfl, rfl⟩
    | inSection name =>
      dsimp only [Block.section?]
      split_ifs <;> exact ⟨rfl, rfl⟩
    | inMeter name =>
      dsimp only [Block.section?]
      split_ifs
      · exact ⟨rfl, rfl⟩
      · exact ⟨rfl, meterKeyBreaches_content m keys name l l' key value⟩
  | header name =>
    rw [meterStep_header hk, meterStep_header (h.trans hk)]
    exact ⟨rfl, rfl⟩
  | _ =>
    rw [meterStep_other (by simp [hk]) (by simp [hk]),
      meterStep_other (by simp [h, hk]) (by simp [h, hk])]
    exact ⟨rfl, rfl⟩

/-- A line that becomes a declaration in its layout was not reported before. -/
theorem meterStep_of_respelled {m : Meter} {keys : List Text} {b b' : Block} {l l' : Line}
    {key value : Text} (hb : b.Within b') (hl : LaidAs l l') (hk : l.kind = .keyValue key value)
    (hd : declares m l.trimmed = false) (hd' : declares m l'.trimmed = true) :
    (meterStep m keys b l).1.Within (meterStep m keys b' l').1 ∧
      (meterStep m keys b l).2 = [] := by
  have hk' : l'.kind = .keyValue key value := hl.kind.trans hk
  have hnames := (hl.declares_iff m hk).mp hd'
  rcases hb with rfl | ⟨name, rfl, rfl⟩
  · cases b with
    | outside =>
      rw [meterStep_outside hk, meterStep_outside hk']
      exact ⟨.inl rfl, rfl⟩
    | inSection name =>
      rw [meterStep_inSection hk hd, meterStep_declares hk' rfl hd']
      exact ⟨.inr ⟨name, rfl, rfl⟩, rfl⟩
    | inMeter name =>
      rw [meterStep_inMeter hk hd, meterStep_declares hk' rfl hd']
      exact ⟨.inl rfl, meterKeyBreaches_of_eq_meter hnames.1 m keys name l value⟩
  · rw [meterStep_inSection hk hd, meterStep_declares hk' rfl hd']
    exact ⟨.inr ⟨name, rfl, rfl⟩, rfl⟩

/-- What is spelled as a declaration stays one. -/
theorem declares_cases (m : Meter) {l l' : Line} {key value : Text} (hl : LaidAs l l')
    (hk : l.kind = .keyValue key value) :
    declares m l'.trimmed = declares m l.trimmed ∨
      declares m l.trimmed = false ∧ declares m l'.trimmed = true := by
  cases hd : declares m l.trimmed with
  | true =>
    left
    rw [hl.declares hk hd, hd]
  | false =>
    cases declares m l'.trimmed with
    | true => exact .inr ⟨rfl, rfl⟩
    | false => exact .inl rfl

theorem meterStep_within {m : Meter} {keys : List Text} {b b' : Block} {l l' : Line}
    (hb : b.Within b') (hl : LaidAs l l') :
    (meterStep m keys b l).1.Within (meterStep m keys b' l').1 ∧
      ((meterStep m keys b l).2.map Breach.content).Sublist
        ((meterStep m keys b' l').2.map Breach.content) := by
  cases hk : l.kind with
  | keyValue key value =>
    have hk' : l'.kind = .keyValue key value := hl.kind.trans hk
    rcases declares_cases m hl hk with hd | ⟨hd, hd'⟩
    · rcases hb with rfl | ⟨name, rfl, rfl⟩
      · obtain ⟨hblock, hfound⟩ := meterStep_content keys b hl.kind fun _ _ _ => hd
        exact ⟨.inl hblock, hfound ▸ List.Sublist.refl _⟩
      · cases hdl : declares m l.trimmed with
        | true =>
          rw [meterStep_declares hk rfl hdl, meterStep_declares hk' rfl (hd.trans hdl)]
          exact ⟨.inl rfl, List.Sublist.refl _⟩
        | false =>
          rw [meterStep_inSection hk hdl, meterStep_inMeter hk' (hd.trans hdl)]
          exact ⟨.inr ⟨name, rfl, rfl⟩, List.nil_sublist _⟩
    · obtain ⟨hblock, hnone⟩ := meterStep_of_respelled hb hl hk hd hd'
      rw [hnone]
      exact ⟨hblock, List.nil_sublist _⟩
  | header name =>
    rw [meterStep_header hk, meterStep_header (hl.kind.trans hk)]
    exact ⟨.inl rfl, List.Sublist.refl _⟩
  | _ =>
    rw [meterStep_other (by simp [hk]) (by simp [hk]),
      meterStep_other (by simp [hl.kind, hk]) (by simp [hl.kind, hk])]
    exact ⟨hb, List.Sublist.refl _⟩

theorem meterBreaches_eq_filled (m : Meter) (keys : List Text) (ls : List Line) :
    meterBreaches m keys .outside ls =
      Pass.found (meterStep m keys) .outside (ls.filter isFilled) := by
  rw [meterBreaches_eq_found]
  exact (Pass.filter_skipped (meterStep_of_not_filled m keys) .outside ls).2.symm

/-- The check of a meter's keys finds in a formatted text what it finds in the text, and maybe
more. -/
theorem meterBreaches_format_sublist (m : Meter) (keys : List Text) (text : Text) :
    ((meterBreaches m keys .outside (lines text)).map Breach.content).Sublist
      ((meterBreaches m keys .outside (lines (format text))).map Breach.content) := by
  rw [meterBreaches_eq_filled, meterBreaches_eq_filled]
  refine (Pass.related (R := Block.Within) (P := List.Sublist) (List.Sublist.refl _)
    List.Sublist.append ?_ (forall₂_laidAs text) (.inl rfl)).2
  intro b b' l l' hb hl
  exact meterStep_within hb hl

/-- It finds nothing more if every pair that names the meter is spelled as a declaration. -/
theorem meterBreaches_format_eq {m : Meter} {text : Text}
    (h : ∀ t ∈ splitLines text, ∀ key value, classify t = .keyValue key value →
      NamesMeter m key value → trim t = key ++ '=' :: value) (keys : List Text) :
    (meterBreaches m keys .outside (lines text)).map Breach.content =
      (meterBreaches m keys .outside (lines (format text))).map Breach.content := by
  have hspelled : ∀ l ∈ (lines text).filter isFilled, ∀ key value, l.kind = .keyValue key value →
      NamesMeter m key value → l.trimmed = key ++ '=' :: value := by
    intro l hl
    have ht := List.mem_map_of_mem (f := Line.text) (List.mem_of_mem_filter hl)
    rw [map_text_lines] at ht
    exact h l.text ht
  rw [meterBreaches_eq_filled, meterBreaches_eq_filled]
  refine (Pass.related (R := Eq) (P := Eq) rfl (fun ha hb => by rw [ha, hb]) ?_
    ((List.forall₂_and_left _ _).mpr ⟨hspelled, forall₂_laidAs text⟩) rfl).2
  rintro b _ l l' rfl ⟨hl, hlaid⟩
  refine meterStep_content keys b hlaid.kind fun key value hk => ?_
  rcases declares_cases m hlaid hk with hd | ⟨-, hd'⟩
  · exact hd
  · rw [hl key value hk ((hlaid.declares_iff m hk).mp hd'), hlaid.trimmed, hlaid.text_eq hk]

end Validation

end SkinLint
