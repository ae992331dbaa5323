import SkinLint.Config.Update
import SkinLint.Proofs.Toml.Splicing
import SkinLint.Proofs.Toml.Writing

/-!
# What changing a setting keeps

A setting is changed where it stands, and every other line and comment of the file is kept. What
belongs to the setting itself goes with its old text: the comment behind its value and those right
above it.
-/
namespace SkinLint.Config.Update
open Toml

theorem isMute_table (u : Update) : ∀ c ∈ u.table.toList, isMute c := by
  have hall : u.table.toList.all isMute := by cases u <;> (simp only [table]; decide)
  exact List.all_eq_true.1 hall

theorem isMute_key (u : Update) : ∀ c ∈ u.key.toList, isMute c := by
  have hall : u.key.toList.all isMute := by cases u <;> (simp only [key]; decide)
  exact List.all_eq_true.1 hall

theorem silent_written (u : Update) : Silent u.written := by
  have hquoted (t : Text) : Silent (Quoted.write t) :=
    silent_of_reads fun _ hr => Quoted.read?_write .v11 t hr
  cases u with
  | executable path => exact hquoted path.text
  | autoRefreshOnSave enabled =>
    refine (quiet_of_mute (List.all_eq_true.1 ?_)).silent
    cases enabled <;> decide
  | mode m => exact hquoted m.name.toList
  | logPath path => exact hquoted path.text

def source (contents : Text) : Text := joinLineEnds (SkinLint.Document.dropMark contents)

theorem apply_eq_ok_iff {u : Update} {path : Path} {contents new : Text} :
    u.apply path contents = .ok new ↔
      u.problem? = none ∧ ∃ d d', Document.parse? .v11 contents = some d ∧
        d.set? u.table.toList u.key.toList (.value none u.written u.value) = some d' ∧
        new = d'.render := by
  unfold apply
  constructor
  · intro h
    split at h
    · cases h
    next hproblem =>
      split at h
      · cases h
      next d hd =>
        split at h
        · cases h
        next d' hd' =>
          cases h
          exact ⟨hproblem, d, d', hd, hd', rfl⟩
  · rintro ⟨hproblem, d, d', hd, hd', rfl⟩
    simp [hproblem, hd, hd']

/-- Where printing a document as it was read gives its text again, up to a line end at the end,
changing a setting that is no table changes the text of that setting alone, and the comments of the
file are kept just when that text has none. -/
theorem apply_keeps_comments_iff {u : Update} {path : Path} {contents new : Text} {d : Document}
    (hd : Document.parse? .v11 contents = some d)
    (hprint : d.render = source contents ∨ d.render = source contents ++ ['\n'])
    (hvalue : d.HoldsValue u.table.toList u.key.toList)
    (h : u.apply path contents = .ok new) :
    ∃ before fresh behind,
      d.render = before ++ d.entryText u.table.toList u.key.toList ++ behind ∧
      new = before ++ fresh ++ behind ∧
      u.key.toList ++ [' ', '=', ' '] ++ u.written <:+: fresh ∧
      comments (source contents) = comments before ++
        comments (d.entryText u.table.toList u.key.toList) ++ comments behind ∧
      comments new = comments before ++ comments behind ∧
      ((comments (source contents)).Sublist (comments new) ↔
        comments (d.entryText u.table.toList u.key.toList) = []) := by
  obtain ⟨-, d₀, d', hd₀, hd', rfl⟩ := apply_eq_ok_iff.1 h
  obtain rfl : d₀ = d := Option.some.inj (hd₀.symm.trans hd)
  obtain ⟨fresh, ⟨hquiet, hsaid⟩, before, behind, hwas, hnow, hbefore, hbefore', hold, hfresh⟩ :=
    spliced_render (spelled_of_parse? hd) u.isMute_table u.isMute_key u.silent_written hvalue hd'
  have hcomments : comments (source contents) = comments d₀.render := by
    obtain hprint | hprint := hprint
    · rw [hprint]
    · rw [hprint, comments_append_lineEnd]
  generalize d₀.entryText u.table.toList u.key.toList = old at *
  have hwas' : comments d₀.render = comments before ++ (comments old ++ comments behind) := by
    rw [hwas, hbefore.comments_append, hold.comments_append]
  have hnow' : comments d'.render = comments before ++ comments behind := by
    rw [hnow, hbefore'.comments_append, hfresh.comments_append, hquiet, List.nil_append]
  refine ⟨before, fresh, behind, by simpa using hwas, by simpa using hnow, hsaid,
    by simpa [hcomments] using hwas', hnow', ?_⟩
  rw [hcomments, hwas', hnow']
  constructor
  · intro hsub
    have := hsub.length_le
    simp only [List.length_append] at this
    exact List.length_eq_zero_iff.1 (by omega)
  · intro hnone
    rw [hnone, List.nil_append]

/-- A file with comments above the table and behind another setting, which are kept. -/
theorem apply_keeps_comments_beside :
    ∃ before fresh behind,
      "# top\n[refresh]\nmode = \"all\"\nx = 1 # kept\n".toList =
        before ++ "mode = \"all\"\n".toList ++ behind ∧
      "# top\n[refresh]\nmode = \"specific\"\nx = 1 # kept\n".toList = before ++ fresh ++ behind ∧
      comments (before ++ fresh ++ behind) = comments before ++ comments behind := by
  let contents := "# top\n[refresh]\nmode = \"all\"\nx = 1 # kept\n".toList
  have hread : (Document.parse? .v11 contents).any fun d => d.render = source contents ∧
      d.HoldsValue "refresh".toList "mode".toList ∧
      d.entryText "refresh".toList "mode".toList = "mode = \"all\"\n".toList := by
    decide +kernel
  obtain ⟨d, hd, hd'⟩ := (Option.any_eq_true _ _).1 hread
  obtain ⟨hprint, hvalue, hentry⟩ := of_decide_eq_true hd'
  have hnew : (Update.mode .specific).apply ⟨[]⟩ contents =
      .ok "# top\n[refresh]\nmode = \"specific\"\nx = 1 # kept\n".toList := by
    decide +kernel
  obtain ⟨before, fresh, behind, hwas, hnow, -, -, hcomments, -⟩ :=
    apply_keeps_comments_iff (u := .mode .specific) hd (.inl hprint) hvalue hnew
  refine ⟨before, fresh, behind, ?_, hnow, by rw [← hnow, hcomments]⟩
  rw [← hentry]
  exact hprint.symm.trans hwas

/-- The comment behind the value of the setting is lost with the value. -/
theorem apply_loses_comment :
    ∃ new,
      (Update.mode .specific).apply ⟨[]⟩ "[refresh]\nmode = \"all\" # default\n".toList = .ok new ∧
      ¬(comments (source "[refresh]\nmode = \"all\" # default\n".toList)).Sublist
        (comments new) := by
  refine ⟨"[refresh]\nmode = \"specific\"\n".toList, by decide +kernel, ?_⟩
  have hwas : comments (source "[refresh]\nmode = \"all\" # default\n".toList) =
      ["# default".toList] := by
    decide +kernel
  have hnow : comments "[refresh]\nmode = \"specific\"\n".toList = [] := by decide +kernel
  rw [hwas, hnow]
  simp

end SkinLint.Config.Update
