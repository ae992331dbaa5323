import SkinLint.Proofs.Toml.Quoted
import SkinLint.Toml.Reader

/-!
# The comments of a text

A comment runs from a `#` that stands in no string to the end of its line. A text is closed if
nothing in it reaches beyond its end, so that its comments are found whatever comes next.
-/
namespace SkinLint.Toml
open Quoted (Unquoted)

/-- The comments of a text, in their order; its first `skip` characters belong to a string or
comment already met. -/
def commentsFrom : Nat → Text → List Text
  | _, [] => []
  | skip + 1, _ :: t => commentsFrom skip t
  | 0, c :: t =>
    if c = '#' then
      (c :: t.takeWhile (· != '\n')) :: commentsFrom (t.takeWhile (· != '\n')).length t
    else
      match Quoted.read? .v11 (c :: t) with
      | some (_, rest) => commentsFrom (t.length - rest.length) t
      | none => commentsFrom 0 t

def comments (t : Text) : List Text := commentsFrom 0 t

theorem commentsFrom_eq (skip : Nat) (t : Text) : commentsFrom skip t = comments (t.drop skip) := by
  induction t generalizing skip with
  | nil => cases skip <;> rfl
  | cons c t ih =>
    cases skip with
    | zero => rfl
    | succ skip => exact ih skip

@[simp] theorem comments_nil : comments [] = [] := rfl

theorem comments_hash (t : Text) :
    comments ('#' :: t) =
      ('#' :: t.takeWhile (· != '\n')) :: comments (t.dropWhile (· != '\n')) := by
  rw [comments, commentsFrom, if_pos rfl, commentsFrom_eq, Quoted.drop_length_takeWhile]

/-- Characters that start neither a comment nor a string. -/
def isMute (c : Char) : Bool := c != '#' && c != '"' && c != '\''

theorem comments_of_read?_eq_none {c : Char} {t : Text} (hc : c ≠ '#')
    (h : Quoted.read? .v11 (c :: t) = none) : comments (c :: t) = comments t := by
  rw [comments, commentsFrom, if_neg hc, h]
  rfl

theorem comments_cons {c : Char} (hc : isMute c) (t : Text) : comments (c :: t) = comments t :=
  comments_of_read?_eq_none (by rintro rfl; cases hc) (Quoted.read?_cons (by simp_all [isMute]) t)

theorem comments_of_read? {t x r : Text} (h : Quoted.read? .v11 t = some (x, r)) :
    comments t = comments r := by
  obtain ⟨q, w, hq, rfl, -⟩ := Quoted.read?_cut h
  rw [List.cons_append] at h ⊢
  rw [comments, commentsFrom, if_neg (by rintro rfl; simp at hq), h]
  have hlen : (w ++ q :: r).length - r.length = (w ++ [q]).length := by
    simp only [List.length_append, List.length_cons, List.length_nil]
    omega
  have hdrop : (w ++ q :: r).drop (w ++ [q]).length = r := by
    simp
  simp only [commentsFrom_eq, hlen, hdrop]

/-- A line end behind a text does not change what goes on with it. -/
theorem follows_lineEnd (r : Text) :
    (Unquoted (r ++ ['\n']) ∨ (r ++ ['\n']).head? = r.head?) ∧
      (Unquoted r ∨ r.head? = (r ++ ['\n']).head?) := by
  cases r with
  | nil => exact ⟨.inl (by simp [Unquoted]), .inl (by simp [Unquoted])⟩
  | cons c r => exact ⟨.inr rfl, .inr rfl⟩

theorem read?_append_lineEnd (t : Text) :
    Quoted.read? .v11 (t ++ ['\n']) =
      (Quoted.read? .v11 t).map fun found => (found.1, found.2 ++ ['\n']) := by
  cases hread : Quoted.read? .v11 t with
  | some found =>
    obtain ⟨q, w, -, rfl, hagain⟩ := Quoted.read?_cut (s := found.2) hread
    simpa using hagain (found.2 ++ ['\n']) (follows_lineEnd found.2).1
  | none =>
    cases hread' : Quoted.read? .v11 (t ++ ['\n']) with
    | none => rfl
    | some found =>
      obtain ⟨q, w, hq, ht, hagain⟩ := Quoted.read?_cut (s := found.2) hread'
      -- the line end is not the closing quote
      obtain hnil | ⟨r, c, hr⟩ := List.eq_nil_or_concat found.2
      · have := congrArg List.getLast? ht
        simp [hnil] at this
        grind
      · rw [hr, List.concat_eq_append] at ht hagain
        obtain ⟨rfl, hc⟩ := List.append_inj' (ht.trans (List.append_assoc _ (q :: r) [c]).symm) rfl
        obtain rfl : '\n' = c := by simpa using hc
        cases hread.symm.trans (hagain r (follows_lineEnd r).2)

/-- A line end behind all else adds nothing to the comments. -/
theorem comments_append_lineEnd (t : Text) : comments (t ++ ['\n']) = comments t := by
  induction hlen : t.length using Nat.strong_induction_on generalizing t with
  | _ len ih =>
    have ih (r : Text) (hr : r.length < t.length) : comments (r ++ ['\n']) = comments r :=
      ih r.length (hlen ▸ hr) r rfl
    cases t with
    | nil => exact comments_cons (by decide) []
    | cons c t =>
      by_cases hc : c = '#'
      · subst hc
        have hdrop := ih (t.dropWhile (· != '\n'))
          (Nat.lt_succ_of_le (List.dropWhile_sublist _).length_le)
        have hwhole : t.takeWhile (· != '\n') ++ t.dropWhile (· != '\n') = t :=
          List.takeWhile_append_dropWhile
        rw [List.cons_append, comments_hash, comments_hash, List.takeWhile_append,
          List.dropWhile_append]
        by_cases hnone : t.dropWhile (· != '\n') = []
        · rw [hnone, List.append_nil] at hwhole
          simp [hwhole, hnone, comments_cons (c := '\n') (by decide)]
        · have hne : (t.takeWhile (· != '\n')).length ≠ t.length := by
            have hlen := congrArg List.length hwhole
            have := List.length_pos_iff.2 hnone
            rw [List.length_append] at hlen
            omega
          rw [if_neg hne, if_neg (by simpa using hnone), hdrop]
      · have hread' := read?_append_lineEnd (c :: t)
        rw [List.cons_append] at hread' ⊢
        cases hread : Quoted.read? .v11 (c :: t) with
        | none =>
          rw [hread] at hread'
          rw [comments_of_read?_eq_none hc hread, comments_of_read?_eq_none hc hread']
          exact ih t (by simp)
        | some found =>
          rw [hread] at hread'
          obtain ⟨q, w, -, ht, -⟩ := Quoted.read?_cut (s := found.2) hread
          rw [comments_of_read? (r := found.2) hread,
            comments_of_read? (r := found.2 ++ ['\n']) hread']
          refine ih found.2 ?_
          rw [ht]
          simp
          omega

/-- Behind the text comments are found as if it were not there. -/
def Closed (w : Text) : Prop := ∀ r, comments (w ++ r) = comments w ++ comments r

/-- The same for a text that may end with a string, behind which no quote stands. -/
def Token (w : Text) : Prop := ∀ r, Unquoted r → comments (w ++ r) = comments w ++ comments r

theorem Closed.token {w : Text} (h : Closed w) : Token w := fun r _ => h r

theorem closed_nil : Closed [] := fun _ => rfl

theorem Closed.append {w w' : Text} (h : Closed w) (h' : Closed w') : Closed (w ++ w') := by
  intro r
  rw [List.append_assoc, h, h', h, List.append_assoc]

theorem Closed.append_token {w w' : Text} (h : Closed w) (h' : Token w') : Token (w ++ w') := by
  intro r hr
  rw [List.append_assoc, h, h' r hr, h, List.append_assoc]

theorem Closed.comments_append {w : Text} (h : Closed w) (r : Text) :
    comments (w ++ r) = comments w ++ comments r := h r

theorem Token.append_closed {w w' : Text} (h : Token w) (h' : Closed w') (hw' : Unquoted w')
    (hne : w' ≠ []) : Closed (w ++ w') := by
  intro r
  rw [List.append_assoc, h _ (hw'.append hne r), h', h _ hw', List.append_assoc]

theorem Token.append_token {w w' : Text} (h : Token w) (h' : Closed w') (hw' : Unquoted w') :
    Token (w ++ w') := by
  by_cases hne : w' = []
  · subst hne
    simpa using h
  · exact (h.append_closed h' hw' hne).token

def Quiet (w : Text) : Prop := ∀ r, comments (w ++ r) = comments r

def Silent (w : Text) : Prop := ∀ r, Unquoted r → comments (w ++ r) = comments r

theorem Quiet.comments_eq {w : Text} (h : Quiet w) : comments w = [] := by simpa using h []

theorem Quiet.closed {w : Text} (h : Quiet w) : Closed w := fun r => by rw [h, h.comments_eq]; rfl

theorem Quiet.silent {w : Text} (h : Quiet w) : Silent w := fun r _ => h r

theorem Silent.comments_eq {w : Text} (h : Silent w) : comments w = [] := by
  simpa using h [] (by simp [Unquoted])

theorem Silent.token {w : Text} (h : Silent w) : Token w := fun r hr => by
  rw [h r hr, h.comments_eq]
  rfl

theorem Quiet.append {w w' : Text} (h : Quiet w) (h' : Quiet w') : Quiet (w ++ w') := fun r => by
  rw [List.append_assoc, h, h']

theorem Quiet.append_silent {w w' : Text} (h : Quiet w) (h' : Silent w') : Silent (w ++ w') :=
  fun r hr => by rw [List.append_assoc, h, h' r hr]

theorem Silent.append_quiet {w w' : Text} (h : Silent w) (h' : Quiet w') (hw' : Unquoted w')
    (hne : w' ≠ []) : Quiet (w ++ w') := fun r => by
  rw [List.append_assoc, h _ (hw'.append hne r), h']

theorem quiet_of_mute {w : Text} (hw : ∀ c ∈ w, isMute c) : Quiet w := by
  intro r
  induction w with
  | nil => rfl
  | cons c w ih =>
    rw [List.cons_append, comments_cons (hw c List.mem_cons_self)]
    exact ih fun d hd => hw d (List.mem_cons_of_mem c hd)

theorem closed_of_mute {w : Text} (hw : ∀ c ∈ w, isMute c) : Closed w := (quiet_of_mute hw).closed

theorem isMute_of_class {p : Char → Bool} {c : Char}
    (hp : (p '#' || p '"' || p '\'') = false) (h : p c) : isMute c := by
  grind [isMute]

theorem isMute_of_mem_takeWhile {p : Char → Bool} (hp : (p '#' || p '"' || p '\'') = false)
    {t : Text} {c : Char} (hc : c ∈ t.takeWhile p) : isMute c :=
  isMute_of_class hp (List.mem_takeWhile_imp hc)

theorem closed_lineEnd : Closed ['\n'] := closed_of_mute (by simp [isMute])

theorem closed_comment {line : Text} (h : '\n' ∉ line) : Closed ('#' :: line ++ ['\n']) := by
  have hline (r : Text) : comments ('#' :: line ++ '\n' :: r) = ('#' :: line) :: comments r := by
    have hall : ∀ c ∈ line, (c != '\n') = true := by grind
    rw [List.cons_append, comments_hash, List.takeWhile_append_of_pos hall,
      List.dropWhile_append_of_pos hall]
    simp [comments_cons (c := '\n') (by decide)]
  intro r
  rw [List.append_assoc, List.singleton_append, hline, hline]
  simp

/-- A text that reads as a string, whatever follows it, is a token without comments. -/
theorem silent_of_reads {w x : Text}
    (h : ∀ r, Unquoted r → Quoted.read? .v11 (w ++ r) = some (x, r)) : Silent w :=
  fun r hr => comments_of_read? (h r hr)

end SkinLint.Toml
