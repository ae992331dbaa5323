import SkinLint.Proofs.Toml.Quoted

/-!
# Writing strings

Whatever form a text is written in, the same text is read again, `read?_write`. Each form has its
own reader; the long forms need that three quotes in a row are found at the end only.
-/
namespace SkinLint.Toml.Quoted

theorem scalar?_control : ∀ n < 128,
    scalar? ['0', '0', upperHexDigit (n / 16), upperHexDigit (n % 16)] = some (Char.ofNat n) := by
  decide +kernel

/-- A character is written as it is, or as an escape that stands for it. -/
theorem escapeChar_cases (long : Bool) (c : Char) (e : Edition) :
    (escapeChar long c = [c] ∧ c ≠ '\\' ∧ (isPlain c ∨ long ∧ c = '\n')) ∨
      ∃ d w, escapeChar long c = '\\' :: d :: w ∧ isSpace d = false ∧ d ≠ '\n' ∧
        ∀ s, escape? e (d :: (w ++ s)) = some (c, w.length + 1) := by
  unfold escapeChar
  split
  next h => exact .inr ⟨'t', [], by simp_all [escape?, isSpace]⟩
  split
  next h =>
    cases long with
    | false => exact .inr ⟨'n', [], by simp_all [escape?, isSpace]⟩
    | true => exact .inl (by simp_all)
  split
  next h => exact .inr ⟨'\\', [], by simp_all [escape?, isSpace]⟩
  split
  next h => exact .inr ⟨'r', [], by simp_all [escape?, isSpace]⟩
  split
  next h =>
    obtain rfl : c = Char.ofNat 8 := by rw [← Char.ofNat_toNat c, eq_of_beq h]
    exact .inr ⟨'b', [], by simp [escape?, isSpace]⟩
  split
  next h =>
    obtain rfl : c = Char.ofNat 12 := by rw [← Char.ofNat_toNat c, eq_of_beq h]
    exact .inr ⟨'f', [], by simp [escape?, isSpace]⟩
  split
  next h =>
    have hlt : c.toNat < 128 := by grind [isControl]
    have hc := scalar?_control c.toNat hlt
    rw [Char.ofNat_toNat] at hc
    refine .inr ⟨'u', _, rfl, by decide, by decide, fun s => ?_⟩
    simp [escape?, hc]
  next => exact .inl (by grind [isControl, isPlain])

theorem basicFrom?_skip (e : Edition) (w s : Text) :
    basicFrom? e w.length (w ++ s) = basicFrom? e 0 s := by
  induction w with
  | nil => rfl
  | cons c w ih => exact ih

theorem basicFrom?_escapeChar (e : Edition) {c : Char} (hc : c ≠ '"') (s : Text) :
    basicFrom? e 0 (escapeChar false c ++ s) = (basicFrom? e 0 s).map (prepend c) := by
  obtain ⟨heq, hb, hplain⟩ | ⟨d, w, heq, -, -, hesc⟩ := escapeChar_cases false c e
  · have hplain : isPlain c := by simpa using hplain
    rw [heq, List.singleton_append, basicFrom?.eq_5 _ _ _ hc hb, if_pos hplain]
  · rw [heq]
    simp only [List.cons_append, basicFrom?, hesc, basicFrom?_skip]

theorem basicFrom?_escapeFrom (e : Edition) (t r : Text) :
    basicFrom? e 0 (escapeFrom false 0 0 t ++ '"' :: r) = some (t, r) := by
  induction t with
  | nil => rfl
  | cons c t ih =>
    by_cases hc : c = '"'
    · subst hc
      simp [escapeFrom, basicFrom?, escape?, ih, prepend]
    · simp [escapeFrom, hc, basicFrom?_escapeChar, ih, prepend]

theorem literal?_append {t : Text} (ht : ∀ c ∈ t, c ≠ '\'' ∧ isPlain c) (r : Text) :
    literal? (t ++ '\'' :: r) = some (t, r) := by
  induction t with
  | nil => rfl
  | cons c t ih =>
    obtain ⟨hc, hplain⟩ := ht c List.mem_cons_self
    have := ih fun d hd => ht d (List.mem_cons_of_mem c hd)
    simp [literal?, hplain, this, prepend]

theorem longBasicFrom?_skip (e : Edition) (w s : Text) :
    longBasicFrom? e w.length false (w ++ s) = longBasicFrom? e 0 false s := by
  induction w with
  | nil => rfl
  | cons c w ih => exact ih

theorem longBasicFrom?_escapeChar (e : Edition) {c : Char} (hc : c ≠ '"') (s : Text) :
    longBasicFrom? e 0 false (escapeChar true c ++ s) =
      (longBasicFrom? e 0 false s).map (prepend c) := by
  obtain ⟨heq, hb, hplain⟩ | ⟨d, w, heq, hspace, hline, hesc⟩ := escapeChar_cases true c e
  · have hplain : (isPlain c || c == '\n') = true := by simpa using hplain
    rw [heq, List.singleton_append, longBasicFrom?_cons hb (fun s h => absurd h hc),
      if_neg (by simp), if_pos hplain]
  · have hend : atLineEnd (d :: (w ++ s)) = false := by simp [atLineEnd, hspace, hline]
    rw [heq]
    simp only [List.cons_append, longBasicFrom?, hend, hesc, longBasicFrom?_skip]
    rfl

theorem head?_escapeFrom {k : Nat} {t : Text} (h : t.head? ≠ some '"' ∨ k = 0) (hne : t ≠ [])
    (s : Text) : (escapeFrom true 2 k t ++ s).head? ≠ some '"' := by
  cases t with
  | nil => exact absurd rfl hne
  | cons c t =>
    by_cases hc : c = '"'
    · subst hc
      obtain rfl : k = 0 := by simpa using h
      simp [escapeFrom]
    · obtain ⟨heq, -⟩ | ⟨d, w, heq, -⟩ := escapeChar_cases true c .v10
      · simp [escapeFrom, hc, heq]
      · simp [escapeFrom, hc, heq]

/-- A quote that two others do not follow belongs to the string. -/
theorem longBasicFrom?_quote (e : Edition) {s : Text} (h : ∀ s', s ≠ '"' :: '"' :: s') :
    longBasicFrom? e 0 false ('"' :: s) = (longBasicFrom? e 0 false s).map (prepend '"') := by
  rw [longBasicFrom?_cons (by decide) fun s' _ => h s', if_neg (by simp), if_pos (by decide)]

/-- Behind a quote two others follow only at the end of the text. -/
theorem quotes_cases {k : Nat} (hk : k ≤ 1) (t r : Text) :
    t = [] ∨ (t = ['"'] ∧ k = 1) ∨
      ∀ s, escapeFrom true 2 k t ++ '"' :: '"' :: '"' :: r ≠ '"' :: '"' :: s := by
  by_cases hquote : t.head? = some '"' ∧ k = 1
  · obtain ⟨⟨t, rfl⟩, rfl⟩ : (∃ t', t = '"' :: t') ∧ k = 1 := by
      cases t <;> simp_all
    by_cases hne : t = []
    · exact .inr (.inl ⟨by rw [hne], rfl⟩)
    · refine .inr (.inr fun s hs => ?_)
      refine head?_escapeFrom (k := 0) (.inr rfl) hne ('"' :: '"' :: '"' :: r) ?_
      exact congrArg List.head? (List.cons.inj hs).2
  · by_cases hne : t = []
    · exact .inl hne
    · refine .inr (.inr fun s hs => ?_)
      refine head?_escapeFrom (k := k) (by grind) hne ('"' :: '"' :: '"' :: r) ?_
      exact congrArg List.head? hs

theorem longBasicFrom?_escapeFrom (e : Edition) {k : Nat} (hk : k ≤ 2) (t : Text) {r : Text}
    (hr : r.head? ≠ some '"') :
    longBasicFrom? e 0 false (escapeFrom true 2 k t ++ '"' :: '"' :: '"' :: r) = some (t, r) := by
  induction t generalizing k with
  | nil =>
    have := close_replicate '"' (n := 0) (by decide) hr
    simpa [escapeFrom, longBasicFrom?] using this
  | cons c t ih =>
    by_cases hc : c = '"'
    · subst hc
      cases k with
      | zero =>
        have hend : atLineEnd ('"' :: (escapeFrom true 2 2 t ++ '"' :: '"' :: '"' :: r)) = false :=
          rfl
        simp [escapeFrom, longBasicFrom?, hend, escape?, ih, prepend]
      | succ k =>
        have hstep : escapeFrom true 2 (k + 1) ('"' :: t) = '"' :: escapeFrom true 2 k t := rfl
        rw [hstep, List.cons_append]
        obtain rfl | ⟨rfl, rfl⟩ | hnot := quotes_cases (Nat.le_of_succ_le_succ hk) t r
        · simpa [escapeFrom, longBasicFrom?] using close_replicate '"' (n := 1) (by decide) hr
        · simpa [escapeFrom, longBasicFrom?] using close_replicate '"' (n := 2) (by decide) hr
        · rw [longBasicFrom?_quote e hnot, ih (by omega)]
          rfl
    · simp [escapeFrom, hc, longBasicFrom?_escapeChar, ih, prepend]

/-- One character more of the longest run, and the run that it ends. -/
def runStep (quote : Char) (acc : Nat × Nat) (c : Char) : Nat × Nat :=
  let run := if c == quote then acc.1 + 1 else 0
  (run, max run acc.2)

theorem longestRun_eq (quote : Char) (t : Text) :
    longestRun quote t = (t.foldl (runStep quote) (0, 0)).2 := rfl

theorem foldl_runStep_mono (quote : Char) (t : Text) {a b : Nat × Nat} (h₁ : a.1 ≤ b.1)
    (h₂ : a.2 ≤ b.2) : (t.foldl (runStep quote) a).2 ≤ (t.foldl (runStep quote) b).2 := by
  induction t generalizing a b with
  | nil => exact h₂
  | cons c t ih => apply ih <;> grind [runStep]

theorem le_foldl_runStep (quote : Char) (t : Text) (a : Nat × Nat) :
    a.2 ≤ (t.foldl (runStep quote) a).2 := by
  induction t generalizing a with
  | nil => exact Nat.le_refl _
  | cons c t ih => exact Nat.le_trans (Nat.le_max_right _ _) (ih (runStep quote a c))

theorem longestRun_le_cons (quote c : Char) (t : Text) :
    longestRun quote t ≤ longestRun quote (c :: t) :=
  foldl_runStep_mono quote t (Nat.zero_le _) (Nat.zero_le _)

theorem three_le_longestRun (quote : Char) (t : Text) :
    3 ≤ longestRun quote (quote :: quote :: quote :: t) := by
  have := le_foldl_runStep quote t (3, 3)
  simpa [longestRun_eq, runStep] using this

theorem longLiteral?_append {t : Text} (ht : ∀ c ∈ t, (isPlain c || c == '\n') = true)
    (hrun : longestRun '\'' t < 3) {r : Text} (hr : r.head? ≠ some '\'') :
    longLiteral? (t ++ '\'' :: '\'' :: '\'' :: r) = some (t, r) := by
  induction t with
  | nil => simpa [longLiteral?] using close_replicate '\'' (n := 0) (by decide) hr
  | cons c t ih =>
    have ih := ih (fun d hd => ht d (List.mem_cons_of_mem c hd))
      (Nat.lt_of_le_of_lt (longestRun_le_cons _ c t) hrun)
    by_cases hq : ∃ s, c = '\'' ∧ t ++ '\'' :: '\'' :: '\'' :: r = '\'' :: '\'' :: s
    · -- three apostrophes in a row: the text ends with one or two of them
      obtain ⟨s, rfl, hs⟩ := hq
      obtain _ | ⟨d, _ | ⟨d', t⟩⟩ := t
      · simpa [longLiteral?] using close_replicate '\'' (n := 1) (by decide) hr
      · obtain rfl : d = '\'' := (List.cons.inj hs).1
        simpa [longLiteral?] using close_replicate '\'' (n := 2) (by decide) hr
      · obtain rfl : d = '\'' := (List.cons.inj hs).1
        obtain rfl : d' = '\'' := (List.cons.inj (List.cons.inj hs).2).1
        exact absurd hrun (Nat.not_lt.2 (three_le_longestRun '\'' t))
    · rw [List.cons_append, longLiteral?_cons (fun s hc hs => hq ⟨s, hc, hs⟩),
        if_pos (ht c List.mem_cons_self), ih]
      rfl

theorem isPlain_of_not_isControl {c : Char} (h : isControl c = false) :
    (isPlain c || c == '\n') = true := by
  grind [isControl, isPlain]

theorem dropLineEnd_lineStart {t w : Text} (s : Text) (h : '\n' ∉ t → (w ++ s).head? ≠ some '\n') :
    dropLineEnd (lineStart t ++ w ++ s) = w ++ s := by
  unfold lineStart
  split
  · rfl
  · refine dropLineEnd.eq_2 _ fun t' ht => h (by simp_all) ?_
    rw [List.nil_append] at ht
    rw [ht]
    rfl

theorem head?_escapeFrom_ne_lineEnd {t : Text} (h : '\n' ∉ t) (s : Text) :
    (escapeFrom true 2 2 t ++ '"' :: s).head? ≠ some '\n' := by
  cases t with
  | nil => simp [escapeFrom]
  | cons c t =>
    obtain ⟨hc, -⟩ : c ≠ '\n' ∧ '\n' ∉ t := by grind
    by_cases hq : c = '"'
    · simp [escapeFrom, hq]
    · obtain ⟨heq, -⟩ | ⟨d, w, heq, -⟩ := escapeChar_cases true c .v10
      · simp [escapeFrom, hq, heq, hc]
      · simp [escapeFrom, hq, heq]

/-- What was written is read again, in whichever form. -/
theorem read?_write (e : Edition) (t : Text) {r : Text} (hr : Unquoted r) :
    read? e (write t ++ r) = some (t, r) := by
  have hbasic : read? e (writeBasic t ++ r) = some (t, r) := by
    refine read?_of_readShort? ?_ hr
    simpa [writeBasic, readShort?] using basicFrom?_escapeFrom e t r
  have hlong : read? e (writeLongBasic t ++ r) = some (t, r) := by
    have := longBasicFrom?_escapeFrom e (Nat.le_refl 2) t hr.1
    rw [← dropLineEnd_lineStart _ fun h => head?_escapeFrom_ne_lineEnd h _] at this
    simpa [writeLongBasic, read?] using this
  have hplain (h : t.any isControl = false) : ∀ c ∈ t, (isPlain c || c == '\n') = true :=
    fun c hc => isPlain_of_not_isControl (by simpa using List.any_eq_false.1 h c hc)
  unfold write
  dsimp only
  split_ifs with h₁ h₂ h₃ h₄ h₅
  · exact hbasic
  · refine read?_of_readShort? ?_ hr
    have : ∀ c ∈ t, c ≠ '\'' ∧ isPlain c := by
      intro c hc
      have := hplain (by simp_all) c hc
      grind
    simpa [writeLiteral, readShort?] using literal?_append this r
  · exact hlong
  · have := longLiteral?_append (hplain (by simp_all)) (by simp_all) hr.2
    rw [← dropLineEnd_lineStart (t := t) _ fun h => by cases t <;> grind] at this
    simpa [writeLongLiteral, read?] using this
  · exact hbasic
  · exact hlong

end SkinLint.Toml.Quoted
