import SkinLint.Proofs.Colour.Literals

/-!
# Words on a line

A line falls into maximal runs of word characters. Runs of one to three digits are numbers, and
numbers with a comma and a gap between them form chains. Runs that share a column are the same run,
and a number is linked to at most one other on each side, so its place in its chain is settled by
the line alone. A literal is read at a column exactly where a run of six hexadecimal digits or three
linked numbers start.
-/
namespace SkinLint.Colour
open Text

section Columns

/-- A part of a line: the columns from `start` on, up to but without `stop`. -/
@[ext]
structure Span where
  start : Nat
  stop : Nat
deriving DecidableEq, Repr

def Span.text (line : Text) (s : Span) : Text := line.extract s.start s.stop

def wordAt (t : Text) (n : Nat) : Bool := t[n]?.any isWord

def wordBefore (line : Text) : Nat → Bool
  | 0 => false
  | n + 1 => wordAt line n

variable {line t u : Text} {n : Nat}

theorem startsWord_drop (line : Text) (n : Nat) : startsWord (line.drop n) = wordAt line n := by
  rw [startsWord, List.head?_drop, wordAt]

theorem lt_length_of_wordAt (h : wordAt line n = true) : n < line.length := by
  by_contra hge
  rw [wordAt, List.getElem?_eq_none (Nat.not_lt.mp hge)] at h
  cases h

theorem drop_add_of_drop (h : line.drop n = u ++ t) : line.drop (n + u.length) = t := by
  rw [← List.drop_drop, h, List.drop_left]

theorem extract_of_drop (h : line.drop n = u ++ t) : line.extract n (n + u.length) = u := by
  rw [List.extract_eq_take_drop, Nat.add_sub_cancel_left, h, List.take_left]

theorem drop_eq_extract_append {start stop : Nat} (h : start ≤ stop) :
    line.drop start = line.extract start stop ++ line.drop stop := by
  have hdrop : line.drop stop = (line.drop start).drop (stop - start) := by
    rw [List.drop_drop, Nat.add_sub_cancel' h]
  rw [List.extract_eq_take_drop, hdrop, List.take_append_drop]

theorem wordAt_of_drop {b : Bool} {i : Nat} (h : line.drop n = u ++ t)
    (hall : ∀ c ∈ u, isWord c = b) (hi : i < u.length) : wordAt line (n + i) = b := by
  rw [wordAt, ← List.getElem?_drop, h, List.getElem?_append_left hi, List.getElem?_eq_getElem hi]
  exact hall _ (List.getElem_mem hi)

theorem wordBefore_of_drop {b : Bool} (h : line.drop n = u ++ t) (hu : u ≠ [])
    (hall : ∀ c ∈ u, isWord c = b) : wordBefore line (n + u.length) = b := by
  have hpos := List.length_pos_of_ne_nil hu
  obtain ⟨i, hi⟩ : ∃ i, u.length = i + 1 := ⟨u.length - 1, by omega⟩
  rw [hi]
  exact wordAt_of_drop h hall (by omega)

end Columns

section Runs

/-- A maximal run of word characters. -/
structure IsRun (line : Text) (w : Span) : Prop where
  start_lt : w.start < w.stop
  word : ∀ n, w.start ≤ n → n < w.stop → wordAt line n = true
  before : wordBefore line w.start = false
  after : wordAt line w.stop = false

structure IsNumberRun (line : Text) (w : Span) : Prop extends IsRun line w where
  number : IsNumber (w.text line)

variable {line : Text} {v w : Span}

theorem IsRun.start_lt_length (h : IsRun line w) : w.start < line.length :=
  lt_length_of_wordAt (h.word w.start le_rfl h.start_lt)

theorem IsRun.stop_le_length (h : IsRun line w) : w.stop ≤ line.length := by
  have hlt := h.start_lt
  have hlast := lt_length_of_wordAt (h.word (w.stop - 1) (by omega) (by omega))
  omega

theorem IsRun.wordBefore_stop (h : IsRun line w) : wordBefore line w.stop = true := by
  have hlt := h.start_lt
  obtain ⟨n, hn⟩ : ∃ n, w.stop = n + 1 := ⟨w.stop - 1, by omega⟩
  rw [hn]
  exact h.word n (by omega) (by omega)

/-- No run starts inside another one, except at its start. -/
theorem IsRun.start_le (hv : IsRun line v) (hw : IsRun line w) (h : w.start < v.stop) :
    w.start ≤ v.start := by
  by_contra hlt
  obtain ⟨n, hn⟩ : ∃ n, w.start = n + 1 := ⟨w.start - 1, by omega⟩
  have hbefore := hw.before
  rw [hn, wordBefore, hv.word n (by omega) (by omega)] at hbefore
  cases hbefore

theorem IsRun.stop_le (hv : IsRun line v) (hw : IsRun line w) (h : v.start ≤ w.stop) :
    v.stop ≤ w.stop := by
  by_contra hlt
  have hafter := hw.after
  rw [hv.word w.stop h (by omega)] at hafter
  cases hafter

theorem IsRun.eq_of_overlap (hv : IsRun line v) (hw : IsRun line w) (h : v.start < w.stop)
    (h' : w.start < v.stop) : v = w := by
  ext
  · exact Nat.le_antisymm (hw.start_le hv h) (hv.start_le hw h')
  · exact Nat.le_antisymm (hv.stop_le hw h.le) (hw.stop_le hv h'.le)

theorem isRun_of_drop {n : Nat} {u t : Text} (h : line.drop n = u ++ t) (hu : u ≠ [])
    (hword : ∀ c ∈ u, isWord c = true) (hbefore : wordBefore line n = false)
    (hafter : startsWord t = false) : IsRun line ⟨n, n + u.length⟩ where
  start_lt := Nat.lt_add_of_pos_right (List.length_pos_of_ne_nil hu)
  word m hle hlt := by
    obtain ⟨i, rfl⟩ := Nat.exists_eq_add_of_le hle
    exact wordAt_of_drop h hword (Nat.lt_of_add_lt_add_left hlt)
  before := hbefore
  after := by rw [← startsWord_drop, drop_add_of_drop h, hafter]

theorem isNumberRun_of_drop {n : Nat} {u t : Text} (h : line.drop n = u ++ t) (hu : IsNumber u)
    (hbefore : wordBefore line n = false) (hafter : startsWord t = false) :
    IsNumberRun line ⟨n, n + u.length⟩ where
  toIsRun := isRun_of_drop h (List.ne_nil_of_length_pos hu.one_le)
    (fun c hc => isWord_of_isDigit (hu.digits c hc)) hbefore hafter
  number := by rwa [Span.text, extract_of_drop h]

theorem not_isNumberRun_of_length (h : (w.text line).length = 6) : ¬IsNumberRun line w := by
  intro hw
  have hle := hw.number.le_three
  omega

end Runs

section Links

/-- Two numbers with only a comma, and spaces and tabs behind it, between them. -/
structure Linked (line : Text) (a b : Span) : Prop where
  left : IsNumberRun line a
  right : IsNumberRun line b
  between : ∃ gap, IsGap gap ∧ line.extract a.stop b.start = ',' :: gap

variable {line : Text} {a b x y z w : Span}

theorem isWord_separator {gap : Text} (h : IsGap gap) : ∀ c ∈ ',' :: gap, isWord c = false := by
  intro c hc
  rcases List.mem_cons.mp hc with rfl | hc
  · decide
  · by_contra hword
    have hgap := h c hc
    rw [isGapChar_of_isWord (Bool.of_not_eq_false hword)] at hgap
    cases hgap

theorem Linked.stop_lt (h : Linked line a b) : a.stop < b.start := by
  obtain ⟨gap, -, hbetween⟩ := h.between
  by_contra hge
  rw [List.extract_eq_take_drop, Nat.sub_eq_zero_of_le (Nat.not_lt.mp hge)] at hbetween
  cases hbetween

theorem Linked.start_lt (h : Linked line a b) : a.start < b.start :=
  h.left.start_lt.trans h.stop_lt

/-- The line from a number on, up to the one it is linked to. -/
theorem Linked.exists_drop (h : Linked line a b) : ∃ gap, IsGap gap ∧
    line.drop a.start = a.text line ++ ',' :: (gap ++ line.drop b.start) := by
  obtain ⟨gap, hgap, hbetween⟩ := h.between
  refine ⟨gap, hgap, ?_⟩
  rw [drop_eq_extract_append h.left.start_lt.le, drop_eq_extract_append h.stop_lt.le, hbetween]
  rfl

theorem Linked.wordAt_eq_false (h : Linked line a b) {n : Nat} (hle : a.stop ≤ n)
    (hlt : n < b.start) : wordAt line n = false := by
  obtain ⟨gap, hgap, hbetween⟩ := h.between
  have hdrop : line.drop a.stop = _ := drop_eq_extract_append h.stop_lt.le
  have hlength := congrArg List.length hdrop
  have hstart := h.right.start_lt_length
  rw [List.length_append, List.length_drop, List.length_drop] at hlength
  obtain ⟨i, rfl⟩ := Nat.exists_eq_add_of_le hle
  exact wordAt_of_drop hdrop (hbetween ▸ isWord_separator hgap) (by omega)

/-- No run starts between two linked numbers. -/
theorem Linked.start_le (h : Linked line a b) (hw : IsRun line w) (hle : a.stop ≤ w.start) :
    b.start ≤ w.start := by
  by_contra hlt
  have hword := hw.word w.start le_rfl hw.start_lt
  rw [h.wordAt_eq_false hle (Nat.not_le.mp hlt)] at hword
  cases hword

theorem Linked.stop_le (h : Linked line a b) (hw : IsRun line w) (hle : w.stop ≤ b.start) :
    w.stop ≤ a.stop := by
  by_contra hlt
  have hpos := hw.start_lt
  have hword := hw.word (w.stop - 1) (by omega) (by omega)
  rw [h.wordAt_eq_false (by omega) (by omega)] at hword
  cases hword

theorem Linked.right_unique (h : Linked line a x) (h' : Linked line a y) : x = y := by
  have hle := h.start_le h'.right.toIsRun h'.stop_lt.le
  have hge := h'.start_le h.right.toIsRun h.stop_lt.le
  have hx := h.right.start_lt
  have hy := h'.right.start_lt
  exact h.right.eq_of_overlap h'.right.toIsRun (by omega) (by omega)

theorem Linked.left_unique (h : Linked line x b) (h' : Linked line y b) : x = y := by
  have hle := h.stop_le h'.left.toIsRun h'.stop_lt.le
  have hge := h'.stop_le h.left.toIsRun h.stop_lt.le
  have hx := h.left.start_lt
  have hy := h'.left.start_lt
  exact h.left.eq_of_overlap h'.left.toIsRun (by omega) (by omega)

theorem Linked.run_cases (h : Linked line a b) (hw : IsRun line w) (hle : a.start ≤ w.start)
    (hlt : w.start < b.stop) : w = a ∨ w = b := by
  have hpos := hw.start_lt
  rcases Nat.lt_or_ge w.start a.stop with hinside | hbehind
  · exact .inl (hw.eq_of_overlap h.left.toIsRun hinside (by omega))
  · have hstart := h.start_le hw hbehind
    exact .inr (hw.eq_of_overlap h.right.toIsRun hlt (by omega))

/-- The runs that start within three linked numbers are these numbers. -/
theorem run_cases_of_linked (hxy : Linked line x y) (hyz : Linked line y z) (hw : IsRun line w)
    (hle : x.start ≤ w.start) (hlt : w.start < z.stop) : w = x ∨ w = y ∨ w = z := by
  rcases Nat.lt_or_ge w.start y.start with hinside | hbehind
  · have hy := hxy.right.start_lt
    rcases hxy.run_cases hw hle (by omega) with h | h
    · exact .inl h
    · exact .inr (.inl h)
  · exact .inr (hyz.run_cases hw hbehind hlt)

theorem linked_of_drop {n : Nat} {u gap v t : Text}
    (h : line.drop n = u ++ ',' :: (gap ++ (v ++ t))) (hu : IsNumber u) (hgap : IsGap gap)
    (hv : IsNumber v) (hbefore : wordBefore line n = false) (hafter : startsWord t = false) :
    Linked line ⟨n, n + u.length⟩ ⟨n + u.length + (',' :: gap).length,
      n + u.length + (',' :: gap).length + v.length⟩ := by
  have hgaps : line.drop (n + u.length) = ',' :: gap ++ (v ++ t) := drop_add_of_drop h
  exact {
    left := isNumberRun_of_drop h hu hbefore (startsWord_comma _)
    right := isNumberRun_of_drop (drop_add_of_drop hgaps) hv
      (wordBefore_of_drop hgaps (List.cons_ne_nil _ _) (isWord_separator hgap)) hafter
    between := ⟨gap, hgap, extract_of_drop hgaps⟩ }

end Links

section Chains

/-- Numbers, each linked to the next, up to one that is linked to no other. -/
structure IsTail (line : Text) (ws : List Span) : Prop where
  number : ∀ w ∈ ws, IsNumberRun line w
  linked : ws.IsChain (Linked line)
  last : ∀ w ∈ ws.getLast?, ∀ b, ¬Linked line w b

/-- A maximal chain: no number is linked to its first one either. -/
structure IsMaximalChain (line : Text) (ws : List Span) : Prop extends IsTail line ws where
  first : ∀ w ∈ ws.head?, ∀ a, ¬Linked line a w

/-- A number with `k` others before it in its chain. -/
inductive Rank (line : Text) : Nat → Span → Prop
  | first {w : Span} : IsNumberRun line w → (∀ a, ¬Linked line a w) → Rank line 0 w
  | next {k : Nat} {a b : Span} : Rank line k a → Linked line a b → Rank line (k + 1) b

variable {line : Text} {w : Span}

theorem Rank.isNumberRun {k : Nat} (h : Rank line k w) : IsNumberRun line w := by
  cases h with
  | first hw _ => exact hw
  | next _ hlink => exact hlink.right

theorem Rank.unique {j k : Nat} (hj : Rank line j w) (hk : Rank line k w) : j = k := by
  induction hj generalizing k with
  | first hw hfirst =>
    cases hk with
    | first => rfl
    | next _ hlink => exact absurd hlink (hfirst _)
  | next ha hlink ih =>
    cases hk with
    | first _ hfirst => exact absurd hlink (hfirst _)
    | next hb hlink' =>
      obtain rfl := hlink.left_unique hlink'
      rw [ih hb]

theorem exists_rank {w : Span} (h : IsNumberRun line w) : ∃ k, Rank line k w := by
  by_cases hfirst : ∃ a, Linked line a w
  · obtain ⟨a, hlink⟩ := hfirst
    have hlt := hlink.start_lt
    obtain ⟨k, hk⟩ := exists_rank hlink.left
    exact ⟨k + 1, .next hk hlink⟩
  · exact ⟨0, .first h (not_exists.mp hfirst)⟩
termination_by w.start

theorem IsTail.cons {a b : Span} {ws : List Span} (h : IsTail line (b :: ws))
    (hlink : Linked line a b) : IsTail line (a :: b :: ws) where
  number := List.forall_mem_cons.mpr ⟨hlink.left, h.number⟩
  linked := List.isChain_cons_cons.mpr ⟨hlink, h.linked⟩
  last := by
    rw [List.getLast?_cons_cons]
    exact h.last

theorem exists_isTail {w : Span} (h : IsNumberRun line w) : ∃ ws, IsTail line (w :: ws) := by
  by_cases hlast : ∃ b, Linked line w b
  · obtain ⟨b, hlink⟩ := hlast
    have hlt := hlink.start_lt
    have hlength := h.start_lt_length
    obtain ⟨ws, htail⟩ := exists_isTail hlink.right
    exact ⟨b :: ws, htail.cons hlink⟩
  · refine ⟨[], by simpa using h, .singleton w, ?_⟩
    rintro v ⟨⟩
    exact not_exists.mp hlast
termination_by line.length - w.start

/-- A number of rank `k` has that place in a maximal chain. -/
theorem Rank.exists_before {k : Nat} (h : Rank line k w) {ws : List Span}
    (htail : IsTail line (w :: ws)) :
    ∃ before, before.length = k ∧ IsMaximalChain line (before ++ w :: ws) := by
  induction h generalizing ws with
  | first _ hfirst =>
    refine ⟨[], rfl, htail, ?_⟩
    rintro v ⟨⟩
    exact hfirst
  | @next k a b ha hlink ih =>
    obtain ⟨before, hlength, hchain⟩ := ih (htail.cons hlink)
    refine ⟨before ++ [a], by rw [List.length_append, hlength]; rfl, ?_⟩
    rwa [List.append_assoc]

theorem IsMaximalChain.linked_getElem? {ws : List Span} (h : IsMaximalChain line ws) {k : Nat}
    {a b : Span} (ha : ws[k]? = some a) (hb : ws[k + 1]? = some b) : Linked line a b := by
  obtain ⟨_, rfl⟩ := List.getElem?_eq_some_iff.mp ha
  obtain ⟨hlt, rfl⟩ := List.getElem?_eq_some_iff.mp hb
  exact h.linked.getElem k hlt

theorem IsMaximalChain.rank {ws : List Span} (h : IsMaximalChain line ws) {k : Nat}
    (hk : ws[k]? = some w) : Rank line k w := by
  induction k generalizing w with
  | zero =>
    rw [← List.head?_eq_getElem?] at hk
    exact .first (h.number w (List.mem_of_mem_head? hk)) (h.first w hk)
  | succ k ih =>
    have hlt := (List.getElem?_eq_some_iff.mp hk).1
    have hprevious := List.getElem?_eq_getElem (Nat.lt_of_succ_lt hlt)
    exact .next (ih hprevious) (h.linked_getElem? hprevious hk)

/-- Three linked numbers, the first of rank `k`, have the places from `k` on in a maximal chain. -/
theorem Rank.exists_isMaximalChain {k : Nat} {x y z : Span} (h : Rank line k x)
    (hxy : Linked line x y) (hyz : Linked line y z) :
    ∃ ws, IsMaximalChain line ws ∧ ws[k]? = some x ∧ ws[k + 1]? = some y ∧
      ws[k + 2]? = some z := by
  obtain ⟨ws, htail⟩ := exists_isTail hyz.right
  obtain ⟨before, rfl, hchain⟩ := h.exists_before ((htail.cons hyz).cons hxy)
  refine ⟨_, hchain, ?_, ?_, ?_⟩ <;> simp

end Chains

section Literals

/-- What is read as a literal, and what it stands for: three linked numbers, or a run of six
hexadecimal digits. -/
inductive Literal (line : Text) : Span → Option (Colour × Form) → Prop
  | rgb {x y z : Span} : Linked line x y → Linked line y z →
    Literal line ⟨x.start, z.stop⟩
      ((ofTriple? (x.text line) (y.text line) (z.text line)).map (·, .rgb))
  | hex {w : Span} {a b c d e f : Char} : IsRun line w → w.text line = [a, b, c, d, e, f] →
    (∀ x ∈ [a, b, c, d, e, f], isHexDigit x = true) →
    Literal line w (some (⟨pair a b, pair c d, pair e f, 255⟩, .hex))

variable {line : Text} {s : Span} {found : Option (Colour × Form)}

/-- A literal that is spelled at a column, up to the end of a word. -/
theorem literal_of_drop {n : Nat} {lit rest : Text} (hbefore : wordBefore line n = false)
    (hdrop : line.drop n = lit ++ rest) (hlit : Spells lit found)
    (hrest : startsWord rest = false) : Literal line ⟨n, n + lit.length⟩ found := by
  cases hlit with
  | @rgb a gap b gap' c ha hgap hb hgap' hc =>
    simp only [List.append_assoc, List.cons_append] at hdrop
    have hgap₁ : line.drop (n + a.length) = ',' :: gap ++ _ := drop_add_of_drop hdrop
    have hb₁ := drop_add_of_drop hgap₁
    have hgap₂ : line.drop _ = ',' :: gap' ++ _ := drop_add_of_drop hb₁
    have hxy := linked_of_drop hdrop ha hgap hb hbefore (startsWord_comma _)
    have hyz := linked_of_drop hb₁ hb hgap' hc hxy.right.before hrest
    have hliteral := Literal.rgb hxy hyz
    rw [Span.text, Span.text, Span.text, extract_of_drop hdrop, extract_of_drop hb₁,
      extract_of_drop (drop_add_of_drop hgap₂)] at hliteral
    convert hliteral using 2
    simp only [List.length_append, List.length_cons]
    omega
  | @hex a b c d e f hdigits =>
    refine .hex (isRun_of_drop hdrop (List.cons_ne_nil _ _) ?_ hbefore hrest)
      (extract_of_drop hdrop) hdigits
    exact fun x hx => isWord_of_isHexDigit (hdigits x hx)

theorem Literal.wordBefore_start (h : Literal line s found) : wordBefore line s.start = false := by
  cases h with
  | rgb hxy _ => exact hxy.left.before
  | hex hw _ _ => exact hw.before

theorem Literal.wordBefore_stop (h : Literal line s found) : wordBefore line s.stop = true := by
  cases h with
  | rgb _ hyz => exact hyz.right.wordBefore_stop
  | hex hw _ _ => exact hw.wordBefore_stop

theorem Literal.start_lt (h : Literal line s found) : s.start < s.stop := by
  cases h with
  | rgb hxy hyz => exact hxy.start_lt.trans (hyz.start_lt.trans hyz.right.start_lt)
  | hex hw _ _ => exact hw.start_lt

theorem Literal.stop_le_length (h : Literal line s found) : s.stop ≤ line.length := by
  cases h with
  | rgb _ hyz => exact hyz.right.stop_le_length
  | hex hw _ _ => exact hw.stop_le_length

theorem Literal.exists_drop (h : Literal line s found) :
    ∃ lit, line.drop s.start = lit ++ line.drop s.stop ∧ Spells lit found ∧
      s.stop = s.start + lit.length ∧ startsWord (line.drop s.stop) = false := by
  have hspelled : ∃ lit, line.drop s.start = lit ++ line.drop s.stop ∧ Spells lit found ∧
      wordAt line s.stop = false := by
    cases h with
    | rgb hxy hyz =>
      obtain ⟨gap, hgap, hx⟩ := hxy.exists_drop
      obtain ⟨gap', hgap', hy⟩ := hyz.exists_drop
      have hz : line.drop _ = _ := drop_eq_extract_append hyz.right.start_lt.le
      refine ⟨_, ?_, .rgb hxy.left.number hgap hxy.right.number hgap' hyz.right.number,
        hyz.right.after⟩
      rw [hx, hy, hz]
      simp [Span.text]
    | hex hw htext hdigits =>
      refine ⟨_, ?_, .hex hdigits, hw.after⟩
      rw [← htext]
      exact drop_eq_extract_append hw.start_lt.le
  obtain ⟨lit, hdrop, hlit, hafter⟩ := hspelled
  have hlt := h.start_lt
  have hle := h.stop_le_length
  have hlength := congrArg List.length hdrop
  rw [List.length_append, List.length_drop, List.length_drop] at hlength
  exact ⟨lit, hdrop, hlit, by omega, by rw [startsWord_drop, hafter]⟩

theorem Literal.unique {s' : Span} {found' : Option (Colour × Form)} (h : Literal line s found)
    (h' : Literal line s' found') (hstart : s.start = s'.start) : s = s' ∧ found = found' := by
  have hread : ∀ {r : Span} {f}, Literal line r f →
      literal? (line.drop r.start) = some (f, r.stop - r.start) := by
    intro r f hr
    obtain ⟨lit, hdrop, hlit, hstop, hafter⟩ := hr.exists_drop
    exact (literal?_eq_some_iff _ _ _).mpr ⟨lit, _, hdrop, hlit, by omega, hafter⟩
  have hlt := h.start_lt
  have hlt' := h'.start_lt
  have heq := (hread h).symm.trans (hstart ▸ hread h')
  rw [Option.some_inj, Prod.mk.injEq] at heq
  exact ⟨Span.ext hstart (by omega), heq.1⟩

end Literals

end SkinLint.Colour
