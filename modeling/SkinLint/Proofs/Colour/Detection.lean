import SkinLint.Proofs.Colour.Editing
import SkinLint.Proofs.Colour.Words

/-!
# Which colours are found

The scan of a line finds the runs of six hexadecimal digits and, in each maximal chain of linked
numbers, the groups of three counted from its start, as far as their digits are ASCII; it finds
them in reading order and in places that do not overlap.

A scan knows nothing of chains: it reads three linked numbers wherever it meets them. What keeps it
in step is that at every column it looks at, the next three linked numbers start a group.
-/
namespace SkinLint.Colour
open Text

section Values

/-- The number that ASCII digits stand for, or 255 if it is larger. -/
def capped (t : Text) : UInt8 := (min (Nat.ofDigitChars 10 t 0) 255).toUInt8

/-- The colours written on line `i`, each with its place. -/
inductive Written (line : Text) (i : Nat) : Entry → Prop
  | hex {w : Span} {r₁ r₀ g₁ g₀ b₁ b₀ : Nat} : IsRun line w →
    (w.text line).map hexDigit? = [some r₁, some r₀, some g₁, some g₀, some b₁, some b₀] →
    Written line i ⟨.onLine i w.start w.stop,
      ⟨(r₁ * 16 + r₀).toUInt8, (g₁ * 16 + g₀).toUInt8, (b₁ * 16 + b₀).toUInt8, 255⟩, .hex⟩
  | rgb {chain : List Span} {k : Nat} {x y z : Span} : IsMaximalChain line chain →
    chain[3 * k]? = some x → chain[3 * k + 1]? = some y → chain[3 * k + 2]? = some z →
    (∀ s ∈ [x, y, z], ∀ c ∈ s.text line, isAsciiDigit c = true) →
    Written line i ⟨.onLine i x.start z.stop,
      ⟨capped (x.text line), capped (y.text line), capped (z.text line), 255⟩, .rgb⟩

theorem part?_eq_some_iff {t : Text} (ht : t ≠ []) (n : UInt8) :
    part? t = some n ↔ (∀ c ∈ t, isAsciiDigit c = true) ∧ n = capped t := by
  have hvalue : Nat.ofDigitChars 10 t 0 = _ := Nat.ofDigitChars_eq_foldl
  simp only [Nat.mul_comm 10] at hvalue
  rw [← List.all_eq_true, part?, decimal?, List.isEmpty_eq_false_iff.mpr ht, capped, hvalue]
  cases t.all isAsciiDigit <;> simp [eq_comm]

theorem ofTriple?_eq_some_iff {a b c : Text} (ha : IsNumber a) (hb : IsNumber b) (hc : IsNumber c)
    (colour : Colour) : ofTriple? a b c = some colour ↔
      (∀ t ∈ [a, b, c], ∀ d ∈ t, isAsciiDigit d = true) ∧
        colour = ⟨capped a, capped b, capped c, 255⟩ := by
  have hpart : ∀ {t : Text}, IsNumber t → ∀ n, part? t = some n ↔ _ := fun ht =>
    part?_eq_some_iff (List.ne_nil_of_length_pos ht.one_le)
  simp only [ofTriple?, Option.bind_eq_bind, Option.bind_eq_some_iff, hpart ha, hpart hb, hpart hc,
    Option.some_inj, List.forall_mem_cons, List.not_mem_nil, false_imp_iff, implies_true, and_true]
  constructor
  · rintro ⟨_, ⟨ha, rfl⟩, _, ⟨hb, rfl⟩, _, ⟨hc, rfl⟩, rfl⟩
    exact ⟨⟨ha, hb, hc⟩, rfl⟩
  · rintro ⟨⟨ha, hb, hc⟩, rfl⟩
    exact ⟨_, ⟨ha, rfl⟩, _, ⟨hb, rfl⟩, _, ⟨hc, rfl⟩, rfl⟩

theorem map_hexDigit?_eq_iff (t : Text) (r₁ r₀ g₁ g₀ b₁ b₀ : Nat) :
    t.map hexDigit? = [some r₁, some r₀, some g₁, some g₀, some b₁, some b₀] ↔
      ∃ a b c d e f, t = [a, b, c, d, e, f] ∧ hexDigit? a = some r₁ ∧ hexDigit? b = some r₀ ∧
        hexDigit? c = some g₁ ∧ hexDigit? d = some g₀ ∧ hexDigit? e = some b₁ ∧
        hexDigit? f = some b₀ := by
  simp only [List.map_eq_cons_iff, List.map_eq_nil_iff]
  constructor
  · rintro ⟨a, _, rfl, ha, b, _, rfl, hb, c, _, rfl, hc, d, _, rfl, hd, e, _, rfl, he, f, _, rfl,
      hf, rfl⟩
    exact ⟨a, b, c, d, e, f, rfl, ha, hb, hc, hd, he, hf⟩
  · rintro ⟨a, b, c, d, e, f, rfl, ha, hb, hc, hd, he, hf⟩
    exact ⟨a, _, rfl, ha, b, _, rfl, hb, c, _, rfl, hc, d, _, rfl, hd, e, _, rfl, he, f, _, rfl,
      hf, rfl⟩

end Values

section Groups

variable {line : Text} {w s : Span} {found : Option (Colour × Form)} {n : Nat}

/-- Three linked numbers that start at column `n` or behind it, and follow no number there, start a
group of their chain. -/
def Aligned (line : Text) (n : Nat) : Prop :=
  ∀ x y z k, Linked line x y → Linked line y z → n ≤ x.start →
    (∀ a, Linked line a x → a.start < n) → Rank line k x → 3 ∣ k

theorem aligned_zero (line : Text) : Aligned line 0 := by
  intro x y z k _ _ _ hbefore hk
  cases hk with
  | first => exact Nat.dvd_zero 3
  | next _ hlink => exact absurd (hbefore _ hlink) (Nat.not_lt_zero _)

/-- Behind column `m` all is in step if the numbers passed on the way there either end a group or
are followed by less than three linked numbers. -/
theorem Aligned.advance {m : Nat} (h : Aligned line n) (hle : n ≤ m)
    (hpassed : ∀ a x y z k, n ≤ a.start → a.start < m → m ≤ x.start → Linked line a x →
      Linked line x y → Linked line y z → Rank line k a → 3 ∣ k + 1) : Aligned line m := by
  intro x y z k hxy hyz hx hbefore hk
  by_cases hinside : ∃ a, Linked line a x ∧ n ≤ a.start
  · obtain ⟨a, hlink, ha⟩ := hinside
    obtain ⟨j, hj⟩ := exists_rank hlink.left
    rw [hk.unique (hj.next hlink)]
    exact hpassed a x y z j ha (hbefore a hlink) hx hlink hxy hyz hj
  · refine h x y z k hxy hyz (hle.trans hx) ?_ hk
    intro a hlink
    by_contra hge
    exact hinside ⟨a, hlink, Nat.not_lt.mp hge⟩

theorem Rank.dvd_of_aligned {x y z : Span} {k : Nat} (h : Rank line k x) (hxy : Linked line x y)
    (hyz : Linked line y z) (ha : Aligned line x.start) : 3 ∣ k :=
  ha x y z k hxy hyz le_rfl (fun _ hlink => hlink.start_lt) h

/-- Within a literal, a run that is no number or starts a group stands at its start. -/
theorem Literal.start_eq (hs : Literal line s found) (ha : Aligned line s.start)
    (hw : IsRun line w) (hgroup : ∀ k, Rank line k w → 3 ∣ k) (hle : s.start ≤ w.start)
    (hlt : w.start < s.stop) : w.start = s.start := by
  cases hs with
  | hex hs _ _ => rw [hw.eq_of_overlap hs hlt (hle.trans_lt hw.start_lt)]
  | rgb hxy hyz =>
    obtain ⟨k, hk⟩ := exists_rank hxy.left
    have hdvd := hk.dvd_of_aligned hxy hyz ha
    rcases run_cases_of_linked hxy hyz hw hle hlt with rfl | rfl | rfl
    · rfl
    · have hnext := hgroup _ (hk.next hxy)
      omega
    · have hlast := hgroup _ ((hk.next hxy).next hyz)
      omega

/-- Behind a literal all is in step again: only its last number is linked to one behind it. -/
theorem Literal.aligned (hs : Literal line s found) (ha : Aligned line s.start) :
    Aligned line s.stop := by
  refine ha.advance hs.start_lt.le ?_
  intro a b _ _ j hle hlt hstop hlink _ _ hj
  cases hs with
  | hex hs htext _ =>
    rw [hlink.left.eq_of_overlap hs hlt (hle.trans_lt hlink.left.start_lt)] at hlink
    exact absurd hlink.left (not_isNumberRun_of_length (by rw [htext]; rfl))
  | @rgb x y z hxy hyz =>
    have hz := hyz.right.start_lt
    have hy := hyz.start_lt
    obtain ⟨k, hk⟩ := exists_rank hxy.left
    have hdvd := hk.dvd_of_aligned hxy hyz ha
    rcases run_cases_of_linked hxy hyz hlink.left.toIsRun hle hlt with rfl | rfl | rfl
    · rw [hlink.right_unique hxy] at hstop
      change z.stop ≤ y.start at hstop
      omega
    · rw [hlink.right_unique hyz] at hstop
      change z.stop ≤ z.start at hstop
      omega
    · rw [hj.unique ((hk.next hxy).next hyz)]
      omega

/-- Where no literal starts, no three linked numbers do. -/
theorem Aligned.succ (ha : Aligned line n)
    (hnone : ∀ s found, Literal line s found → s.start ≠ n) : Aligned line (n + 1) := by
  refine ha.advance (Nat.le_succ n) ?_
  intro a x y _ _ hle hlt _ hlink hxy _ _
  have hne := hnone _ _ (Literal.rgb hlink hxy)
  exact absurd (Nat.le_antisymm (Nat.lt_succ_iff.mp hlt) hle) hne

end Groups

section Finding

variable {line : Text} {s : Span} {found : Option (Colour × Form)} {i n : Nat} {e : Entry}

def Span.entry (i : Nat) (s : Span) (value : Colour × Form) : Entry :=
  ⟨.onLine i s.start s.stop, value.1, value.2⟩

def entriesFrom (i : Nat) (line : Text) (n : Nat) : List Entry :=
  scan i (wordBefore line n) 0 n (line.drop n)

theorem entriesFrom_of_length_le (h : line.length ≤ n) : entriesFrom i line n = [] := by
  rw [entriesFrom, List.drop_eq_nil_of_le h, scan]

theorem entriesFrom_of_literal (hs : Literal line s found) :
    entriesFrom i line s.start =
      (found.map (s.entry i)).toList ++ entriesFrom i line s.stop := by
  obtain ⟨lit, hdrop, hlit, hstop, hafter⟩ := hs.exists_drop
  rw [entriesFrom, hs.wordBefore_start, hdrop, scan_literal i hlit hafter, ← hstop, entriesFrom,
    hs.wordBefore_stop]
  rfl

theorem entriesFrom_succ (hlt : n < line.length)
    (hnone : ∀ s found, Literal line s found → s.start ≠ n) :
    entriesFrom i line n = entriesFrom i line (n + 1) := by
  obtain ⟨c, hdrop⟩ : ∃ c, line.drop n = c :: line.drop (n + 1) :=
    ⟨_, List.drop_eq_getElem_cons hlt⟩
  have hword : wordBefore line (n + 1) = isWord c := by
    rw [wordBefore, ← startsWord_drop, hdrop]
    rfl
  rw [entriesFrom, entriesFrom, hdrop, hword]
  cases hbefore : wordBefore line n with
  | true => rw [scan_inWord]
  | false =>
    apply scan_of_literal?_none
    rw [← hdrop, Option.eq_none_iff_forall_ne_some]
    rintro ⟨found, length⟩ hliteral
    obtain ⟨lit, rest, hsplit, hlit, -, hrest⟩ := (literal?_eq_some_iff _ _ _).mp hliteral
    exact hnone _ _ (literal_of_drop hbefore hsplit hlit hrest) rfl

/-- Induction along a scan, from the end of the line back to column `n`: over a literal as a whole,
over a column where none starts, always in step. -/
theorem scan_induction {motive : ∀ n, Aligned line n → Prop}
    (finish : ∀ n ha, line.length ≤ n → motive n ha)
    (literal : ∀ s found ha (hs : Literal line s found), motive s.stop (hs.aligned ha) →
      motive s.start ha)
    (pass : ∀ n ha, n < line.length →
      ∀ hnone : ∀ s found, Literal line s found → s.start ≠ n, motive (n + 1) (ha.succ hnone) →
      motive n ha)
    (n : Nat) (ha : Aligned line n) : motive n ha := by
  rcases Nat.lt_or_ge n line.length with hlt | hge
  · by_cases hliteral : ∃ s found, Literal line s found ∧ s.start = n
    · obtain ⟨s, found, hs, rfl⟩ := hliteral
      have hstart := hs.start_lt
      exact literal s found ha hs (scan_induction finish literal pass s.stop (hs.aligned ha))
    · have hnone : ∀ s found, Literal line s found → s.start ≠ n := by
        intro s found hs hstart
        exact hliteral ⟨s, found, hs, hstart⟩
      exact pass n ha hlt hnone (scan_induction finish literal pass (n + 1) (ha.succ hnone))
  · exact finish n ha hge
termination_by line.length - n

/-- What is written is a literal in its place, and it starts with a run that is no number or starts
a group. -/
theorem Written.exists_literal (h : Written line i e) :
    ∃ s value w, e = s.entry i value ∧ Literal line s (some value) ∧ IsRun line w ∧
      w.start = s.start ∧ ∀ k, Rank line k w → 3 ∣ k := by
  cases h with
  | @hex w _ _ _ _ _ _ hw hdigits =>
    obtain ⟨a, b, c, d, e, f, htext, ha, hb, hc, hd, he, hf⟩ :=
      (map_hexDigit?_eq_iff _ _ _ _ _ _ _).mp hdigits
    refine ⟨w, (_, .hex), w, rfl, ?_, hw, rfl, ?_⟩
    · have hliteral := Literal.hex hw htext (by simp [isHexDigit, ha, hb, hc, hd, he, hf])
      simpa [pair, ha, hb, hc, hd, he, hf] using hliteral
    · intro k hk
      exact absurd hk.isNumberRun (not_isNumberRun_of_length (by rw [htext]; rfl))
  | @rgb chain k x y z hchain hx hy hz hascii =>
    have hxy := hchain.linked_getElem? hx hy
    have hyz := hchain.linked_getElem? hy hz
    refine ⟨⟨x.start, z.stop⟩, (_, .rgb), x, rfl, ?_, hxy.left.toIsRun, rfl, ?_⟩
    · have hvalue := (ofTriple?_eq_some_iff hxy.left.number hxy.right.number hyz.right.number
        ⟨capped (x.text line), capped (y.text line), capped (z.text line), 255⟩).mpr
          ⟨by simpa using hascii, rfl⟩
      have hliteral := Literal.rgb hxy hyz
      rwa [hvalue] at hliteral
    · intro j hj
      exact ⟨k, hj.unique (hchain.rank hx)⟩

theorem Literal.written {value : Colour × Form} (hs : Literal line s (some value))
    (ha : Aligned line s.start) : Written line i (s.entry i value) := by
  generalize hfound : some value = found at hs
  cases hs with
  | @hex w a b c d e f hw htext hdigits =>
    cases hfound
    have hvalue : ∀ x ∈ [a, b, c, d, e, f], hexDigit? x = some ((hexDigit? x).getD 0) := by
      intro x hx
      obtain ⟨n, hn⟩ := Option.isSome_iff_exists.mp (hdigits x hx)
      rw [hn, Option.getD_some]
    refine .hex hw (?_ : _ = [some ((hexDigit? a).getD 0), _, _, _, _, _])
    rw [htext]
    simpa using hvalue
  | @rgb x y z hxy hyz =>
    obtain ⟨colour, hcolour, rfl⟩ := Option.map_eq_some_iff.mp hfound.symm
    obtain ⟨hascii, rfl⟩ := (ofTriple?_eq_some_iff hxy.left.number hxy.right.number
      hyz.right.number colour).mp hcolour
    obtain ⟨k, hk⟩ := exists_rank hxy.left
    obtain ⟨j, rfl⟩ := hk.dvd_of_aligned hxy hyz ha
    obtain ⟨chain, hchain, hx, hy, hz⟩ := hk.exists_isMaximalChain hxy hyz
    exact .rgb hchain hx hy hz (by simpa using hascii)

theorem mem_entriesFrom_iff (ha : Aligned line n) :
    e ∈ entriesFrom i line n ↔ Written line i e ∧ n ≤ e.range.start.character := by
  induction n, ha using scan_induction with
  | finish n ha hle =>
    rw [entriesFrom_of_length_le hle]
    refine iff_of_false List.not_mem_nil ?_
    rintro ⟨he, hstart⟩
    obtain ⟨s, value, w, rfl, -, hw, hws, -⟩ := he.exists_literal
    have hlt := hw.start_lt_length
    change n ≤ s.start at hstart
    omega
  | literal s found ha hs ih =>
    have hlt := hs.start_lt
    rw [entriesFrom_of_literal hs, List.mem_append, ih, Option.mem_toList]
    constructor
    · rintro (he | ⟨he, hstop⟩)
      · obtain ⟨value, rfl, rfl⟩ := Option.map_eq_some_iff.mp he
        exact ⟨hs.written ha, le_rfl⟩
      · exact ⟨he, hlt.le.trans hstop⟩
    · rintro ⟨he, hstart⟩
      rcases Nat.lt_or_ge e.range.start.character s.stop with hinside | hbehind
      · -- Nothing else that is written starts within the literal.
        obtain ⟨s', value, w, rfl, hs', hw, hws, hgroup⟩ := he.exists_literal
        have hsame := hs.start_eq ha hw hgroup (hws ▸ hstart) (hws ▸ hinside)
        obtain ⟨rfl, rfl⟩ := hs.unique hs' (hsame.symm.trans hws)
        exact .inl rfl
      · exact .inr ⟨he, hbehind⟩
  | pass n ha hlt hnone ih =>
    rw [entriesFrom_succ hlt hnone, ih]
    constructor
    · rintro ⟨he, hstart⟩
      exact ⟨he, Nat.le_of_succ_le hstart⟩
    · rintro ⟨he, hstart⟩
      refine ⟨he, ?_⟩
      obtain ⟨s, value, -, rfl, hs, -, -, -⟩ := he.exists_literal
      exact Nat.lt_of_le_of_ne hstart (hnone s _ hs).symm

theorem Written.range (h : Written line i e) : e.range.start.line = i ∧ e.range.stop.line = i ∧
    e.range.start.character < e.range.stop.character := by
  obtain ⟨s, value, -, rfl, hs, -⟩ := h.exists_literal
  have hlt := hs.start_lt
  refine ⟨rfl, rfl, ?_⟩
  rw [Span.entry, Range.onLine_stop_of_le i hlt.le, Range.onLine_start]
  exact hlt

theorem pairwise_entriesFrom (ha : Aligned line n) :
    (entriesFrom i line n).Pairwise fun a b => a.range.stop.le b.range.start = true := by
  induction n, ha using scan_induction with
  | finish n ha hle =>
    rw [entriesFrom_of_length_le hle]
    exact .nil
  | literal s found ha hs ih =>
    rw [entriesFrom_of_literal hs, List.pairwise_append]
    refine ⟨?_, ih, ?_⟩
    · cases found <;> simp
    · intro e he e' he'
      obtain ⟨value, rfl, rfl⟩ := Option.map_eq_some_iff.mp (Option.mem_toList.mp he)
      obtain ⟨hwritten, hstop⟩ := (mem_entriesFrom_iff (hs.aligned ha)).mp he'
      rw [Span.entry, Range.onLine_stop_of_le i hs.start_lt.le]
      simp [Position.le, hwritten.range.1, hstop]
  | pass n ha hlt hnone ih => rwa [entriesFrom_succ hlt hnone]

theorem mem_scan_iff : e ∈ scan i false 0 0 line ↔ Written line i e := by
  have h := mem_entriesFrom_iff (i := i) (e := e) (aligned_zero line)
  rwa [and_iff_left (Nat.zero_le _)] at h

theorem mem_entries_iff (text : Text) (e : Entry) : e ∈ entries text ↔
    ∃ i line, (Document.splitLines text)[i]? = some line ∧ Written line i e := by
  rw [entries, List.mem_flatMap]
  constructor
  · rintro ⟨l, hl, he⟩
    obtain ⟨i, hi⟩ := List.mem_iff_getElem?.mp hl
    rw [Document.getElem?_lines] at hi
    obtain ⟨line, hget, rfl⟩ := Option.map_eq_some_iff.mp hi
    exact ⟨i, line, hget, mem_scan_iff.mp he⟩
  · rintro ⟨i, line, hget, he⟩
    have hl : (Document.lines text)[i]? = some ⟨i, line⟩ := by
      rw [Document.getElem?_lines, hget, Option.map_some]
    exact ⟨⟨i, line⟩, List.mem_of_getElem? hl, mem_scan_iff.mpr he⟩

theorem pairwise_entries (text : Text) :
    (entries text).Pairwise fun a b => a.range.stop.le b.range.start = true := by
  rw [entries, List.pairwise_flatMap]
  refine ⟨fun l _ => pairwise_entriesFrom (aligned_zero l.text), ?_⟩
  refine (Document.pairwise_index_lines text).imp ?_
  intro l m hlt e he e' he'
  have hstop := (mem_scan_iff.mp he).range.2.1
  have hstart := (mem_scan_iff.mp he').range.1
  simp [Position.le, hstop, hstart, hlt]

/-- The colours found in a document are those written on its lines, in reading order, each in a
place of its own. -/
theorem entries_exactly_written (text : Text) :
    (∀ e, e ∈ entries text ↔
      ∃ i line, (Document.splitLines text)[i]? = some line ∧ Written line i e) ∧
    (∀ e ∈ entries text, e.range.start.line = e.range.stop.line ∧
      e.range.start.character < e.range.stop.character) ∧
    (entries text).Pairwise fun a b => a.range.stop.le b.range.start = true := by
  refine ⟨mem_entries_iff text, ?_, pairwise_entries text⟩
  intro e he
  obtain ⟨i, line, -, hwritten⟩ := (mem_entries_iff text e).mp he
  obtain ⟨hstart, hstop, hlt⟩ := hwritten.range
  exact ⟨hstart.trans hstop.symm, hlt⟩

-- Two groups and a number left over; six digits are no number and neither are four; behind these
-- a group of its own chain, whose last digit is Arabic.
example : entries "1,2, 3,4,5,600,7,123456,1234,8,9,٣,1,2".toList =
    [⟨.onLine 0 0 6, ⟨1, 2, 3, 255⟩, .rgb⟩, ⟨.onLine 0 7 14, ⟨4, 5, 255, 255⟩, .rgb⟩,
      ⟨.onLine 0 17 23, ⟨0x12, 0x34, 0x56, 255⟩, .hex⟩] := by
  decide +kernel

end Finding

end SkinLint.Colour
