import Mathlib.Data.List.TakeWhile
import SkinLint.Toml.Quoted

/-!
# Where a string ends

Reading a string looks at its own characters only: whatever else follows its closing quotes, the
same string is read, unless what follows goes on with quotes.
-/
namespace SkinLint.Toml.Quoted

def Unquoted (r : Text) : Prop := r.head? ≠ some '"' ∧ r.head? ≠ some '\''

theorem Unquoted.append {w : Text} (hw : Unquoted w) (hne : w ≠ []) (r : Text) :
    Unquoted (w ++ r) := by
  cases w with
  | nil => exact absurd rfl hne
  | cons c w => exact hw

theorem escape?_pos {e : Edition} {t : Text} {c : Char} {n : Nat}
    (h : escape? e t = some (c, n)) : 0 < n := by
  revert h
  fun_cases escape? e t <;> grind [Option.map_eq_some_iff]

theorem escape?_append {e : Edition} {w r₀ : Text} {c : Char} {n : Nat}
    (h : escape? e (w ++ r₀) = some (c, n)) (hn : n ≤ w.length) (r : Text) :
    escape? e (w ++ r) = some (c, n) := by
  cases w with
  | nil => simpa using Nat.lt_of_lt_of_le (escape?_pos h) hn
  | cons d w =>
    simp only [List.cons_append] at h ⊢
    unfold escape? at h
    split at h
    case h_8 t heq | h_9 t heq | h_11 t heq =>
      obtain ⟨rfl, rfl⟩ := List.cons.inj heq
      split at h
      · obtain ⟨x, hx, hxn⟩ := Option.map_eq_some_iff.1 h
        cases hxn
        have hlen := Nat.le_of_succ_le_succ hn
        rw [List.take_append_of_le_length hlen] at hx
        grind [escape?]
      · cases h
    all_goals grind [escape?]

theorem basicFrom?_cut {e : Edition} {skip : Nat} {t x r₀ : Text}
    (h : basicFrom? e skip t = some (x, r₀)) :
    ∃ w, t = w ++ '"' :: r₀ ∧ skip ≤ w.length ∧
      ∀ r, basicFrom? e skip (w ++ '"' :: r) = some (x, r) := by
  fun_induction basicFrom? e skip t generalizing x with
  | case1 skip => cases h
  | case2 skip c t ih =>
    obtain ⟨w, rfl, hlen, hread⟩ := ih h
    exact ⟨c :: w, rfl, Nat.succ_le_succ hlen, hread⟩
  | case3 t =>
    cases h
    exact ⟨[], rfl, Nat.zero_le _, fun r => rfl⟩
  | case4 t c n hesc ih =>
    obtain ⟨⟨x', r'⟩, hx, hxr⟩ := Option.map_eq_some_iff.1 h
    cases hxr
    obtain ⟨w, rfl, hlen, hread⟩ := ih hx
    refine ⟨'\\' :: w, rfl, Nat.zero_le _, fun r => ?_⟩
    simp [basicFrom?, escape?_append hesc hlen, hread, prepend]
  | case5 t hesc => cases h
  | case6 c t hq hb hplain ih =>
    obtain ⟨⟨x', r'⟩, hx, hxr⟩ := Option.map_eq_some_iff.1 h
    cases hxr
    obtain ⟨w, rfl, -, hread⟩ := ih hx
    refine ⟨c :: w, rfl, Nat.zero_le _, fun r => ?_⟩
    simp [basicFrom?, hplain, hread, prepend]
  | case7 c t hq hb hplain => cases h

theorem literal?_cut {t x r₀ : Text} (h : literal? t = some (x, r₀)) :
    ∃ w, t = w ++ '\'' :: r₀ ∧ ∀ r, literal? (w ++ '\'' :: r) = some (x, r) := by
  fun_induction literal? t generalizing x with
  | case1 => cases h
  | case2 t =>
    cases h
    exact ⟨[], rfl, fun r => rfl⟩
  | case3 c t hq hplain ih =>
    obtain ⟨⟨x', r'⟩, hx, hxr⟩ := Option.map_eq_some_iff.1 h
    cases hxr
    obtain ⟨w, rfl, hread⟩ := ih hx
    refine ⟨c :: w, rfl, fun r => ?_⟩
    simp [literal?, hplain, hread, prepend]
  | case4 c t hq hplain => cases h

theorem take_eq_replicate {q : Char} {t : Text} {n : Nat}
    (h : n ≤ (t.takeWhile (· == q)).length) : t.take n = List.replicate n q := by
  induction t generalizing n with
  | nil => simp_all
  | cons c t ih =>
    cases n with
    | zero => rfl
    | succ n =>
      by_cases hc : c = q
      · simp_all [List.replicate_succ]
      · simp_all

theorem close_replicate (q : Char) {n : Nat} (hn : n ≤ 2) {r : Text} (hr : r.head? ≠ some q) :
    close q (List.replicate n q ++ r) = (List.replicate n q, r) := by
  have hwhile : (List.replicate n q ++ r).takeWhile (· == q) = List.replicate n q := by
    cases r with
    | nil => simp
    | cons c r =>
      rw [List.takeWhile_append_of_pos (by simp +contextual)]
      simp_all
  simp [close, hwhile, hn]

theorem close_two (q : Char) (r : Text) :
    close q (List.replicate 2 q ++ r) = (List.replicate 2 q, r) := by
  simp [close, List.replicate]

theorem drop_length_takeWhile (p : Char → Bool) (t : Text) :
    t.drop (t.takeWhile p).length = t.dropWhile p := by
  induction t with
  | nil => rfl
  | cons c t ih => cases hc : p c <;> simp [hc, ih]

/-- The quotes that close a long string, with those that belong to it, are its last characters. -/
theorem close_cut {q : Char} {t x r₀ : Text} (h : close q t = (x, r₀)) :
    ∃ w, w ++ [q, q, q] = [q, q, q] ++ x ∧ t = x ++ r₀ ∧
      ∀ r, r.head? ≠ some q ∨ r.head? = r₀.head? → close q (x ++ r) = (x, r) := by
  obtain ⟨rfl, rfl⟩ : List.replicate (min 2 (t.takeWhile (· == q)).length) q = x ∧
      t.drop (min 2 (t.takeWhile (· == q)).length) = r₀ := by simpa [close] using h
  generalize hn : min 2 (t.takeWhile (· == q)).length = n
  have hn2 : n ≤ 2 := by omega
  have hq : t.take n = List.replicate n q := take_eq_replicate (by omega)
  refine ⟨List.replicate n q, ?_, ?_, fun r hr => ?_⟩
  · rw [show [q, q, q] = List.replicate 3 q from rfl, List.replicate_append_replicate,
      List.replicate_append_replicate, Nat.add_comm]
  · rw [← hq, List.take_append_drop]
  · by_cases hhead : r.head? = some q
    · -- a third quote is left only if two were taken
      have hleft : (t.drop n).head? = some q := (hr.resolve_left (absurd hhead)).symm.trans hhead
      obtain rfl : n = 2 := by
        by_contra hne
        have hlen : n = (t.takeWhile (· == q)).length := by omega
        rw [hlen, drop_length_takeWhile] at hleft
        have := List.head?_dropWhile_not (· == q) t
        simp [hleft] at this
      exact close_two q r
    · exact close_replicate q hn2 hhead

theorem atLineEnd_append (w s s' : Text) :
    atLineEnd (w ++ '"' :: s) = atLineEnd (w ++ '"' :: s') := by
  induction w with
  | nil => rfl
  | cons c w ih => cases hc : isSpace c <;> simp_all [atLineEnd]

theorem longBasicFrom?_cons {e : Edition} {joining : Bool} {c : Char} {t : Text} (hb : c ≠ '\\')
    (hq : ∀ s, c = '"' → t ≠ '"' :: '"' :: s) :
    longBasicFrom? e 0 joining (c :: t) =
      if joining && (isSpace c || c == '\n') then longBasicFrom? e 0 true t
      else if isPlain c || c == '\n' then (longBasicFrom? e 0 false t).map (prepend c)
      else none := by
  rw [longBasicFrom?.eq_def]
  split <;> grind

/-- Whether three quotes come next is decided before the closing quotes end. -/
theorem not_threeQuotes {c q : Char} {w r₀ : Text}
    (h : ∀ s, c = q → w ++ q :: q :: q :: r₀ = q :: q :: s → False) (r : Text) :
    ∀ s, c = q → w ++ q :: q :: q :: r ≠ q :: q :: s := by
  intro s hc hs
  match w with
  | [] => exact h (q :: r₀) hc rfl
  | [a] => exact h (q :: q :: r₀) hc (by grind)
  | a :: b :: w => exact h (w ++ q :: q :: q :: r₀) hc (by grind)

theorem longBasicFrom?_cut {e : Edition} {skip : Nat} {joining : Bool} {t x r₀ : Text}
    (h : longBasicFrom? e skip joining t = some (x, r₀)) :
    ∃ w, t = w ++ '"' :: '"' :: '"' :: r₀ ∧ skip ≤ w.length ∧
      ∀ r, r.head? ≠ some '"' ∨ r.head? = r₀.head? →
        longBasicFrom? e skip joining (w ++ '"' :: '"' :: '"' :: r) = some (x, r) := by
  fun_induction longBasicFrom? e skip joining t generalizing x with
  | case1 => cases h
  | case2 skip joining c t ih =>
    obtain ⟨w, rfl, hlen, hread⟩ := ih h
    exact ⟨c :: w, rfl, Nat.succ_le_succ hlen, hread⟩
  | case3 joining t =>
    obtain ⟨w, hw, rfl, hread⟩ := close_cut (Option.some.inj h)
    have hout (r : Text) : w ++ '"' :: '"' :: '"' :: r = '"' :: '"' :: '"' :: (x ++ r) := by
      simpa using congrArg (· ++ r) hw
    refine ⟨w, (hout r₀).symm, Nat.zero_le _, fun r hr => ?_⟩
    rw [hout, longBasicFrom?, hread r hr]
  | case4 joining t hend ih =>
    obtain ⟨w, rfl, -, hread⟩ := ih h
    refine ⟨'\\' :: w, rfl, Nat.zero_le _, fun r hr => ?_⟩
    rw [atLineEnd_append w _ ('"' :: '"' :: r)] at hend
    simp [longBasicFrom?, hend, hread r hr]
  | case5 joining t hend c n hesc ih =>
    obtain ⟨⟨x', r'⟩, hx, hxr⟩ := Option.map_eq_some_iff.1 h
    cases hxr
    obtain ⟨w, rfl, hlen, hread⟩ := ih hx
    refine ⟨'\\' :: w, rfl, Nat.zero_le _, fun r hr => ?_⟩
    rw [atLineEnd_append w _ ('"' :: '"' :: r)] at hend
    simp [longBasicFrom?, hend, escape?_append hesc hlen, hread r hr, prepend]
  | case6 => cases h
  | case7 joining c t hq hb hjoin ih => 
    obtain ⟨w, rfl, -, hread⟩ := ih h
    refine ⟨c :: w, rfl, Nat.zero_le _, fun r hr => ?_⟩
    rw [List.cons_append, longBasicFrom?_cons hb (not_threeQuotes hq r), if_pos hjoin, hread r hr]
  | case8 joining c t hq hb hjoin hplain ih =>
    obtain ⟨⟨x', r'⟩, hx, hxr⟩ := Option.map_eq_some_iff.1 h
    cases hxr
    obtain ⟨w, rfl, -, hread⟩ := ih hx
    refine ⟨c :: w, rfl, Nat.zero_le _, fun r hr => ?_⟩
    rw [List.cons_append, longBasicFrom?_cons hb (not_threeQuotes hq r), if_neg hjoin,
      if_pos hplain, hread r hr]
    rfl
  | case9 => cases h

theorem longLiteral?_cons {c : Char} {t : Text} (hq : ∀ s, c = '\'' → t ≠ '\'' :: '\'' :: s) :
    longLiteral? (c :: t) =
      if isPlain c || c == '\n' then (longLiteral? t).map (prepend c) else none := by
  rw [longLiteral?.eq_def]
  split <;> grind

theorem longLiteral?_cut {t x r₀ : Text} (h : longLiteral? t = some (x, r₀)) :
    ∃ w, t = w ++ '\'' :: '\'' :: '\'' :: r₀ ∧
      ∀ r, r.head? ≠ some '\'' ∨ r.head? = r₀.head? →
        longLiteral? (w ++ '\'' :: '\'' :: '\'' :: r) = some (x, r) := by
  fun_induction longLiteral? t generalizing x with
  | case1 => cases h
  | case2 t =>
    obtain ⟨w, hw, rfl, hread⟩ := close_cut (Option.some.inj h)
    have hout (r : Text) : w ++ '\'' :: '\'' :: '\'' :: r = '\'' :: '\'' :: '\'' :: (x ++ r) := by
      simpa using congrArg (· ++ r) hw
    refine ⟨w, (hout r₀).symm, fun r hr => ?_⟩
    rw [hout, longLiteral?, hread r hr]
  | case3 c t hq hplain ih =>
    obtain ⟨⟨x', r'⟩, hx, hxr⟩ := Option.map_eq_some_iff.1 h
    cases hxr
    obtain ⟨w, rfl, hread⟩ := ih hx
    refine ⟨c :: w, rfl, fun r hr => ?_⟩
    rw [List.cons_append, longLiteral?_cons (not_threeQuotes hq r), if_pos hplain, hread r hr]
    rfl
  | case4 => cases h

theorem readShort?_cut {e : Edition} {t x r₀ : Text} (h : readShort? e t = some (x, r₀)) :
    ∃ q w, (q = '"' ∨ q = '\'') ∧ t = q :: w ++ q :: r₀ ∧
      ∀ r, readShort? e (q :: w ++ q :: r) = some (x, r) := by
  unfold readShort? at h
  split at h
  next t =>
    obtain ⟨w, rfl, -, hread⟩ := basicFrom?_cut h
    exact ⟨'"', w, .inl rfl, rfl, hread⟩
  next t =>
    obtain ⟨w, rfl, hread⟩ := literal?_cut h
    exact ⟨'\'', w, .inr rfl, rfl, hread⟩
  next => cases h

theorem readShort?_cons {e : Edition} {c : Char} (hc : c ≠ '"' ∧ c ≠ '\'') (t : Text) :
    readShort? e (c :: t) = none := by
  unfold readShort?
  split <;> grind

/-- A short string is not taken for the start of a long one. -/
theorem read?_of_readShort? {e : Edition} {t x r : Text} (h : readShort? e t = some (x, r))
    (hr : Unquoted r) : read? e t = some (x, r) := by
  unfold read?
  split
  next t =>
    cases h
    exact absurd rfl hr.1
  next t =>
    cases h
    exact absurd rfl hr.2
  next => exact h

theorem read?_cons {e : Edition} {c : Char} (hc : c ≠ '"' ∧ c ≠ '\'') (t : Text) :
    read? e (c :: t) = none := by
  unfold read?
  split
  next heq => exact absurd (List.cons.inj heq).1 hc.1
  next heq => exact absurd (List.cons.inj heq).1 hc.2
  next => exact readShort?_cons hc t

theorem dropLineEnd_cut {q : Char} (hq : q ≠ '\n') {t w s : Text}
    (h : dropLineEnd t = w ++ q :: s) :
    ∃ l, t = l ++ w ++ q :: s ∧ ∀ s', dropLineEnd (l ++ w ++ q :: s') = w ++ q :: s' := by
  unfold dropLineEnd at h
  split at h
  next t => exact ⟨['\n'], by simpa using h, fun s' => rfl⟩
  next hne =>
    refine ⟨[], by simpa using h, fun s' => dropLineEnd.eq_2 _ fun t ht => ?_⟩
    cases w with
    | nil => exact hq (List.cons.inj ht).1
    | cons c w => exact hne _ (h.trans (congrArg (· :: (w ++ q :: s)) (List.cons.inj ht).1))

/-- Whether a short string is taken for a long one is decided by its quotes and what is next. -/
theorem short_of_head {q q' : Char} {w r₀ r : Text} (hr : r.head? = r₀.head?)
    (h : ∀ s, q :: w ++ q :: r₀ = q' :: q' :: q' :: s → False) :
    ∀ s, q :: w ++ q :: r = q' :: q' :: q' :: s → False := by
  intro s hs
  match w with
  | [] =>
    cases r₀ with
    | nil => grind
    | cons c r₀ => exact h r₀ (by grind)
  | [a] => exact h r₀ (by grind)
  | a :: b :: w => exact h (w ++ q :: r₀) (by grind)

/-- A string is read again from its own characters, which start and end with a quote. What follows
them may be anything that goes on as before, or without a quote. -/
theorem read?_cut {e : Edition} {t x s : Text} (h : read? e t = some (x, s)) :
    ∃ q w, (q = '"' ∨ q = '\'') ∧ t = q :: w ++ q :: s ∧
      ∀ r, Unquoted r ∨ r.head? = s.head? → read? e (q :: w ++ q :: r) = some (x, r) := by
  unfold read? at h
  split at h
  next t =>
    obtain ⟨w, hw, -, hread⟩ := longBasicFrom?_cut h
    obtain ⟨l, rfl, hdrop⟩ := dropLineEnd_cut (by decide) hw
    refine ⟨'"', '"' :: '"' :: (l ++ w ++ ['"', '"']), .inl rfl, by simp, fun r hr => ?_⟩
    have := hread r (hr.imp_left And.left)
    rw [← hdrop] at this
    simpa [read?] using this
  next t =>
    obtain ⟨w, hw, hread⟩ := longLiteral?_cut h
    obtain ⟨l, rfl, hdrop⟩ := dropLineEnd_cut (by decide) hw
    refine ⟨'\'', '\'' :: '\'' :: (l ++ w ++ ['\'', '\'']), .inr rfl, by simp, fun r hr => ?_⟩
    have := hread r (hr.imp_left And.right)
    rw [← hdrop] at this
    simpa [read?] using this
  next hbasic hliteral =>
    obtain ⟨q, w, hq, rfl, hread⟩ := readShort?_cut h
    refine ⟨q, w, hq, rfl, fun r hr => ?_⟩
    obtain hr | hr := hr
    · exact read?_of_readShort? (hread r) hr
    · rw [read?.eq_3 _ _ ?_ ?_, hread r]
      · exact short_of_head hr hbasic
      · exact short_of_head hr hliteral

end SkinLint.Toml.Quoted
