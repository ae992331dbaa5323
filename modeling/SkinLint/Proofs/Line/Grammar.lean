import SkinLint.Proofs.Line

/-!
# The grammar of lines

A line holds a pair if it is written as a key, an `=` and a value with blanks around them, where the
key starts with neither of the two marks. A line is written so for one pair at most. The kind of any
other line is told by a grammar of trimmed texts, which has one case for each kind that is left.
-/
namespace SkinLint.LineKind
open Text

/-- The line is a key, an `=` and a value, with any blanks before, between and behind them. -/
structure Spells (line key value : Text) : Prop where
  pair : IsPair key value
  text : ∃ a b c d, line = a ++ key ++ b ++ '=' :: (c ++ value ++ d) ∧
    ∀ x ∈ a ++ b ++ c ++ d, isBlank x = true

inductive Unpaired : Text → LineKind → Prop where
  | blank : Unpaired [] .blank
  | comment (rest : Text) : Unpaired (';' :: rest) .comment
  | header (name : Text) : Unpaired ('[' :: (name ++ [']'])) (.header name)
  | openHeader {rest : Text} (hopen : rest.getLast? ≠ some ']') : Unpaired ('[' :: rest) .openHeader
  | malformed {c : Char} {rest : Text} (hcomment : c ≠ ';') (hbracket : c ≠ '[')
    (hkey : '=' ∉ c :: rest ∨ c = '=') : Unpaired (c :: rest) .malformed

section Pairs

variable {line key value : Text}

/-- The blanks at the end of the line go, and with them those before an empty value. -/
theorem Spells.pair?_trim (h : Spells line key value) :
    pair? (trim line) = some (key, value) := by
  rcases h.text with ⟨a, b, c, d, hline, hblank⟩
  simp only [List.mem_append, or_imp, forall_and] at hblank
  rcases hblank with ⟨⟨⟨ha, hb⟩, hc⟩, hd⟩
  rcases trimEnd_decompose (c ++ value ++ d) with ⟨e, hrest, he⟩
  have hkey : trim (key ++ b) = key := by
    have hkey := trim_append (a := []) key (by simp) hb
    rwa [List.nil_append, trim_of_trimmed h.pair.key_trimmed] at hkey
  have hvalue : trim (trimEnd (c ++ value ++ d)) = value := by
    have hvalue := trim_append (a := []) (trimEnd (c ++ value ++ d)) (by simp) he
    rwa [List.nil_append, ← hrest, trim_append value hc hd, trim_of_trimmed h.pair.value_trimmed,
      eq_comm] at hvalue
  have htrimmed : Trimmed (key ++ b ++ '=' :: trimEnd (c ++ value ++ d)) := by
    apply trimmed_around_equals
    · simp [h.pair.key_ne_nil]
    · rw [List.head?_append_of_ne_nil _ h.pair.key_ne_nil]
      exact h.pair.key_trimmed.1
    · exact getLast?_trimEnd _
  have htrim : trim line = key ++ b ++ '=' :: trimEnd (c ++ value ++ d) := by
    calc trim line
      _ = trim (a ++ (key ++ b ++ '=' :: trimEnd (c ++ value ++ d)) ++ e) := by
        rw [hline]
        nth_rewrite 1 [hrest]
        simp
      _ = _ := by rw [trim_append _ ha he, trim_of_trimmed htrimmed]
  rw [htrim, pair?_eq_some_iff]
  refine ⟨key ++ b, _, rfl, ?_, hkey, hvalue, h.pair.key_ne_nil⟩
  rw [List.mem_append, not_or]
  refine ⟨h.pair.key_equals, fun hmem => ?_⟩
  exact absurd (hb _ hmem) (by decide)

theorem spells_of_pair?_trim (hpair : IsPair key value)
    (h : pair? (trim line) = some (key, value)) : Spells line key value := by
  rcases (pair?_eq_some_iff _ _ _).mp h with ⟨before, after, ht, -, rfl, rfl, -⟩
  rcases trim_decompose line with ⟨a, d, hline, ha, hd⟩
  rcases trim_decompose before with ⟨a', b, hbefore, ha', hb⟩
  rcases trim_decompose after with ⟨c, d', hafter, hc, hd'⟩
  refine ⟨hpair, a ++ a', b, c, d' ++ d, ?_, ?_⟩
  · calc line
      _ = a ++ (before ++ '=' :: after) ++ d := by rw [← ht, ← hline]
      _ = a ++ ((a' ++ trim before ++ b) ++ '=' :: (c ++ trim after ++ d')) ++ d := by
        rw [← hbefore, ← hafter]
      _ = _ := by simp
  · simp only [List.mem_append]
    rintro x ((((hx | hx) | hx) | hx) | hx | hx)
    exacts [ha x hx, ha' x hx, hb x hx, hc x hx, hd' x hx, hd x hx]

theorem Spells.classify (h : Spells line key value) :
    LineKind.classify line = ofPair key value := h.pair.classify_of_pair? h.pair?_trim

theorem classify_pair_iff : (classify line = .keyValue key value ∨
    classify line = .inclusion key value) ↔ Spells line key value := by
  constructor
  · intro h
    rcases isPair_of_classify h with ⟨hpair, hp, -⟩
    exact spells_of_pair?_trim hpair hp
  · intro h
    rw [h.classify]
    exact ofPair_eq_cases key value

theorem Spells.unique {key' value' : Text} (h : Spells line key value)
    (h' : Spells line key' value') : key' = key ∧ value' = value := by
  have hpair := h'.pair?_trim
  rw [h.pair?_trim] at hpair
  simpa [eq_comm] using hpair

end Pairs

section Others

variable {t : Text} {kind : LineKind}

theorem pair?_eq_none_iff {c : Char} {rest : Text} (hc : isBlank c = false) :
    pair? (c :: rest) = none ↔ '=' ∉ c :: rest ∨ c = '=' := by
  cases hs : splitFirst? '=' (c :: rest) with
  | none =>
    have hmem := (splitFirst?_eq_none_iff '=' (c :: rest)).mp hs
    simp [pair?, hs, hmem]
  | some parts =>
    rcases parts with ⟨before, after⟩
    rcases (splitFirst?_eq_some_iff _ _ _ _).mp hs with ⟨hline, hbefore⟩
    have hmem : '=' ∈ c :: rest := by simp [hline]
    have hblank : trim before = [] ↔ c = '=' := by
      rw [trim_eq_nil_iff]
      cases before with
      | nil => simpa using (List.cons.inj hline).1
      | cons d before =>
        have hd : c = d := (List.cons.inj hline).1
        subst hd
        simp only [List.mem_cons, not_or] at hbefore
        simp [hc, Ne.symm hbefore.1]
    simp [pair?, hs, hmem, hblank]

theorem Unpaired.ofTrimmed_eq (h : Unpaired t kind) (ht : Trimmed t) : ofTrimmed t = kind := by
  cases h with
  | blank => rfl
  | comment rest => rfl
  | header name => simp [ofTrimmed]
  | openHeader hopen => simp [ofTrimmed, hopen]
  | malformed hcomment hbracket hkey =>
    rw [ofTrimmed_cons _ hcomment hbracket, (pair?_eq_none_iff (ht.1 _ rfl)).mpr hkey]

theorem Unpaired.classify {line : Text} (h : Unpaired (trim line) kind) :
    LineKind.classify line = kind := h.ofTrimmed_eq (trimmed_trim line)

theorem unpaired_ofTrimmed (ht : Trimmed t)
    (h : ∀ key value, IsPair key value → pair? t ≠ some (key, value)) :
    Unpaired t (ofTrimmed t) := by
  cases t with
  | nil => exact .blank
  | cons c rest =>
    by_cases hcomment : c = ';'
    · subst hcomment
      exact .comment rest
    by_cases hbracket : c = '['
    · subst hbracket
      by_cases hlast : rest.getLast? = some ']'
      · rcases List.getLast?_eq_some_iff.mp hlast with ⟨name, rfl⟩
        simpa [ofTrimmed] using Unpaired.header name
      · simpa [ofTrimmed, hlast] using Unpaired.openHeader hlast
    cases hp : pair? (c :: rest) with
    | none =>
      rw [ofTrimmed_cons rest hcomment hbracket, hp]
      exact .malformed hcomment hbracket ((pair?_eq_none_iff (ht.1 c rfl)).mp hp)
    | some parts => exact absurd hp (h _ _ (isPair_of_pair? ht hcomment hbracket hp))

theorem Unpaired.ne_ofPair (h : Unpaired t kind) (key value : Text) : kind ≠ ofPair key value := by
  rcases ofPair_eq_cases key value with ho | ho
  · rw [ho]
    cases h <;> simp
  · rw [ho]
    cases h <;> simp

/-- Every line spells a pair or has a kind by the grammar of the other lines, and not both. -/
theorem unpaired_iff (line : Text) : Unpaired (trim line) kind ↔
    classify line = kind ∧ ¬∃ key value, Spells line key value := by
  constructor
  · intro h
    refine ⟨h.classify, ?_⟩
    rintro ⟨key, value, hspells⟩
    exact h.ne_ofPair key value (h.classify.symm.trans hspells.classify)
  · rintro ⟨rfl, hnone⟩
    apply unpaired_ofTrimmed (trimmed_trim line)
    intro key value hpair hp
    exact hnone ⟨key, value, spells_of_pair?_trim hpair hp⟩

end Others

/-- A line is read as a pair exactly if it is spelled as one, and it is spelled as one pair only,
which is an inclusion if its key starts with the letters for that. Any other line has the one kind
that its trimmed text has by the grammar, and a header is its name between brackets. -/
theorem classify_accepts_grammar (line : Text) :
    (∀ key value, (classify line = .keyValue key value ∨ classify line = .inclusion key value) ↔
      Spells line key value) ∧
    (∀ key value, Spells line key value →
      (∀ key' value', Spells line key' value' → key' = key ∧ value' = value) ∧
      (classify line = .inclusion key value ↔
        eqIgnoreCase (key.take 8) "@include".toList = true) ∧
      (classify line = .keyValue key value ↔
        eqIgnoreCase (key.take 8) "@include".toList = false)) ∧
    (∀ kind, Unpaired (trim line) kind ↔
      classify line = kind ∧ ¬∃ key value, Spells line key value) ∧
    ∀ name, classify line = .header name ↔ trim line = '[' :: (name ++ [']']) := by
  refine ⟨fun key value => classify_pair_iff, ?_, fun kind => unpaired_iff line, ?_⟩
  · intro key value h
    have hkey : isIncludeKey key = eqIgnoreCase (key.take 8) "@include".toList := rfl
    refine ⟨fun key' value' h' => h.unique h', ?_⟩
    rw [h.classify, ofPair, hkey]
    cases eqIgnoreCase (key.take 8) "@include".toList <;> simp
  · intro name
    constructor
    · exact trim_of_classify_header
    · intro ht
      apply Unpaired.classify
      rw [ht]
      exact .header name

/-- An inclusion in capitals, with blanks of other scripts and another `=` in its value. -/
theorem classify_accepts_grammar_inclusion :
    let line := "\u3000@INCLUDE2\t= a=b \u00a0".toList
    Spells line "@INCLUDE2".toList "a=b".toList ∧
    classify line = .inclusion "@INCLUDE2".toList "a=b".toList ∧
    ∀ key value, Spells line key value → key = "@INCLUDE2".toList ∧ value = "a=b".toList := by
  intro line
  have hpair : IsPair "@INCLUDE2".toList "a=b".toList := by
    constructor <;> simp [Trimmed] <;> decide
  have hspells : Spells line "@INCLUDE2".toList "a=b".toList :=
    ⟨hpair, ['\u3000'], ['\t'], [' '], [' ', '\u00a0'], by decide,
      List.all_eq_true.mp (by decide)⟩
  have hread := (classify_accepts_grammar line).2.1 _ _ hspells
  exact ⟨hspells, hread.2.1.mpr (by decide), hread.1⟩

end SkinLint.LineKind
