import SkinLint.Proofs.Meter.Keys
import SkinLint.Proofs.Validation.Sections

/-!
# Meters inside sections

After some lines the check for one kind of meter stands inside a meter exactly when a declaration
lies below the nearest header. So its keys are checked on the pairs below a declaration, up to the
next header, and each of them is reported at most once.
-/
namespace SkinLint.Validation
open Text Document

/-- Line `h` is the nearest header above line `j`. -/
structure HeadedBy (ls : List Line) (h j : Nat) (raw : Text) : Prop where
  above : h < j
  header : kindAt ls h = some (.header raw)
  nearest : NoHeaderBetween ls h j

def DeclaresAt (m : Meter) (ls : List Line) (j : Nat) : Prop :=
  ∃ l, ls[j]? = some l ∧ eqIgnoreCase (trim l.text) ("meter=".toList ++ m.display.toList) = true

instance (m : Meter) (ls : List Line) (j : Nat) : Decidable (DeclaresAt m ls j) :=
  inferInstanceAs (Decidable (∃ l ∈ ls[j]?, _))

def DeclaredBetween (m : Meter) (ls : List Line) (h j : Nat) : Prop :=
  ∃ i, h < i ∧ i < j ∧ DeclaresAt m ls i

/-- Line `j` is a pair that belongs to a meter, in the section that `[raw]` opens. -/
structure BelongsAt (m : Meter) (ls : List Line) (j : Nat) (key value raw : Text) : Prop where
  pair : kindAt ls j = some (.keyValue key value)
  declared : ∃ h, HeadedBy ls h j raw ∧ DeclaredBetween m ls h j
  undeclaring : ¬ DeclaresAt m ls j

def PairFault (m : Meter) (extra : List Text) (key value : Text) : Rule → Prop
  | .emptyNumberedKey => Meter.Numbered key ∧ value = []
  | .invalidMeterKey => ¬ Meter.Numbered key ∧ ¬ m.Allowed extra key
  | _ => False

theorem PairFault.unique {m : Meter} {extra : List Text} {key value : Text} {r r' : Rule}
    (h : PairFault m extra key value r) (h' : PairFault m extra key value r') : r = r' := by
  cases r with
  | emptyNumberedKey =>
    cases r' with
    | emptyNumberedKey => rfl
    | invalidMeterKey => exact absurd h.1 h'.1
    | _ => exact h'.elim
  | invalidMeterKey =>
    cases r' with
    | invalidMeterKey => rfl
    | emptyNumberedKey => exact absurd h'.1 h.1
    | _ => exact h'.elim
  | _ => exact h.elim

theorem declaresAt_iff {m : Meter} {ls : List Line} {j : Nat} {l : Line} (hl : ls[j]? = some l) :
    DeclaresAt m ls j ↔ declares m l.trimmed = true := by
  simp [DeclaresAt, hl, declares, Line.trimmed]

/-- What a block says about the lines above it. -/
def Block.Describes (m : Meter) (ls : List Line) (j : Nat) : Block → Prop
  | .outside => ∀ i < j, ¬ HeaderAt ls i
  | .inSection name =>
    ∃ h raw, trim raw = name ∧ HeadedBy ls h j raw ∧ ¬ DeclaredBetween m ls h j
  | .inMeter name => ∃ h raw, trim raw = name ∧ HeadedBy ls h j raw ∧ DeclaredBetween m ls h j

section Step

variable {m : Meter} {ls : List Line} {h j : Nat} {raw name : Text} {block : Block} {l : Line}

theorem headedBy_succ_self (hk : kindAt ls j = some (.header raw)) : HeadedBy ls j (j + 1) raw :=
  ⟨by omega, hk, noHeaderBetween_succ_self ls j⟩

theorem HeadedBy.succ (hh : HeadedBy ls h j raw) (hj : ¬ HeaderAt ls j) :
    HeadedBy ls h (j + 1) raw :=
  ⟨by have := hh.above; omega, hh.header, (noHeaderBetween_succ hh.above).mpr ⟨hh.nearest, hj⟩⟩

theorem declaredBetween_succ (hh : h < j) :
    DeclaredBetween m ls h (j + 1) ↔ DeclaredBetween m ls h j ∨ DeclaresAt m ls j := by
  constructor
  · rintro ⟨i, hi, hij, hd⟩
    by_cases he : i = j
    · exact .inr (he ▸ hd)
    · exact .inl ⟨i, hi, by omega, hd⟩
  · rintro (⟨i, hi, hij, hd⟩ | hd)
    · exact ⟨i, hi, by omega, hd⟩
    · exact ⟨j, hh, by omega, hd⟩

theorem Block.describes_header (hk : kindAt ls j = some (.header raw)) :
    (Block.inSection (trim raw)).Describes m ls (j + 1) := by
  refine ⟨j, raw, rfl, headedBy_succ_self hk, ?_⟩
  rintro ⟨i, hi, hij, -⟩
  omega

theorem Block.Describes.skip (hb : block.Describes m ls j) (hj : ¬ HeaderAt ls j)
    (hd : ¬ DeclaresAt m ls j) : block.Describes m ls (j + 1) := by
  cases block with
  | outside => exact Nat.forall_lt_succ_right.mpr ⟨hb, hj⟩
  | inSection name =>
    obtain ⟨h, raw, hname, hh, hnone⟩ := hb
    exact ⟨h, raw, hname, hh.succ hj, by simp [declaredBetween_succ hh.above, hnone, hd]⟩
  | inMeter name =>
    obtain ⟨h, raw, hname, hh, hsome⟩ := hb
    exact ⟨h, raw, hname, hh.succ hj, (declaredBetween_succ hh.above).mpr (.inl hsome)⟩

theorem Block.Describes.headedBy (hb : block.Describes m ls j) (hs : block.section? = some name) :
    ∃ h raw, trim raw = name ∧ HeadedBy ls h j raw := by
  cases block with
  | outside => simp [Block.section?] at hs
  | inSection _ =>
    obtain ⟨h, raw, hname, hh, -⟩ := hb
    exact ⟨h, raw, hname.trans (by simpa [Block.section?] using hs), hh⟩
  | inMeter _ =>
    obtain ⟨h, raw, hname, hh, -⟩ := hb
    exact ⟨h, raw, hname.trans (by simpa [Block.section?] using hs), hh⟩

theorem Block.Describes.declare (hb : block.Describes m ls j) (hj : ¬ HeaderAt ls j)
    (hd : DeclaresAt m ls j) (hs : block.section? = some name) :
    (Block.inMeter name).Describes m ls (j + 1) := by
  obtain ⟨h, raw, hname, hh⟩ := hb.headedBy hs
  exact ⟨h, raw, hname, hh.succ hj, (declaredBetween_succ hh.above).mpr (.inr hd)⟩

theorem Block.Describes.step (hb : block.Describes m ls j) (hl : ls[j]? = some l)
    (keys : List Text) : (meterStep m keys block l).1.Describes m ls (j + 1) := by
  have hat := kindAt_of_getElem? hl
  cases hk : l.kind with
  | header raw =>
    rw [meterStep_header hk]
    exact Block.describes_header (hat.trans (congrArg some hk))
  | keyValue key value =>
    have hj : ¬ HeaderAt ls j := by simp [HeaderAt, hat, hk]
    cases hd : declares m l.trimmed with
    | true =>
      cases hs : block.section? with
      | none =>
        cases block with
        | outside =>
          -- In front of the first header a declaration begins nothing.
          rw [meterStep_outside hk]
          exact Nat.forall_lt_succ_right.mpr ⟨hb, hj⟩
        | _ => simp [Block.section?] at hs
      | some name =>
        rw [meterStep_declares hk hs hd]
        exact hb.declare hj ((declaresAt_iff hl).mpr hd) hs
    | false =>
      have hsame : (meterStep m keys block l).1 = block := by
        cases block <;> simp [meterStep, hk, hd, Block.section?]
      rw [hsame]
      exact hb.skip hj (by simp [declaresAt_iff hl, hd])
  | _ =>
    -- A line of any other kind is passed over unread, so it must not be a declaration either.
    rw [meterStep_other (by simp [hk]) (by simp [hk])]
    refine hb.skip (by simp [HeaderAt, hat, hk]) fun hd => ?_
    obtain ⟨key, value, hpair⟩ := kind_of_declares ((declaresAt_iff hl).mp hd)
    simp [hk] at hpair

theorem Block.describes_after (m : Meter) (keys : List Text) (hj : j ≤ ls.length) :
    (Pass.after (meterStep m keys) .outside (ls.take j)).Describes m ls j := by
  have hstart : Block.outside.Describes m ls 0 := fun i hi => absurd hi (Nat.not_lt_zero i)
  exact Pass.after_take_induction (P := fun j block => Block.Describes m ls j block) hstart
    (fun hl hb => hb.step hl keys) hj

end Step

theorem HeadedBy.unique {ls : List Line} {h h' j : Nat} {raw raw' : Text} (hh : HeadedBy ls h j raw)
    (hh' : HeadedBy ls h' j raw') : h = h' ∧ raw = raw' := by
  rcases Nat.lt_trichotomy h h' with hlt | rfl | hlt
  · exact absurd ⟨raw', hh'.header⟩ (hh.nearest h' hlt hh'.above)
  · have hsame := hh.header.symm.trans hh'.header
    simpa using hsame
  · exact absurd ⟨raw, hh.header⟩ (hh'.nearest h hlt hh.above)

theorem BelongsAt.unique {m : Meter} {ls : List Line} {j : Nat} {key key' value value' raw raw' : Text}
    (hp : BelongsAt m ls j key value raw) (hp' : BelongsAt m ls j key' value' raw') :
    key = key' ∧ value = value' := by
  have hsame := hp.pair.symm.trans hp'.pair
  simpa using hsame

section Found

variable {m : Meter} {ls : List Line} {j : Nat} {block : Block} {l : Line} {key value raw : Text}

/-- Where a pair belongs to a meter, the check stands inside it. -/
theorem Block.Describes.eq_inMeter (hb : block.Describes m ls j)
    (hp : BelongsAt m ls j key value raw) : block = .inMeter (trim raw) := by
  obtain ⟨h, hh, hsome⟩ := hp.declared
  cases block with
  | outside => exact absurd ⟨raw, hh.header⟩ (hb h hh.above)
  | inSection name =>
    obtain ⟨h', raw', -, hh', hnone⟩ := hb
    obtain ⟨rfl, rfl⟩ := hh.unique hh'
    exact absurd hsome hnone
  | inMeter name =>
    obtain ⟨h', raw', rfl, hh', -⟩ := hb
    rw [(hh.unique hh').2]

/-- What is found on a line is found about a pair of the meter. -/
theorem Block.Describes.found (hb : block.Describes m ls j) (hl : ls[j]? = some l)
    (keys : List Text) :
    (∃ key value raw, BelongsAt m ls j key value raw ∧
      (meterStep m keys block l).2 = meterKeyBreaches m keys (trim raw) l key value) ∨
    (¬ ∃ key value raw, BelongsAt m ls j key value raw) ∧ (meterStep m keys block l).2 = [] := by
  have hat := kindAt_of_getElem? hl
  by_cases hp : ∃ key value raw, BelongsAt m ls j key value raw
  · obtain ⟨key, value, raw, hp⟩ := hp
    have hk : l.kind = .keyValue key value := Option.some.inj (hat.symm.trans hp.pair)
    have hd : declares m l.trimmed = false := by
      simpa [declaresAt_iff hl] using hp.undeclaring
    refine .inl ⟨key, value, raw, hp, ?_⟩
    rw [hb.eq_inMeter hp, meterStep_inMeter hk hd]
  · refine .inr ⟨hp, ?_⟩
    rw [List.eq_nil_iff_forall_not_mem]
    intro b hm
    obtain ⟨name, key, value, rfl, hk, hd, -⟩ := mem_meterStep hm
    obtain ⟨h, raw, -, hh, hsome⟩ := hb
    exact hp ⟨key, value, raw, hat.trans (congrArg some hk), ⟨h, hh, hsome⟩,
      by simp [declaresAt_iff hl, hd]⟩

end Found

/-- What a report about a key says of the key, its section and its meter. -/
def PairMessage (m : Meter) (key name : Text) (message : String) : Rule → Prop
  | .emptyNumberedKey => message = s!"Key '{str key}' in [{str name}] must have a value."
  | .invalidMeterKey => ∃ rest, message =
      s!"Invalid key '{str key}' in [{str name}]. Valid keys for {m.display} are: " ++ rest
  | _ => False

/-- A pair is at fault under one rule or under none. -/
theorem meterKeyBreaches_cases (m : Meter) (extra : List Text) (name : Text) (l : Line)
    (key value : Text) :
    (∃ r message, PairFault m extra key value r ∧ PairMessage m key name message r ∧
      meterKeyBreaches m (m.keysWith extra) name l key value = [⟨r, keyRange l key, message⟩]) ∨
    (∀ r, ¬ PairFault m extra key value r) ∧
      meterKeyBreaches m (m.keysWith extra) name l key value = [] := by
  by_cases hn : Meter.isNumbered key = true
  · have hnumbered := (Meter.isNumbered_iff key).mp hn
    by_cases hv : value = []
    · refine .inl ⟨.emptyNumberedKey, _, ⟨hnumbered, hv⟩, rfl, ?_⟩
      simp [meterKeyBreaches, hn, hv]
    · refine .inr ⟨fun r => by cases r <;> simp [PairFault, hnumbered, hv], ?_⟩
      simp [meterKeyBreaches, hn, hv]
  · have hnumbered := mt (Meter.isNumbered_iff key).mpr hn
    by_cases ha : Meter.allows (m.keysWith extra) key = true
    · have hallowed := (Meter.allows_keysWith_iff m extra key).mp ha
      refine .inr ⟨fun r => by cases r <;> simp [PairFault, hnumbered, hallowed], ?_⟩
      simp [meterKeyBreaches, hn, ha]
    · have hallowed := mt (Meter.allows_keysWith_iff m extra key).mpr ha
      rw [meterKeyBreaches, if_neg hn, if_neg ha]
      refine .inl ⟨.invalidMeterKey, _, ⟨hnumbered, hallowed⟩, ?_, rfl⟩
      exact ⟨_, String.append_assoc⟩

theorem meterStep_onLine (m : Meter) (keys : List Text) : Pass.OnLine (meterStep m keys) := by
  intro block l b hb
  obtain ⟨name, key, value, -, -, -, hm⟩ := mem_meterStep hb
  rw [(of_mem_meterKeyBreaches hm).2]
  rfl

def meterRules : List Rule := [.invalidMeterKey, .emptyNumberedKey]

def meterReports (s : ValidationSettings) (m : MeterSettings) (meter : Meter) (ls : List Line) :
    List Diagnostic :=
  (meterBreaches meter (meter.keysWith (m.extraKeysFor meter)) .outside ls).filterMap
    (Breach.diagnostic? s.level)

theorem filter_breaches_meterRules (s : ValidationSettings) (m : MeterSettings)
    (c : InclusionContext) (ls : List Line) :
    (breaches s m c ls).filter (fun b => b.rule ∈ meterRules) = Meter.all.flatMap fun meter =>
      meterBreaches meter (meter.keysWith (m.extraKeysFor meter)) .outside ls := by
  have hother : ∀ r ∈ meterRules,
      r ∈ otherRules ∧ r ≠ .missingRainmeter ∧ r ≠ .missingVariables := by decide
  rw [breaches, List.filter_append, List.filter_append,
    filter_lineBreaches_eq_nil (fun b hb => (hother _ (of_decide_eq_true hb)).1),
    filter_missing_eq_nil (fun b hb => (hother _ (of_decide_eq_true hb)).2), List.nil_append,
    List.nil_append, List.filter_eq_self]
  intro b hb
  obtain ⟨meter, -, hm⟩ := List.mem_flatMap.mp hb
  rcases rule_of_mem_meterBreaches hm with hrule | hrule <;> simp [meterRules, hrule]

/-- The keys of meters are reported by the passes for the kinds of meters, and by nothing else. -/
theorem perm_meterReports (s : ValidationSettings) (m : MeterSettings) (present : Path → Bool)
    (document : Path) (text : Text) :
    ((validate s m present document text).filter (fun d => d.rule ∈ meterRules)).Perm
      (Meter.all.flatMap fun meter => meterReports s m meter (lines (dropMark text))) := by
  have hperm := (perm_validate s m present document text).filter (fun d => d.rule ∈ meterRules)
  rwa [filter_filterMap_diagnostic? s.level fun rule _ => rule ∈ meterRules,
    filter_breaches_meterRules, List.filterMap_flatMap] at hperm

/-- On a line a pass has one finding, about a pair of its meter, or none. -/
theorem filter_meterBreaches_cases (m : Meter) (extra : List Text) (text : Text) (j : Nat) :
    let found := (meterBreaches m (m.keysWith extra) .outside (lines text)).filter
      fun b => b.range.start.line = j
    (∃ b key value raw, found = [b] ∧ BelongsAt m (lines text) j key value raw ∧
      PairFault m extra key value b.rule ∧ PairMessage m key (trim raw) b.message b.rule) ∨
    (∀ key value raw r, BelongsAt m (lines text) j key value raw →
      ¬ PairFault m extra key value r) ∧ found = [] := by
  intro found
  have hon := meterStep_onLine m (m.keysWith extra)
  have hnumbered := Pass.numbered_lines text
  cases hl : (lines text)[j]? with
  | none =>
    refine .inr ⟨fun key value raw r hp => ?_, ?_⟩
    · have hpair := hp.pair
      simp [kindAt, hl] at hpair
    · simp only [found, meterBreaches_eq_found]
      exact Pass.filter_found_of_notMem hon (hnumbered.index_ne hl) _
  | some l =>
    have hfound : found = (meterStep m (m.keysWith extra)
        (Pass.after (meterStep m (m.keysWith extra)) .outside ((lines text).take j)) l).2 := by
      simp only [found, meterBreaches_eq_found]
      exact Pass.filter_found hon hnumbered hl _
    have hstate := Block.describes_after m (m.keysWith extra)
      (List.getElem?_eq_some_iff.mp hl).1.le
    rcases hstate.found hl (m.keysWith extra) with ⟨key, value, raw, hp, hstep⟩ | ⟨hnone, hstep⟩
    · rw [hfound, hstep]
      rcases meterKeyBreaches_cases m extra (trim raw) l key value with
        ⟨r, message, hfault, hmessage, heq⟩ | ⟨hok, heq⟩
      · exact .inl ⟨_, key, value, raw, heq, hp, hfault, hmessage⟩
      · refine .inr ⟨fun key' value' raw' r hp' => ?_, heq⟩
        obtain ⟨rfl, rfl⟩ := hp.unique hp'
        exact hok r
    · exact .inr ⟨fun key value raw r hp => absurd ⟨key, value, raw, hp⟩ hnone, hfound.trans hstep⟩

/-- The keys of meters are reported by the passes for the kinds of meters. Each pass reports the pairs
at fault that belong to its kind of meter, every one of them once and under the name of its section,
and lines that are no pairs declare no meter. -/
theorem meterKey_reported_iff (s : ValidationSettings) (m : MeterSettings) (present : Path → Bool)
    (document : Path) (text : Text) :
    let ls := lines (dropMark text)
    ((validate s m present document text).filter (fun d => d.rule ∈ meterRules)).Perm
      (Meter.all.flatMap fun meter => meterReports s m meter ls) ∧
    ∀ meter j,
      let reports := (meterReports s m meter ls).filter fun d => d.range.start.line = j
      (∀ r, s.level r ≠ .ignore → ((∃ d ∈ reports, d.rule = r) ↔
        ∃ key value raw, BelongsAt meter ls j key value raw ∧
          PairFault meter (m.extraKeysFor meter) key value r)) ∧
      reports.length ≤ 1 ∧
      (∀ d ∈ reports, ∃ key value raw, BelongsAt meter ls j key value raw ∧
        PairMessage meter key (trim raw) d.message d.rule) ∧
      (DeclaresAt meter ls j → ∃ key value, kindAt ls j = some (.keyValue key value)) := by
  intro ls
  refine ⟨perm_meterReports s m present document text, fun meter j => ?_⟩
  intro reports
  have hreports : reports = ((meterBreaches meter (meter.keysWith (m.extraKeysFor meter)) .outside
      ls).filter fun b => b.range.start.line = j).filterMap (Breach.diagnostic? s.level) :=
    filter_filterMap_diagnostic? s.level (fun _ range => range.start.line = j) _
  have hdeclares : DeclaresAt meter ls j → ∃ key value, kindAt ls j = some (.keyValue key value) := by
    rintro ⟨l, hl, hd⟩
    rw [kindAt_of_getElem? hl]
    simpa using kind_of_declares hd
  rcases filter_meterBreaches_cases meter (m.extraKeysFor meter) (dropMark text) j with
    ⟨b, key, value, raw, hfound, hp, hfault, hmessage⟩ | ⟨hok, hfound⟩
  · have hmem (d : Diagnostic) : d ∈ reports ↔ b.diagnostic? s.level = some d := by
      simp [hreports, ls, hfound]
    refine ⟨fun r h => ⟨?_, ?_⟩, ?_, fun d hd => ?_, hdeclares⟩
    · rintro ⟨d, hd, rfl⟩
      rw [(Breach.of_diagnostic? ((hmem d).mp hd)).1]
      exact ⟨key, value, raw, hp, hfault⟩
    · rintro ⟨key', value', raw', hp', hfault'⟩
      obtain ⟨rfl, rfl⟩ := hp.unique hp'
      obtain rfl := hfault.unique hfault'
      obtain ⟨d, hd⟩ := Breach.exists_diagnostic? h
      exact ⟨d, (hmem d).mpr hd, (Breach.of_diagnostic? hd).1⟩
    · rw [hreports]
      exact (List.length_filterMap_le _ _).trans (by rw [hfound]; simp)
    · obtain ⟨hrule, -, htext⟩ := Breach.of_diagnostic? ((hmem d).mp hd)
      rw [hrule, htext]
      exact ⟨key, value, raw, hp, hmessage⟩
  · rw [hreports, hfound]
    refine ⟨fun r h => iff_of_false (by simp) ?_, by simp, by simp, hdeclares⟩
    rintro ⟨key, value, raw, hp, hfault⟩
    exact hok key value raw r hp hfault

/-- A comment and an inclusion do not end a meter, so the key below them is reported. -/
theorem meterKey_reported_below_inclusion :
    ({} : ValidationSettings).level .emptyNumberedKey ≠ .ignore ∧
    ∃ d ∈ (meterReports {} {} .string
      (lines (dropMark "[A]\nmeter=STRING\n;note\n@Include=b\nScale2=".toList))).filter
        fun d => d.range.start.line = 4, d.rule = .emptyNumberedKey := by
  have hlevel : ({} : ValidationSettings).level .emptyNumberedKey ≠ .ignore := by decide
  obtain ⟨-, hlines⟩ := meterKey_reported_iff {} {} (fun _ => false) ⟨"a.ini".toList⟩
    "[A]\nmeter=STRING\n;note\n@Include=b\nScale2=".toList
  refine ⟨hlevel, ((hlines .string 4).1 .emptyNumberedKey hlevel).mpr ?_⟩
  refine ⟨"Scale2".toList, [], "A".toList, ⟨by decide, ?_, by decide⟩, by decide, rfl⟩
  exact ⟨0, ⟨by decide, by decide, by decide⟩, 1, by decide, by decide, by decide⟩

end SkinLint.Validation
