import SkinLint.Proofs.Validation.Reports

/-!
# Keys of the open section

After some lines the keys that are remembered are those that stand below the nearest header, and the
section that is remembered is the one this header opens. So a key is reported exactly when an
earlier line has it and no header lies between the two.
-/
namespace SkinLint.Validation
open Text Document

def kindAt (ls : List Line) (j : Nat) : Option LineKind := ls[j]?.map Line.kind

def HeaderAt (ls : List Line) (j : Nat) : Prop := ∃ name, kindAt ls j = some (.header name)

instance (ls : List Line) (j : Nat) : Decidable (HeaderAt ls j) :=
  match h : kindAt ls j with
  | some (.header name) => .isTrue ⟨name, h⟩
  | some .blank | some .comment | some .openHeader | some (.inclusion ..) | some (.keyValue ..)
  | some .malformed | none => .isFalse (by simp [HeaderAt, h])

def KeyAt (ls : List Line) (j : Nat) (key : Text) : Prop :=
  ∃ value, kindAt ls j = some (.keyValue key value)

def NoHeaderBetween (ls : List Line) (i j : Nat) : Prop := ∀ k, i < k → k < j → ¬ HeaderAt ls k

instance (ls : List Line) (i j : Nat) : Decidable (NoHeaderBetween ls i j) :=
  decidable_of_iff (∀ k < j, i < k → ¬ HeaderAt ls k)
    ⟨fun h k hi hj => h k hj hi, fun h k hj hi => h k hi hj⟩

def NearestHeader (ls : List Line) (j : Nat) (name : Text) : Prop :=
  ∃ i < j, kindAt ls i = some (.header name) ∧ NoHeaderBetween ls i j

/-- Names that the settings do not tell apart. -/
def SameName (s : ValidationSettings) (a b : Text) : Prop :=
  if s.caseSensitiveNames then a = b else lower a = lower b

instance (s : ValidationSettings) (a b : Text) : Decidable (SameName s a b) :=
  inferInstanceAs (Decidable (if s.caseSensitiveNames then a = b else lower a = lower b))

def RepeatsKey (s : ValidationSettings) (ls : List Line) (j : Nat) : Prop :=
  ∃ key, KeyAt ls j key ∧
    ∃ i < j, ∃ earlier, KeyAt ls i earlier ∧ SameName s earlier key ∧ NoHeaderBetween ls i j

theorem identity_eq_iff (s : ValidationSettings) (a b : Text) :
    identity s a = identity s b ↔ SameName s a b := by
  unfold identity SameName
  split <;> rfl

theorem kindAt_of_getElem? {ls : List Line} {j : Nat} {l : Line} (h : ls[j]? = some l) :
    kindAt ls j = some l.kind := by
  rw [kindAt, h, Option.map_some]

theorem noHeaderBetween_succ_self (ls : List Line) (j : Nat) : NoHeaderBetween ls j (j + 1) := by
  intro k hj hk
  omega

theorem noHeaderBetween_succ {ls : List Line} {i j : Nat} (h : i < j) :
    NoHeaderBetween ls i (j + 1) ↔ NoHeaderBetween ls i j ∧ ¬ HeaderAt ls j := by
  constructor
  · intro hn
    exact ⟨fun k hi hk => hn k hi (by omega), hn j h (by omega)⟩
  · rintro ⟨hn, hj⟩ k hi hk
    by_cases hkj : k = j
    · subst hkj
      exact hj
    · exact hn k hi (by omega)

/-- What is remembered of the keys and of the open section after the first `j` lines. -/
structure Remembers (s : ValidationSettings) (ls : List Line) (j : Nat) (state : Sections) :
    Prop where
  keys : ∀ x, x ∈ state.keys ↔
    ∃ i < j, ∃ key, KeyAt ls i key ∧ identity s key = x ∧ NoHeaderBetween ls i j
  current : (∃ name, NearestHeader ls j name ∧ state.current = some (trim name)) ∨
    (∀ i < j, ¬ HeaderAt ls i) ∧ state.current = none

theorem remembers_zero (s : ValidationSettings) (ls : List Line) : Remembers s ls 0 {} :=
  ⟨fun x => by simp, .inr ⟨fun i hi => absurd hi (Nat.not_lt_zero i), rfl⟩⟩

/-- A header forgets the keys and opens its section. -/
theorem Remembers.header {s : ValidationSettings} {ls : List Line} {j : Nat} {state : Sections}
    {name : Text} (hk : kindAt ls j = some (.header name)) (hkeys : state.keys = [])
    (hcurrent : state.current = some (trim name)) : Remembers s ls (j + 1) state := by
  constructor
  · intro x
    constructor
    · intro hx
      simp [hkeys] at hx
    · rintro ⟨i, hi, key, ⟨value, hkey⟩, -, hn⟩
      by_cases hij : i = j
      · subst hij
        simp [hk] at hkey
      · exact absurd ⟨name, hk⟩ (hn j (by omega) (by omega))
  · exact .inl ⟨name, ⟨j, by omega, hk, noHeaderBetween_succ_self ls j⟩, hcurrent⟩

/-- Any other line leaves the section open, and adds its key if it has one. -/
theorem Remembers.other {s : ValidationSettings} {ls : List Line} {j : Nat}
    {state state' : Sections} (h : Remembers s ls j state) (hk : ¬ HeaderAt ls j)
    (hkeys : ∀ x, x ∈ state'.keys ↔ x ∈ state.keys ∨ ∃ key, KeyAt ls j key ∧ identity s key = x)
    (hcurrent : state'.current = state.current) : Remembers s ls (j + 1) state' := by
  constructor
  · intro x
    rw [hkeys, h.keys]
    constructor
    · rintro (⟨i, hi, key, hkey, hx, hn⟩ | ⟨key, hkey, hx⟩)
      · exact ⟨i, by omega, key, hkey, hx, (noHeaderBetween_succ hi).mpr ⟨hn, hk⟩⟩
      · exact ⟨j, by omega, key, hkey, hx, noHeaderBetween_succ_self ls j⟩
    · rintro ⟨i, hi, key, hkey, hx, hn⟩
      by_cases hij : i = j
      · subst hij
        exact .inr ⟨key, hkey, hx⟩
      · have hlt : i < j := by omega
        exact .inl ⟨i, hlt, key, hkey, hx, ((noHeaderBetween_succ hlt).mp hn).1⟩
  · rw [hcurrent]
    rcases h.current with ⟨name, ⟨i, hi, hname, hn⟩, hc⟩ | ⟨hnone, hc⟩
    · exact .inl ⟨name, ⟨i, by omega, hname, (noHeaderBetween_succ hi).mpr ⟨hn, hk⟩⟩, hc⟩
    · refine .inr ⟨fun i hi => ?_, hc⟩
      by_cases hij : i = j
      · subst hij
        exact hk
      · exact hnone i (by omega)

theorem openSection_keys (s : ValidationSettings) (state : Sections) (l : Line) (raw : Text) :
    (state.openSection s l raw).1.keys = [] := by
  unfold Sections.openSection
  dsimp only
  split <;> rfl

theorem openSection_current (s : ValidationSettings) (state : Sections) (l : Line) (raw : Text) :
    (state.openSection s l raw).1.current = some (trim raw) := by
  unfold Sections.openSection
  dsimp only
  split
  · rename_i h
    rw [List.isEmpty_iff.mp h]
  · rfl

theorem mem_recordKey_keys (s : ValidationSettings) (state : Sections) (l : Line) (key x : Text) :
    x ∈ (state.recordKey s l key).1.keys ↔ x ∈ state.keys ∨ identity s key = x := by
  unfold Sections.recordKey
  split
  · rename_i h
    have hm : identity s key ∈ state.keys := by simpa using h
    constructor
    · exact .inl
    · rintro (hx | rfl)
      · exact hx
      · exact hm
  · simp [or_comm, eq_comm]

theorem recordKey_current (s : ValidationSettings) (state : Sections) (l : Line) (key : Text) :
    (state.recordKey s l key).1.current = state.current := by
  unfold Sections.recordKey
  split <;> rfl

theorem Remembers.step {s : ValidationSettings} {ls : List Line} {j : Nat} {state : State}
    {l : Line} (h : Remembers s ls j state.sections) (hl : ls[j]? = some l)
    (c : InclusionContext) : Remembers s ls (j + 1) (step s c state l).1.sections := by
  have hat := kindAt_of_getElem? hl
  have hkeep (hh : ¬ HeaderAt ls j) (hkey : ∀ key, ¬ KeyAt ls j key) :
      Remembers s ls (j + 1) state.sections :=
    h.other hh (fun x => by simp [hkey]) rfl
  unfold Validation.step
  cases hk : l.kind with
  | header name =>
    exact .header (hat.trans (congrArg some hk)) (openSection_keys s _ l name)
      (openSection_current s _ l name)
  | keyValue key value =>
    rw [hk] at hat
    refine h.other (by simp [HeaderAt, hat]) (fun x => ?_) (recordKey_current s _ l key)
    rw [mem_recordKey_keys]
    simp [KeyAt, hat]
  | _ =>
    rw [hk] at hat
    exact hkeep (by simp [HeaderAt, hat]) (by simp [KeyAt, hat])

theorem remembers_after (s : ValidationSettings) (c : InclusionContext) {ls : List Line} {j : Nat}
    (h : j ≤ ls.length) :
    Remembers s ls j (Pass.after (step s c) {} (ls.take j)).sections :=
  Pass.after_take_induction (P := fun j (state : State) => Remembers s ls j state.sections)
    (remembers_zero s ls) (fun hl hstate => hstate.step hl c) h

/-- Only a key that is remembered is reported as repeated. -/
theorem filter_step_duplicateKey (s : ValidationSettings) (c : InclusionContext) (state : State)
    (l : Line) : (step s c state l).2.filter (fun b => b.rule = .duplicateKey) =
      match l.kind with
      | .keyValue key _ =>
        if identity s key ∈ state.sections.keys then
          [⟨.duplicateKey, keyRange l key, duplicateKeyMessage key state.sections.current⟩]
        else []
      | _ => [] := by
  cases hk : l.kind with
  | keyValue key value =>
    simp only [step, hk, Sections.recordKey, List.contains_iff_mem]
    split <;> rfl
  | _ =>
    rw [List.filter_eq_nil_iff]
    intro b hb he
    have hfault := (fault_of_mem_step hb).1
    rw [hk, of_decide_eq_true he] at hfault
    simp [Fault, HeaderFault, InclusionFault] at hfault

theorem KeyAt.unique {ls : List Line} {j : Nat} {a b : Text} (ha : KeyAt ls j a)
    (hb : KeyAt ls j b) : a = b := by
  obtain ⟨v, hv⟩ := ha
  obtain ⟨w, hw⟩ := hb
  rw [hv] at hw
  simp only [Option.some.injEq, LineKind.keyValue.injEq] at hw
  exact hw.1

theorem Remembers.mem_keys_iff {s : ValidationSettings} {ls : List Line} {j : Nat}
    {state : Sections} {key : Text} (h : Remembers s ls j state) (hk : KeyAt ls j key) :
    identity s key ∈ state.keys ↔ RepeatsKey s ls j := by
  rw [h.keys]
  constructor
  · rintro ⟨i, hi, earlier, he, hid, hn⟩
    exact ⟨key, hk, i, hi, earlier, he, (identity_eq_iff s _ _).mp hid, hn⟩
  · rintro ⟨key', hk', i, hi, earlier, he, hname, hn⟩
    obtain rfl := hk.unique hk'
    exact ⟨i, hi, earlier, he, (identity_eq_iff s _ _).mpr hname, hn⟩

/-- The message names the section of the nearest header. -/
theorem Remembers.message {s : ValidationSettings} {ls : List Line} {j : Nat} {state : Sections}
    (h : Remembers s ls j state) (key : Text) :
    (∃ name, NearestHeader ls j name ∧ duplicateKeyMessage key state.current =
      s!"Duplicate key '{str key}' found in section [{str (trim name)}].") ∨
    (∀ i < j, ¬ HeaderAt ls i) ∧ duplicateKeyMessage key state.current =
      s!"Duplicate key '{str key}' found before any section." := by
  rcases h.current with ⟨name, hname, hc⟩ | ⟨hnone, hc⟩
  · rw [hc]
    exact .inl ⟨name, hname, rfl⟩
  · rw [hc]
    exact .inr ⟨hnone, rfl⟩

/-- On a line there is one report if it repeats a key, and none if it does not. -/
theorem duplicateKey_reports {s : ValidationSettings} {severity : Severity}
    (hs : Severity.ofLevel? (s.level .duplicateKey) = some severity) (m : MeterSettings)
    (present : Path → Bool) (document : Path) (text : Text) (j : Nat) :
    let ls := lines (dropMark text)
    let reports := (validate s m present document text).filter
      fun d => d.rule = .duplicateKey ∧ d.range.start.line = j
    (RepeatsKey s ls j ∧ ∃ d key state, reports = [d] ∧ KeyAt ls j key ∧ Remembers s ls j state ∧
      d.message = duplicateKeyMessage key state.current) ∨
    ¬ RepeatsKey s ls j ∧ reports = [] := by
  intro ls reports
  cases hl : ls[j]? with
  | none =>
    refine .inr ⟨?_, reports_eq_nil (R := (· = .duplicateKey)) m present document (by decide) hl⟩
    rintro ⟨key, ⟨value, hk⟩, -⟩
    simp [kindAt, hl] at hk
  | some l =>
    have hat := kindAt_of_getElem? hl
    have hperm := perm_reports m present document (by decide) hs hl
    have hstate := remembers_after s (context s present document)
      (List.getElem?_eq_some_iff.mp hl).1.le
    rw [filter_step_duplicateKey] at hperm
    by_cases hkey : ∃ key, KeyAt ls j key
    · obtain ⟨key, value, hk⟩ := hkey
      have hkind : l.kind = .keyValue key value := Option.some.inj (hat.symm.trans hk)
      have hiff := hstate.mem_keys_iff ⟨value, hk⟩
      simp only [hkind] at hperm
      by_cases hm : RepeatsKey s ls j
      · rw [if_pos (hiff.mpr hm)] at hperm
        exact .inl ⟨hm, _, key, _, hperm.eq_singleton, ⟨value, hk⟩, hstate, rfl⟩
      · rw [if_neg (mt hiff.mp hm)] at hperm
        exact .inr ⟨hm, hperm.eq_nil⟩
    · have hnone : ¬ RepeatsKey s ls j := fun ⟨key, hk, _⟩ => hkey ⟨key, hk⟩
      refine .inr ⟨hnone, ?_⟩
      split at hperm
      · rename_i key value hkind
        exact absurd ⟨key, value, hat.trans (congrArg some hkind)⟩ hkey
      · exact hperm.eq_nil

/-- Repeated keys are reported, each on its line, once and under the nearest header, and nothing
else is reported as one. -/
theorem duplicateKey_reported_iff {s : ValidationSettings} (h : s.level .duplicateKey ≠ .ignore)
    (m : MeterSettings) (present : Path → Bool) (document : Path) (text : Text) (j : Nat) :
    let ls := lines (dropMark text)
    let reports := (validate s m present document text).filter
      fun d => d.rule = .duplicateKey ∧ d.range.start.line = j
    (reports ≠ [] ↔ RepeatsKey s ls j) ∧ reports.length ≤ 1 ∧
      ∀ d ∈ reports, ∃ key, KeyAt ls j key ∧
        ((∃ name, NearestHeader ls j name ∧
          d.message = s!"Duplicate key '{str key}' found in section [{str (trim name)}].") ∨
        (∀ i < j, ¬ HeaderAt ls i) ∧
          d.message = s!"Duplicate key '{str key}' found before any section.") := by
  intro ls reports
  obtain ⟨severity, hs⟩ := Severity.exists_ofLevel? h
  rcases duplicateKey_reports hs m present document text j with
    ⟨hrep, d, key, state, hr, hk, hstate, hmessage⟩ | ⟨hrep, hr⟩
  · change reports = [d] at hr
    rw [hr]
    refine ⟨iff_of_true (by simp) hrep, by simp, fun d' hd => ⟨key, hk, ?_⟩⟩
    rw [List.mem_singleton.mp hd, hmessage]
    exact hstate.message key
  · change reports = [] at hr
    rw [hr]
    exact ⟨iff_of_false (by simp) hrep, by simp, by simp⟩

/-- An inclusion between two spellings of a key does not keep the second from being reported. -/
theorem duplicateKey_reported_across_inclusion :
    ({} : ValidationSettings).level .duplicateKey ≠ .ignore ∧
    ((validate {} {} (fun _ => false) ⟨"a.ini".toList⟩
      "[A]\nkey=1\n@Include=b\nKEY=2".toList).filter
        fun d => d.rule = .duplicateKey ∧ d.range.start.line = 3) ≠ [] := by
  have hlevel : ({} : ValidationSettings).level .duplicateKey ≠ .ignore := by decide
  refine ⟨hlevel, (duplicateKey_reported_iff hlevel _ _ _ _ 3).1.mpr ?_⟩
  refine ⟨"KEY".toList, ⟨"2".toList, by decide⟩, 1, by decide, "key".toList,
    ⟨"1".toList, by decide⟩, by decide, ?_⟩
  rintro k hi hk ⟨name, hname⟩
  obtain rfl : k = 2 := by omega
  have hat : kindAt (lines (dropMark "[A]\nkey=1\n@Include=b\nKEY=2".toList)) 2 =
      some (.inclusion "@Include".toList "b".toList) := by decide
  rw [hat] at hname
  simp at hname

end SkinLint.Validation
