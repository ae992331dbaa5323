import Mathlib.Data.List.Nodup
import Mathlib.Data.List.Perm.Basic
import Mathlib.Data.Set.List
import SkinLint.PathVariables
import SkinLint.Proofs.Text

/-!
# Variables replaced one after the other

A variable is written as its name between two marks `#`, with plain text around it. When some have
been replaced, the marks that are left belong to the others: what stands between two of them is the
name of a variable, or all that has come to stand between two variables. If the latter is never a
name, a replacement finds its own variable and nothing else, and in whatever order the variables are
replaced, each makes room for its value.
-/
namespace SkinLint

namespace Text

section Replacement

variable {sep : Char} {old : Text} (new : Text)

/-- What has no separator in it holds no start of an occurrence. -/
theorem replaceAll_append {a : Text} (h : sep ∉ a) (t : Text) :
    replaceAll (sep :: old) new (a ++ t) = a ++ replaceAll (sep :: old) new t := by
  induction a with
  | nil => rfl
  | cons c a ih =>
    rw [List.mem_cons, not_or] at h
    have hstart : (sep :: old).isPrefixOf (c :: (a ++ t)) = false := by
      simp [List.isPrefixOf, h.1]
    rw [List.cons_append, replaceAll, replaceFrom, if_neg (by simp [hstart])]
    exact congrArg (c :: ·) (ih h.2)

theorem replaceFrom_length_append (a t : Text) :
    replaceFrom old new a.length (a ++ t) = replaceFrom old new 0 t := by
  induction a with
  | nil => rfl
  | cons c a ih => exact ih

theorem replaceAll_self_append (t : Text) :
    replaceAll (sep :: old) new (sep :: old ++ t) = new ++ replaceAll (sep :: old) new t := by
  have hstart : (sep :: old).isPrefixOf (sep :: (old ++ t)) := by
    apply List.isPrefixOf_iff_prefix.mpr
    exact ⟨t, rfl⟩
  rw [List.cons_append, replaceAll, replaceFrom, if_pos hstart]
  exact congrArg (new ++ ·) (replaceFrom_length_append new old t)

theorem replaceAll_cons {c : Char} {t : Text} (h : ¬old <+: c :: t) :
    replaceAll old new (c :: t) = c :: replaceAll old new t := by
  rw [replaceAll, replaceFrom, if_neg (mt List.isPrefixOf_iff_prefix.mp h)]
  rfl

end Replacement

end Text

namespace PathVariables
open Text

inductive Variable where
  | resources
  | skins
  | currentPath
  | currentFile
  | rootConfigPath
  | rootConfig
  | currentConfig
deriving DecidableEq, Repr

namespace Variable

def all : List Variable :=
  [resources, skins, currentPath, currentFile, rootConfigPath, rootConfig, currentConfig]

def name : Variable → Text
  | resources => "@".toList
  | skins => "SKINSPATH".toList
  | currentPath => "CURRENTPATH".toList
  | currentFile => "CURRENTFILE".toList
  | rootConfigPath => "ROOTCONFIGPATH".toList
  | rootConfig => "ROOTCONFIG".toList
  | currentConfig => "CURRENTCONFIG".toList

/-- A variable as it is written: its name between two marks. -/
def token (x : Variable) : Text := '#' :: (x.name ++ ['#'])

theorem mem_all (x : Variable) : x ∈ all := by
  cases x <;> decide

theorem mark_notMem_name (x : Variable) : '#' ∉ x.name := by
  cases x <;> decide

theorem name_injective : Function.Injective name := by
  intro x y h
  have hnodup : (all.map name).Nodup := by decide
  exact List.inj_on_of_nodup_map hnodup x.mem_all y.mem_all h

theorem token_injective : Function.Injective token := by
  intro x y h
  apply name_injective
  simpa [token] using h

section Replacement

variable (z : Variable) (new : Text)

theorem replaceAll_plain {a : Text} (h : '#' ∉ a) (t : Text) :
    replaceAll z.token new (a ++ t) = a ++ replaceAll z.token new t :=
  replaceAll_append new h t

theorem replaceAll_token (t : Text) :
    replaceAll z.token new (z.token ++ t) = new ++ replaceAll z.token new t :=
  replaceAll_self_append new t

/-- A mark without the name behind it does not open the variable. -/
theorem replaceAll_mark {t : Text} (h : ∀ rest, t ≠ z.name ++ '#' :: rest) :
    replaceAll z.token new ('#' :: t) = '#' :: replaceAll z.token new t := by
  apply replaceAll_cons
  rintro ⟨rest, hrest⟩
  apply h rest
  simpa [token] using hrest.symm

/-- Another variable stays, if neither of its marks opens the one that is replaced. -/
theorem replaceAll_other {x : Variable} (hne : x ≠ z) {t : Text}
    (h : ∀ rest, t ≠ z.name ++ '#' :: rest) :
    replaceAll z.token new (x.token ++ t) = x.token ++ replaceAll z.token new t := by
  have hopen : ∀ rest, x.name ++ '#' :: t ≠ z.name ++ '#' :: rest := by
    intro rest hsame
    have hname := (append_sep_inj x.mark_notMem_name z.mark_notMem_name hsame).1
    exact hne (name_injective hname)
  have hspelled (u : Text) : x.token ++ u = '#' :: (x.name ++ '#' :: u) := by simp [token]
  rw [hspelled, replaceAll_mark z new hopen, replaceAll_plain z new x.mark_notMem_name,
    replaceAll_mark z new h, hspelled]

end Replacement

end Variable

def value (v : PathVariables) : Variable → Text
  | .resources => v.resources
  | .skins => v.skins
  | .currentPath => v.currentPath
  | .currentFile => v.currentFile
  | .rootConfigPath => v.rootConfigPath
  | .rootConfig => v.rootConfig
  | .currentConfig => v.currentConfig

theorem entries_eq (v : PathVariables) :
    v.entries = Variable.all.map fun x => (x.token, v.value x) := rfl

/-- Some text for each variable, and behind it the text that follows it. -/
def spell (text : Variable → Text) (parts : List (Variable × Text)) : Text :=
  parts.flatMap fun part => text part.1 ++ part.2

@[simp] theorem spell_nil (text : Variable → Text) : spell text [] = [] := rfl

@[simp] theorem spell_cons (text : Variable → Text) (x : Variable) (behind : Text)
    (rest : List (Variable × Text)) :
    spell text ((x, behind) :: rest) = text x ++ (behind ++ spell text rest) := by
  simp [spell]

abbrev Plain (t : Text) : Prop := '#' ∉ t

/-- Values and texts without marks, such that no name of a variable stands between two variables
once those between them have been replaced. -/
structure Unmistakable (v : PathVariables) (parts : List (Variable × Text)) : Prop where
  values : ∀ x, Plain (v.value x)
  behind : ∀ part ∈ parts, Plain part.2
  between : ∀ x behind between y behind', (x, behind) :: (between ++ [(y, behind')]) <:+: parts →
    ∀ z : Variable, behind ++ spell v.value between ≠ z.name

/-- What stands in place of a variable when some have been replaced. -/
def standing (v : PathVariables) (done : List Variable) (x : Variable) : Text :=
  if x ∈ done then v.value x else x.token

section Order

variable {v : PathVariables} {x : Variable} {behind lead : Text} {parts : List (Variable × Text)}

theorem standing_nil : v.standing [] = Variable.token := by
  funext x
  simp [standing]

theorem standing_of_forall_mem {done : List Variable} (h : ∀ x, x ∈ done) :
    v.standing done = v.value := by
  funext x
  simp [standing, h x]

theorem Unmistakable.tail (h : v.Unmistakable ((x, behind) :: parts)) : v.Unmistakable parts where
  values := h.values
  behind part hpart := h.behind part (List.mem_cons_of_mem _ hpart)
  between x behind between y behind' hinfix :=
    h.between x behind between y behind' (List.infix_cons hinfix)

theorem Unmistakable.plain_head (h : v.Unmistakable ((x, behind) :: parts)) :
    Plain behind ∧ Plain (v.value x ++ behind) := by
  have hbehind : Plain behind := h.behind _ List.mem_cons_self
  refine ⟨hbehind, ?_⟩
  rw [Plain, List.mem_append, not_or]
  exact ⟨h.values x, hbehind⟩

theorem Unmistakable.plain_spell (h : v.Unmistakable parts) : Plain (spell v.value parts) := by
  induction parts with
  | nil => exact List.not_mem_nil
  | cons part parts ih =>
    rcases part with ⟨x, behind⟩
    rw [spell_cons, ← List.append_assoc, Plain, List.mem_append, not_or]
    exact ⟨h.plain_head.2, ih h.tail⟩

/-- The first mark that is left opens a variable, and in front of it stands what has been replaced
so far. -/
theorem exists_between (h : v.Unmistakable parts) (hlead : Plain lead) {done : List Variable}
    {name rest : Text} (hname : Plain name)
    (hsame : lead ++ spell (v.standing done) parts = name ++ '#' :: rest) :
    ∃ between y behind, between ++ [(y, behind)] <+: parts ∧
      lead ++ spell v.value between = name := by
  induction parts generalizing lead with
  | nil =>
    rw [spell_nil, List.append_nil] at hsame
    exact absurd (by simp [hsame]) hlead
  | cons part parts ih =>
    rcases part with ⟨x, behind⟩
    by_cases hx : x ∈ done
    -- Its value is plain text, and what stands in front of the mark grows by it.
    · have hlead' : Plain (lead ++ (v.value x ++ behind)) := by
        rw [Plain, List.mem_append, not_or]
        exact ⟨hlead, h.plain_head.2⟩
      rcases ih h.tail hlead' (by simpa [standing, hx] using hsame) with
        ⟨between, y, behind', hpre, hname'⟩
      refine ⟨(x, behind) :: between, y, behind', ?_, by simpa using hname'⟩
      rw [List.cons_append, List.cons_prefix_cons]
      exact ⟨rfl, hpre⟩
    · have hmark : lead ++ '#' :: (x.name ++ '#' :: (behind ++ spell (v.standing done) parts)) =
          name ++ '#' :: rest := by
        simpa [standing, hx, Variable.token] using hsame
      refine ⟨[], x, behind, by simp, ?_⟩
      simpa using (append_sep_inj hlead hname hmark).1

/-- One replacement replaces one variable. What it would put in its place matters only where the
variable occurs. -/
theorem replaceAll_spell (h : v.Unmistakable parts) (hlead : Plain lead) (done : List Variable)
    (z : Variable) {new : Text} (hnew : ∀ part ∈ parts, part.1 = z → new = v.value z) :
    replaceAll z.token new (lead ++ spell (v.standing done) parts) =
      lead ++ spell (v.standing (z :: done)) parts := by
  induction parts generalizing lead with
  | nil => exact z.replaceAll_plain _ hlead []
  | cons part parts ih =>
    rcases part with ⟨x, behind⟩
    have hlater : ∀ part ∈ parts, part.1 = z → new = v.value z := fun part hpart =>
      hnew part (List.mem_cons_of_mem _ hpart)
    rw [z.replaceAll_plain _ hlead, spell_cons, spell_cons]
    congr 1
    by_cases hx : x ∈ done
    · simpa [standing, hx] using ih h.tail h.plain_head.2 hlater
    have hstanding : v.standing done x = x.token := by simp [standing, hx]
    have hrest := ih h.tail h.plain_head.1 hlater
    by_cases hxz : x = z
    · subst hxz
      have hstanding' : v.standing (x :: done) x = v.value x := by simp [standing]
      rw [hstanding, hstanding', x.replaceAll_token, hrest, hnew _ List.mem_cons_self rfl]
    · have hstanding' : v.standing (z :: done) x = x.token := by simp [standing, hx, hxz]
      -- The second mark of `x` opens no `z`: the next mark opens a variable, and no name of one
      -- stands between the two.
      have hclose : ∀ rest, behind ++ spell (v.standing done) parts ≠ z.name ++ '#' :: rest := by
        intro rest hsame
        rcases exists_between h.tail h.plain_head.1 z.mark_notMem_name hsame with
          ⟨between, y, behind', hpre, hname⟩
        have hinfix : (x, behind) :: (between ++ [(y, behind')]) <:+: (x, behind) :: parts := by
          apply List.IsPrefix.isInfix
          rw [List.cons_prefix_cons]
          exact ⟨rfl, hpre⟩
        exact h.between x behind between y behind' hinfix z hname
      rw [hstanding, hstanding', z.replaceAll_other _ hxz hclose, hrest]

/-- Some replacements replace their variables, by values that are right for those that occur. -/
theorem foldl_replaceAll (h : v.Unmistakable parts) (hlead : Plain lead) {w : PathVariables}
    (hw : ∀ part ∈ parts, w.value part.1 = v.value part.1) (order done : List Variable) :
    order.foldl (fun t x => replaceAll x.token (w.value x) t)
        (lead ++ spell (v.standing done) parts) =
      lead ++ spell (v.standing (order.reverse ++ done)) parts := by
  induction order generalizing done with
  | nil => rfl
  | cons x order ih =>
    have hx : ∀ part ∈ parts, part.1 = x → w.value x = v.value x := by
      rintro part hpart rfl
      exact hw part hpart
    rw [List.foldl_cons, replaceAll_spell h hlead done x hx, ih]
    simp

end Order

section Leftover

variable {t : Text}

theorem startsVariable_iff : startsVariable t = true ↔
    ∃ name behind, t = '#' :: (name ++ '#' :: behind) ∧ name ≠ [] ∧ ∀ c ∈ name, isWord c := by
  unfold startsVariable
  split
  next t =>
    simp only [Bool.and_eq_true, Bool.not_eq_true', beq_iff_eq, List.isEmpty_eq_false_iff,
      List.cons.injEq, true_and]
    constructor
    · rintro ⟨hname, hclose⟩
      obtain ⟨behind, hbehind⟩ := List.head?_eq_some_iff.mp hclose
      refine ⟨t.takeWhile isWord, behind, ?_, hname, fun c hc => List.mem_takeWhile_imp hc⟩
      rw [← hbehind, List.takeWhile_append_dropWhile]
    · rintro ⟨name, behind, rfl, hname, hword⟩
      have hmark : isWord '#' = false := by decide
      rw [List.takeWhile_append_of_pos hword, List.dropWhile_append_of_pos hword]
      simp [hmark, hname]
  next hother =>
    refine iff_of_false (by simp) ?_
    rintro ⟨name, behind, rfl, -⟩
    exact hother _ rfl

theorem startsReference_iff : startsReference t = true ↔
    ∃ inside behind, t = '[' :: '#' :: (inside ++ ']' :: behind) ∧ '\n' ∉ inside := by
  unfold startsReference
  split
  next t =>
    simp only [List.contains_iff_mem, List.cons.injEq, true_and]
    constructor
    · intro hclose
      obtain ⟨inside, behind, hline⟩ := List.append_of_mem hclose
      refine ⟨inside, behind ++ t.dropWhile (· != '\n'), ?_, fun hend => ?_⟩
      · rw [← List.cons_append, ← List.append_assoc, ← hline, List.takeWhile_append_dropWhile]
      · have hmem : '\n' ∈ t.takeWhile (· != '\n') := hline ▸ List.mem_append_left _ hend
        simpa using List.mem_takeWhile_imp hmem
    · rintro ⟨inside, behind, rfl, hline⟩
      have hinside : ∀ c ∈ inside, (c != '\n') = true := by
        intro c hc
        rw [bne_iff_ne]
        rintro rfl
        exact hline hc
      rw [List.takeWhile_append_of_pos hinside]
      simp
  next hother =>
    refine iff_of_false (by simp) ?_
    rintro ⟨inside, behind, rfl, -⟩
    exact hother _ rfl

/-- A variable `#name#`, or a reference `[#...]` on one line, stands somewhere in the text. -/
def HasVariable (t : Text) : Prop :=
  ∃ before behind,
    (∃ name, t = before ++ '#' :: (name ++ '#' :: behind) ∧ name ≠ [] ∧ ∀ c ∈ name, isWord c) ∨
    ∃ inside, t = before ++ '[' :: '#' :: (inside ++ ']' :: behind) ∧ '\n' ∉ inside

theorem hasVariable_iff : hasVariable t = true ↔ HasVariable t := by
  have hsuffix : hasVariable t = true ↔
      ∃ before rest, t = before ++ rest ∧ (startsVariable rest ∨ startsReference rest) := by
    induction t with
    | nil =>
      refine iff_of_false (by simp [hasVariable]) ?_
      rintro ⟨before, rest, hnil, hstarts⟩
      obtain ⟨-, rfl⟩ := List.append_eq_nil_iff.mp hnil.symm
      simp [startsVariable, startsReference] at hstarts
    | cons c t ih =>
      rw [hasVariable, Bool.or_eq_true, Bool.or_eq_true, ih]
      constructor
      · rintro (hstarts | ⟨before, rest, rfl, hstarts⟩)
        · exact ⟨[], c :: t, rfl, hstarts⟩
        · exact ⟨c :: before, rest, rfl, hstarts⟩
      · rintro ⟨_ | ⟨d, before⟩, rest, ht, hstarts⟩
        · exact .inl (ht ▸ hstarts)
        · exact .inr ⟨before, rest, (List.cons.inj ht).2, hstarts⟩
  rw [hsuffix]
  simp only [startsVariable_iff, startsReference_iff, HasVariable]
  constructor
  · rintro ⟨before, _, rfl, ⟨name, behind, rfl, hname⟩ | ⟨inside, behind, rfl, hline⟩⟩
    · exact ⟨before, behind, .inl ⟨name, rfl, hname⟩⟩
    · exact ⟨before, behind, .inr ⟨inside, rfl, hline⟩⟩
  · rintro ⟨before, behind, ⟨name, rfl, hname⟩ | ⟨inside, rfl, hline⟩⟩
    · exact ⟨before, _, rfl, .inl ⟨name, behind, rfl, hname⟩⟩
    · exact ⟨before, _, rfl, .inr ⟨inside, behind, rfl, hline⟩⟩

instance (t : Text) : Decidable (HasVariable t) := decidable_of_iff _ hasVariable_iff

theorem hasVariable_of_plain (h : Plain t) : hasVariable t = false := by
  rw [← Bool.not_eq_true, hasVariable_iff]
  rintro ⟨before, behind, ⟨name, rfl, -⟩ | ⟨inside, rfl, -⟩⟩ <;> simp [Plain] at h

end Leftover

theorem exists_order {v : PathVariables} {order : List (Text × Text)} (h : order.Perm v.entries) :
    ∃ names : List Variable,
      order = names.map (fun x => (x.token, v.value x)) ∧ ∀ x, x ∈ names := by
  rw [entries_eq] at h
  have hrange : order ∈ Set.range (List.map fun x : Variable => (x.token, v.value x)) := by
    rw [Set.range_list_map]
    intro entry hentry
    rcases List.mem_map.mp (h.subset hentry) with ⟨x, -, rfl⟩
    exact ⟨x, rfl⟩
  rcases hrange with ⟨names, rfl⟩
  have hinjective : Function.Injective fun x : Variable => (x.token, v.value x) := by
    intro x y hxy
    exact Variable.token_injective (Prod.mk.inj hxy).1
  refine ⟨names, rfl, fun x => ?_⟩
  rw [((List.map_perm_map_iff hinjective).mp h).mem_iff]
  exact x.mem_all

theorem foldl_entries {v : PathVariables} {parts : List (Variable × Text)} {lead : Text}
    (h : v.Unmistakable parts) (hlead : Plain lead) {order : List (Text × Text)}
    (horder : order.Perm v.entries) :
    order.foldl (fun t (token, value) => replaceAll token value t)
        (lead ++ spell Variable.token parts) = lead ++ spell v.value parts := by
  rcases exists_order horder with ⟨names, rfl, hnames⟩
  have hall : ∀ x, x ∈ names.reverse ++ [] := by simpa using hnames
  have hfold := foldl_replaceAll h hlead (fun _ _ => rfl) names []
  rw [standing_nil, standing_of_forall_mem hall] at hfold
  rw [List.foldl_map]
  exact hfold

/-- Values of variables that do not occur play no part. -/
theorem expand_spell {v w : PathVariables} {parts : List (Variable × Text)} {lead : Text}
    (h : v.Unmistakable parts) (hlead : Plain lead)
    (hw : ∀ part ∈ parts, w.value part.1 = v.value part.1) :
    w.expand (lead ++ spell Variable.token parts) = lead ++ spell v.value parts := by
  have hall : ∀ x, x ∈ Variable.all.reverse ++ [] := by simpa using Variable.mem_all
  have hfold := foldl_replaceAll h hlead hw Variable.all []
  rw [standing_nil, standing_of_forall_mem hall] at hfold
  rw [expand, entries_eq, List.foldl_map]
  exact hfold

theorem expand_of_plain (v : PathVariables) {t : Text} (h : Plain t) : v.expand t = t := by
  have hfixed (x : Variable) : replaceAll x.token (v.value x) t = t := by
    have hnil : replaceAll x.token (v.value x) [] = [] := rfl
    have hplain := x.replaceAll_plain (v.value x) h []
    rwa [hnil, List.append_nil] at hplain
  rw [expand, entries_eq, List.foldl_map]
  exact List.foldl_fixed' hfixed _

/-- Replacing the variables of a text one after the other puts its value in place of each of them,
in whatever order it is done, and leaves nothing to replace. A text without marks stays as it is. -/
theorem expand_substitutes {v : PathVariables} {lead : Text} {parts : List (Variable × Text)}
    (h : v.Unmistakable parts) (hlead : Plain lead) :
    let raw := lead ++ spell Variable.token parts
    let filled := lead ++ spell v.value parts
    v.expand raw = filled ∧ '#' ∉ filled ∧ hasVariable (v.expand raw) = false ∧
    (∀ order : List (Text × Text), order.Perm v.entries →
      order.foldl (fun t (token, value) => replaceAll token value t) raw = filled) ∧
    ∀ plain, '#' ∉ plain → v.expand plain = plain := by
  intro raw filled
  have hexpand : v.expand raw = filled := foldl_entries h hlead (List.Perm.refl _)
  have hplain : Plain filled := by
    rw [Plain, List.mem_append, not_or]
    exact ⟨hlead, h.plain_spell⟩
  refine ⟨hexpand, hplain, ?_, ?_, ?_⟩
  · rw [hexpand]
    exact hasVariable_of_plain hplain
  · intro order horder
    exact foldl_entries h hlead horder
  · intro plain hplain
    exact v.expand_of_plain hplain

/-- A path with three variables, of which one stands between the two others. -/
theorem expand_substitutes_three :
    let v : PathVariables :=
      { resources := "/s/A/@Resources/".toList, skins := "/s/".toList,
        currentPath := "/s/A/B/".toList, currentFile := "B.ini".toList,
        rootConfigPath := "/s/A/".toList, rootConfig := "A".toList,
        currentConfig := "A/B".toList }
    let parts : List (Variable × Text) :=
      [(.skins, []), (.currentConfig, "/@".toList), (.rootConfig, ".inc".toList)]
    let raw : Text := "#SKINSPATH##CURRENTCONFIG#/@#ROOTCONFIG#.inc".toList
    v.Unmistakable parts ∧ raw = [] ++ spell Variable.token parts ∧
    v.expand raw = "/s/A/B/@A.inc".toList ∧ hasVariable (v.expand raw) = false ∧
    ∀ order : List (Text × Text), order.Perm v.entries →
      order.foldl (fun t (token, value) => replaceAll token value t) raw =
        "/s/A/B/@A.inc".toList := by
  intro v parts raw
  have h : v.Unmistakable parts := by
    refine ⟨fun x => ?_, by decide, fun x behind between y behind' hinfix z => ?_⟩
    · cases x <;> decide
    rcases between with _ | ⟨part, _ | ⟨part', between⟩⟩
    · simp only [parts, List.nil_append, List.infix_cons_iff, List.cons_prefix_cons, Prod.mk.injEq,
        List.prefix_nil, List.infix_nil, reduceCtorEq, and_false, or_false] at hinfix
      rcases hinfix with ⟨⟨-, rfl⟩, -⟩ | ⟨⟨-, rfl⟩, -⟩ <;> cases z <;> decide
    · simp only [parts, List.singleton_append, List.infix_cons_iff, List.cons_prefix_cons,
        Prod.mk.injEq, List.prefix_nil, List.infix_nil, reduceCtorEq, and_false, or_false] at hinfix
      rcases hinfix with ⟨⟨-, rfl⟩, rfl, -⟩
      cases z <;> decide
    · have hlength := hinfix.length_le
      simp only [parts, List.length_cons, List.length_append, List.length_nil] at hlength
      omega
  have hraw : raw = [] ++ spell Variable.token parts := by decide
  have hfilled : [] ++ spell v.value parts = "/s/A/B/@A.inc".toList := by decide
  have hexpand := @expand_substitutes v [] parts h List.not_mem_nil
  rw [← hraw, hfilled] at hexpand
  exact ⟨h, hraw, hexpand.1, hexpand.2.2.1, hexpand.2.2.2.1⟩

end PathVariables

end SkinLint
