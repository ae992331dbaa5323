import SkinLint.Proofs.Toml.Printing

/-!
# Changing one entry

A document in which one entry is set is printed as before but for the text of that entry: whatever
the form of its table, the new entry stands where the old one stood, or at the end of the table, and
what is printed before and behind it is the same, with the same comments. This is `spliced_render`.
-/
namespace SkinLint.Toml
open Quoted (Unquoted)

/-- Comments of the text and of what follows it are found apart, as long as that starts with
`behind`. -/
def Parts (w behind : Text) : Prop :=
  ∀ r, comments (w ++ (behind ++ r)) = comments w ++ comments (behind ++ r)

theorem Closed.parts {w : Text} (h : Closed w) (behind : Text) : Parts w behind := fun _ => h _

theorem Token.parts {w behind : Text} (h : Token w) (hb : Unquoted behind) (hne : behind ≠ []) :
    Parts w behind := fun r => h _ (hb.append hne r)

theorem Parts.comments_append {w behind : Text} (h : Parts w behind) :
    comments (w ++ behind) = comments w ++ comments behind := by
  simpa using h []

theorem Parts.extend {w behind : Text} (h : Parts w behind) (r : Text) : Parts w (behind ++ r) :=
  fun r' => by simpa using h (r ++ r')

theorem Parts.prepend {x w behind : Text} (hx : Closed x) (h : Parts w behind) :
    Parts (x ++ w) behind := fun r => by
  rw [List.append_assoc, hx, h, hx, List.append_assoc]

def Spliced (was fresh t t' : Text) : Prop :=
  ∃ before behind, t = before ++ (was ++ behind) ∧ t' = before ++ (fresh ++ behind) ∧
    Parts before (was ++ behind) ∧ Parts before (fresh ++ behind) ∧
    Parts was behind ∧ Parts fresh behind

theorem Spliced.prepend {was fresh t t' x : Text} (h : Spliced was fresh t t') (hx : Closed x) :
    Spliced was fresh (x ++ t) (x ++ t') := by
  obtain ⟨before, behind, rfl, rfl, h₁, h₂, h₃, h₄⟩ := h
  exact ⟨x ++ before, behind, by simp, by simp, h₁.prepend hx, h₂.prepend hx, h₃, h₄⟩

theorem Spliced.extend {was fresh t t' : Text} (h : Spliced was fresh t t') (r : Text) :
    Spliced was fresh (t ++ r) (t' ++ r) := by
  obtain ⟨before, behind, rfl, rfl, h₁, h₂, h₃, h₄⟩ := h
  refine ⟨before, behind ++ r, by simp, by simp, ?_, ?_, h₃.extend r, h₄.extend r⟩
  · simpa using h₁.extend r
  · simpa using h₂.extend r

theorem Closed.spliced {before was fresh : Text} (hbefore : Closed before) (hwas : Closed was)
    (hfresh : Closed fresh) (behind : Text) :
    Spliced was fresh (before ++ (was ++ behind)) (before ++ (fresh ++ behind)) :=
  ⟨before, behind, rfl, rfl, hbefore.parts _, hbefore.parts _, hwas.parts _, hfresh.parts _⟩

/-- The text says that the setting has the value, and nothing in comments. -/
def Says (name written t : Text) : Prop :=
  comments t = [] ∧ name ++ [' ', '=', ' '] ++ written <:+: t

namespace Document

theorem put_cases (name : Text) (n : Node) (entries : Entries) :
    (entries.find? (·.1.name = name) = none ∧
        put name n entries = entries ++ [(Key.bare name, n)]) ∨
      ∃ pre k old post, entries.find? (·.1.name = name) = some (k, old) ∧
        entries = pre ++ (k, old) :: post ∧
        put name n entries = pre ++ (Key.bare name, n) :: post := by
  induction entries with
  | nil => exact .inl ⟨rfl, rfl⟩
  | cons p rest ih =>
    obtain ⟨k, old⟩ := p
    by_cases hk : k.name = name
    · exact .inr ⟨[], k, old, rest, by simp [hk], rfl, by simp [put, hk]⟩
    · obtain ⟨hfind, hput⟩ | ⟨pre, k', old', post, hfind, hentries, hput⟩ := ih
      · exact .inl ⟨by simpa [hk] using hfind, by simp [put, hk, hput]⟩
      · exact .inr ⟨(k, old) :: pre, k', old', post, by simpa [hk] using hfind,
          by simp [hentries], by simp [put, hk, hput]⟩

theorem putIn?_cases {table name : Text} {n : Node} {root root' : Entries}
    (h : putIn? table name n root = some root') :
    (root.find? (·.1.name = table) = none ∧
      root' = root ++ [(Key.bare table, Node.table (.headed none none) [(.bare name, n)])]) ∨
    ∃ pre k form entries post, root.find? (·.1.name = table) = some (k, .table form entries) ∧
      root = pre ++ (k, Node.table form entries) :: post ∧
      root' = pre ++ (k, Node.table form (put name n entries)) :: post := by
  induction root generalizing root' with
  | nil =>
    cases h
    exact .inl ⟨rfl, rfl⟩
  | cons p rest ih =>
    obtain ⟨k, old⟩ := p
    rw [putIn?.eq_def] at h
    dsimp only at h
    split at h
    next hk =>
      split at h
      next form entries =>
        cases h
        exact .inr ⟨[], k, form, entries, rest, by simp [hk], rfl, rfl⟩
      next => cases h
    next hk =>
      obtain ⟨rest', hrest, rfl⟩ := Option.map_eq_some_iff.1 h
      obtain ⟨hfind, rfl⟩ | ⟨pre, k', form, entries, post, hfind, rfl, rfl⟩ := ih hrest
      · exact .inl ⟨by simpa [hk] using hfind, rfl⟩
      · exact .inr ⟨(k, old) :: pre, k', form, entries, post, by simpa [hk] using hfind, rfl, rfl⟩

end Document

theorem entriesLeaves_append (path : List Key) (a b : Entries) :
    entriesLeaves path (a ++ b) = entriesLeaves path a ++ entriesLeaves path b := by
  induction a with
  | nil => rfl
  | cons p a ih => simp [entriesLeaves, ih]

theorem entriesSections_append (path : List Key) (a b : Entries) :
    entriesSections path (a ++ b) = entriesSections path a ++ entriesSections path b := by
  induction a with
  | nil => rfl
  | cons p a ih => simp [entriesSections, ih]

def entryIn (k : Key) (form : Form) (name : Text) (entries : Entries) : Text :=
  match entries.find? (·.1.name = name) with
  | none => []
  | some (k', n) =>
    match form with
    | .inline .. => (n.leaves [k']).flatMap memberOf
    | .dotted => (n.leaves [k, k']).flatMap lineOf
    | _ => (n.leaves [k']).flatMap lineOf

/-- The text of an entry of one of the tables of a document: its own lines with the comments above
and behind, or its part of what stands between braces. -/
def Document.entryText (table name : Text) (d : Document) : Text :=
  match d.root.find? (·.1.name = table) with
  | some (k, .table form entries) => entryIn k form name entries
  | _ => []

theorem writePath_append_bare (usual : Text × Text) (path : List Key) (name : Text) :
    writePath usual (path ++ [Key.bare name]) =
      usual.1 ++ path.flatMap (fun k => k.before ++ k.spelling ++ k.after ++ ['.']) ++ name ++
        usual.2 := by
  simp [writePath, frame, Key.bare, Text.joinWith_append_cons, List.flatMap_map]

theorem quiet_flatMap {α : Type} {f : α → Text} {l : List α} (h : ∀ a ∈ l, Quiet (f a)) :
    Quiet (l.flatMap f) := by
  induction l with
  | nil => exact fun _ => rfl
  | cons a l ih =>
    rw [List.flatMap_cons]
    exact (h a List.mem_cons_self).append (ih fun b hb => h b (List.mem_cons_of_mem _ hb))

theorem quiet_dotted {path : List Key} (hpath : ∀ k ∈ path, k.Led) :
    Quiet (path.flatMap fun k => k.before ++ k.spelling ++ k.after ++ ['.']) :=
  quiet_flatMap fun k hk => (hpath k hk).token.append_quiet (quiet_of_mute (by simp [isMute]))
    (by simp [Unquoted]) (by simp)

/-- The value that is put, as it is written behind a path that ends with its name. -/
def freshLeaf (path : List Key) (name written : Text) : List Key × (Text × Text → Text) :=
  (path ++ [.bare name], fun usual => frame usual none written)

/-- A part of what stands between braces, with a blank behind it if it is the `last`. -/
def memberWith (last : Bool) (leaf : List Key × (Text × Text → Text)) : Text :=
  writePath ([' '], [' ']) leaf.1 ++ '=' :: leaf.2 ([' '], if last then [' '] else [])

theorem LeafSpelled.memberWith_eq {leaf : List Key × (Text × Text → Text)}
    (h : LeafSpelled [] leaf) (last : Bool) : memberWith last leaf = memberOf leaf := by
  obtain ⟨a, w, b, hvalue, -⟩ := h.value
  simp only [memberWith, memberOf, hvalue]

theorem writeMembers_append_cons {above below : List (List Key × (Text × Text → Text))}
    (ha : ∀ leaf ∈ above, LeafSpelled [] leaf) (hb : ∀ leaf ∈ below, LeafSpelled [] leaf)
    (leaf : List Key × (Text × Text → Text)) :
    writeMembers (above ++ leaf :: below) =
      above.flatMap (memberOf · ++ [',']) ++ memberWith below.isEmpty leaf ++
        below.flatMap (',' :: memberOf ·) := by
  induction above with
  | nil =>
    cases below with
    | nil => simp [writeMembers, memberWith]
    | cons next below =>
      have hrest := writeMembers_eq hb
      have hjoin := Text.joinWith_append_cons ',' [] (memberOf next) (below.map memberOf)
      simp_all [writeMembers, memberWith, List.flatMap_map]
  | cons first above ih =>
    have ih := ih fun leaf hleaf => ha leaf (List.mem_cons_of_mem _ hleaf)
    obtain ⟨next, rest, hnext⟩ : ∃ next rest, above ++ leaf :: below = next :: rest :=
      List.exists_cons_of_ne_nil (by simp)
    obtain ⟨a, w, b, hvalue, -⟩ := (ha first List.mem_cons_self).value
    rw [hnext] at ih
    rw [List.cons_append, hnext]
    simp [writeMembers, ih, memberOf, hvalue]

theorem writeMembers_append_singleton {leaves : List (List Key × (Text × Text → Text))}
    (h : ∀ leaf ∈ leaves, LeafSpelled [] leaf) (leaf : List Key × (Text × Text → Text)) :
    writeMembers (leaves ++ [leaf]) =
      writeMembers leaves ++ ((if leaves.isEmpty then [] else [',']) ++ memberWith true leaf) := by
  rw [writeMembers_append_cons h (by simp)]
  obtain rfl | ⟨above, last, rfl⟩ := List.eq_nil_or_concat leaves
  · simp [writeMembers]
  · rw [List.concat_eq_append] at h ⊢
    rw [writeMembers_append_cons (fun leaf hleaf => h leaf (List.mem_append_left _ hleaf))
      (by simp)]
    simp [memberWith, memberOf]

theorem writeSections_append (first : Bool) (ss ss' : List Section) :
    writeSections first (ss ++ ss') =
      writeSections first ss ++ writeSections (first && ss.all (!·.hasHeader)) ss' := by
  induction ss generalizing first with
  | nil => simp [writeSections]
  | cons s ss ih =>
    cases hs : s.hasHeader <;> simp [writeSections, hs, ih]

theorem writeSections_false (first : Bool) (ss : List Section) :
    ∃ gap, (gap = [] ∨ gap = ['\n']) ∧ writeSections false ss = gap ++ writeSections first ss := by
  cases first with
  | false => exact ⟨[], .inl rfl, rfl⟩
  | true =>
    induction ss with
    | nil => exact ⟨[], .inl rfl, rfl⟩
    | cons s ss ih =>
      cases hs : s.hasHeader with
      | false => simpa [writeSections, hs] using ih
      | true =>
        cases hm : s.margin with
        | none => exact ⟨['\n'], .inr rfl, by simp [writeSections, hs, Section.header, hm, frame]⟩
        | some m => exact ⟨[], .inl rfl, by simp [writeSections, hs, Section.header, hm, frame]⟩

section Fresh

variable {name written : Text} (hname : ∀ c ∈ name, isMute c) (hwritten : Silent written)
include hname hwritten

theorem quiet_lineOf_fresh {path : List Key} (hpath : ∀ k ∈ path, k.Led) :
    Quiet (lineOf (freshLeaf path name written)) ∧
      name ++ [' ', '=', ' '] ++ written <:+: lineOf (freshLeaf path name written) := by
  have hline : lineOf (freshLeaf path name written) =
      path.flatMap (fun k => k.before ++ k.spelling ++ k.after ++ ['.']) ++
        (name ++ [' ', '=', ' '] ++ written) ++ ['\n'] := by
    simp [lineOf, freshLeaf, writePath_append_bare, frame]
  have hsaid : Silent (name ++ [' ', '=', ' '] ++ written) :=
    ((quiet_of_mute hname).append (quiet_of_mute (by simp [isMute]))).append_silent hwritten
  rw [hline]
  refine ⟨?_, ⟨_, _, rfl⟩⟩
  exact ((quiet_dotted hpath).append_silent hsaid).append_quiet (quiet_of_mute (by simp [isMute]))
    (by simp [Unquoted]) (by simp)

/-- An entry put into a table changes its lines where the old entry stood, or at their end. -/
theorem spliced_lines {path : List Key} (hpath : ∀ k ∈ path, k.Led) {entries : Entries}
    (he : EntriesSpelled ['\n'] entries) (v : Value) :
    Spliced
      (match entries.find? (·.1.name = name) with
        | none => []
        | some (k, n) => (n.leaves (path ++ [k])).flatMap lineOf)
      (lineOf (freshLeaf path name written))
      ((entriesLeaves path entries).flatMap lineOf)
      ((entriesLeaves path
        (Document.put name (.value none written v) entries)).flatMap lineOf) := by
  obtain ⟨hfresh, -⟩ := quiet_lineOf_fresh hname hwritten hpath
  obtain ⟨hfind, hput⟩ | ⟨pre, k, old, post, hfind, rfl, hput⟩ :=
    Document.put_cases name (.value none written v) entries
  · simp only [hfind, hput, entriesLeaves_append, List.flatMap_append]
    simpa [entriesLeaves, Node.leaves, freshLeaf]
      using (closed_lines he hpath).spliced closed_nil hfresh.closed []
  · simp only [hfind, hput, entriesLeaves_append, entriesLeaves, List.flatMap_append, Node.leaves,
      List.flatMap_cons, List.flatMap_nil]
    have hall := entriesSpelled_iff.1 he
    have hpre : EntriesSpelled ['\n'] pre :=
      entriesSpelled_iff.2 fun p hp => hall p (List.mem_append_left _ hp)
    have hold := hall (k, old) (List.mem_append_right _ List.mem_cons_self)
    have hpath' := List.forall_mem_append.2 ⟨hpath, List.forall_mem_singleton.2 hold.1⟩
    have hwas : Closed ((old.leaves (path ++ [k])).flatMap lineOf) :=
      closed_flatMap fun leaf hleaf =>
        (Node.leaves_spelled hpath' old hold.2.1 leaf hleaf).closed_lineOf
    simpa [freshLeaf] using (closed_lines hpre hpath).spliced hwas hfresh.closed _

theorem silent_memberWith_fresh (last : Bool) :
    Silent (memberWith last (freshLeaf [] name written)) ∧
      name ++ [' ', '=', ' '] ++ written <:+: memberWith last (freshLeaf [] name written) ∧
      ∃ t, memberWith last (freshLeaf [] name written) = ' ' :: t := by
  have hmember : memberWith last (freshLeaf [] name written) =
      [' '] ++ (name ++ [' ', '=', ' '] ++ written) ++ (if last then [' '] else []) := by
    have hpath := writePath_append_bare ([' '], [' ']) [] name
    simp_all [memberWith, freshLeaf, frame]
  have hsaid : Silent ([' '] ++ (name ++ [' ', '=', ' '] ++ written)) := by
    refine (quiet_of_mute (by simp [isMute])).append_silent ?_
    exact ((quiet_of_mute hname).append (quiet_of_mute (by simp [isMute]))).append_silent hwritten
  rw [hmember]
  refine ⟨?_, ⟨_, _, rfl⟩, _, rfl⟩
  cases last with
  | true =>
    exact (hsaid.append_quiet (quiet_of_mute (by simp [isMute])) (by simp [Unquoted]) (by simp)).silent
  | false => simpa using hsaid

theorem spliced_newMember {leaves : List (List Key × (Text × Text → Text))}
    (h : ∀ leaf ∈ leaves, LeafSpelled [] leaf) {ending : Text} (hunquoted : Unquoted ending)
    (hne : ending ≠ []) :
    ∃ fresh, Says name written fresh ∧ Spliced [] fresh (writeMembers leaves ++ ending)
      (writeMembers (leaves ++ [freshLeaf [] name written]) ++ ending) := by
  obtain ⟨hfresh, hinfix, t, ht⟩ := silent_memberWith_fresh hname hwritten true
  have htoken : Token (writeMembers leaves) := by
    rw [writeMembers_eq h]
    refine token_joinWith fun piece hpiece => ?_
    obtain ⟨leaf, hleaf, rfl⟩ := List.mem_map.1 hpiece
    exact (h leaf hleaf).token_memberOf
  have hcomma : Quiet (if leaves.isEmpty then [] else [',']) := by
    split <;> exact quiet_of_mute (by simp [isMute])
  have hfresh' := hcomma.append_silent hfresh
  rw [writeMembers_append_singleton h]
  refine ⟨_, ⟨hfresh'.comments_eq, hinfix.trans (List.suffix_append _ _).isInfix⟩,
    writeMembers leaves, ending, by simp, by simp, ?_, ?_, closed_nil.parts _,
    hfresh'.token.parts hunquoted hne⟩
  · exact htoken.parts hunquoted hne
  · refine htoken.parts ?_ (by simp [hne])
    split <;> simp [Unquoted, ht]

theorem spliced_oldMember {above below : List (List Key × (Text × Text → Text))}
    {leaf : List Key × (Text × Text → Text)}
    (h : ∀ leaf' ∈ above ++ leaf :: below, LeafSpelled [] leaf') {ending : Text}
    (hunquoted : Unquoted ending) (hne : ending ≠ []) :
    ∃ fresh, Says name written fresh ∧
      Spliced (memberOf leaf) fresh (writeMembers (above ++ leaf :: below) ++ ending)
        (writeMembers (above ++ freshLeaf [] name written :: below) ++ ending) := by
  obtain ⟨hfresh, hinfix, -⟩ := silent_memberWith_fresh hname hwritten below.isEmpty
  obtain ⟨habove, hleaf, hbelow⟩ : (∀ leaf ∈ above, LeafSpelled [] leaf) ∧ LeafSpelled [] leaf ∧
      ∀ leaf ∈ below, LeafSpelled [] leaf := by
    simpa only [List.forall_mem_append, List.forall_mem_cons] using h
  rw [writeMembers_append_cons habove hbelow, writeMembers_append_cons habove hbelow,
    hleaf.memberWith_eq]
  have hbefore : Closed (above.flatMap (memberOf · ++ [','])) :=
    closed_flatMap fun leaf hleaf => (habove leaf hleaf).token_memberOf.append_closed
      (closed_of_mute (by simp [isMute])) (by simp [Unquoted]) (by simp)
  obtain ⟨hbehind, hne'⟩ : Unquoted (below.flatMap (',' :: memberOf ·) ++ ending) ∧
      below.flatMap (',' :: memberOf ·) ++ ending ≠ [] := by
    cases below with
    | nil => exact ⟨hunquoted, hne⟩
    | cons leaf below => exact ⟨by simp [Unquoted], by simp⟩
  exact ⟨_, ⟨hfresh.comments_eq, hinfix⟩, _, _, by simp, by simp, hbefore.parts _, hbefore.parts _,
    hleaf.token_memberOf.parts hbehind hne', hfresh.token.parts hbehind hne'⟩

/-- An entry put into a table between braces changes it where the old entry stood, or at its end. -/
theorem spliced_members {entries : Entries} (he : EntriesSpelled [] entries)
    (hold : ∀ k n, entries.find? (·.1.name = name) = some (k, n) → ∃ m w v, n = .value m w v)
    {trailing : Text} (htrailing : Gap trailing) (comma : Bool) (v : Value) :
    ∃ fresh, Says name written fresh ∧
      Spliced
        (match entries.find? (·.1.name = name) with
          | none => []
          | some (k, n) => (n.leaves [k]).flatMap memberOf)
        fresh
        (writeMembers (entriesLeaves [] entries) ++ braceEnd comma trailing)
        (writeMembers (entriesLeaves [] (Document.put name (.value none written v) entries)) ++
          braceEnd comma trailing) := by
  have hleaves := entriesLeaves_spelled (List.forall_mem_nil Key.Led) entries he
  obtain ⟨-, hunquoted, hne⟩ := closed_braceEnd comma htrailing
  obtain ⟨hfind, hput⟩ | ⟨pre, k, old, post, hfind, rfl, hput⟩ :=
    Document.put_cases name (.value none written v) entries
  · have hput' : entriesLeaves [] (Document.put name (.value none written v) entries) =
        entriesLeaves [] entries ++ [freshLeaf [] name written] := by
      rw [hput, entriesLeaves_append]
      rfl
    rw [hfind, hput']
    exact spliced_newMember hname hwritten hleaves hunquoted hne
  · obtain ⟨m, w, v', rfl⟩ := hold k old hfind
    rw [hput]
    simp only [hfind, entriesLeaves_append] at hleaves ⊢
    simpa [entriesLeaves, Node.leaves, freshLeaf]
      using spliced_oldMember hname hwritten hleaves hunquoted hne

end Fresh

section Sections

variable {name written was fresh : Text}

theorem Says.ne_nil (h : Says name written fresh) : fresh ≠ [] := by
  rintro rfl
  simpa using h.2

theorem Says.frame (h : Says name written fresh) (hfresh : Closed fresh) {before behind : Text}
    (hbefore : Quiet before) (hbehind : Quiet behind) :
    Says name written (before ++ fresh ++ behind) := by
  refine ⟨?_, h.2.trans ⟨before, behind, rfl⟩⟩
  rw [List.append_assoc, hbefore, hfresh, h.1, hbehind.comments_eq, List.nil_append]

theorem Spliced.of_nil {t' : Text} (h : Spliced was fresh [] t') :
    was = [] ∧ t' = fresh ∧ Closed fresh := by
  obtain ⟨before, behind, hnil, rfl, -, -, -, hfresh⟩ := h
  obtain ⟨rfl, rfl, rfl⟩ : before = [] ∧ was = [] ∧ behind = [] := by simpa using hnil
  exact ⟨rfl, by simp, fun r => by simpa using hfresh r⟩

theorem quiet_gap {gap : Text} (h : gap = [] ∨ gap = ['\n']) : Quiet gap := by
  obtain rfl | rfl := h <;> exact quiet_of_mute (by simp [isMute])

theorem spliced_top {top top' : Text} (h : Spliced was fresh top top')
    (hsaid : Says name written fresh) (ss : List Section) :
    ∃ fresh', Says name written fresh' ∧
      Spliced was fresh' (top ++ writeSections top.isEmpty ss)
        (top' ++ writeSections top'.isEmpty ss) := by
  have hne : top'.isEmpty = false := by
    obtain ⟨before, behind, -, rfl, -⟩ := h
    simp [hsaid.ne_nil]
  rw [hne]
  by_cases htop : top = []
  · subst htop
    obtain ⟨rfl, rfl, hfresh⟩ := h.of_nil
    obtain ⟨gap, hgap, hsections⟩ := writeSections_false true ss
    refine ⟨_, hsaid.frame hfresh (fun _ => rfl : Quiet []) (quiet_gap hgap), ?_⟩
    have := closed_nil.spliced closed_nil (hfresh.append (quiet_gap hgap).closed)
      (writeSections true ss)
    simpa [hsections] using this
  · have htop' : top.isEmpty = false := by simpa using htop
    rw [htop']
    exact ⟨fresh, hsaid, h.extend _⟩

theorem spliced_newSection {above : List Section} (habove : ∀ s ∈ above, SectionSpelled s)
    (below : List Section) {s : Section} (hs : s.hasHeader)
    (hheader : ∀ first, Quiet (s.header first)) (hlines : Closed s.lines)
    (hsaid : Says name written s.lines) (first : Bool) :
    ∃ fresh', Says name written fresh' ∧
      Spliced [] fresh' (writeSections first (above ++ below))
        (writeSections first (above ++ s :: below)) := by
  rw [writeSections_append, writeSections_append]
  generalize (first && above.all (!·.hasHeader)) = flag
  obtain ⟨gap, hgap, hsections⟩ := writeSections_false flag below
  refine ⟨_, hsaid.frame hlines (hheader flag) (quiet_gap hgap), ?_⟩
  have := (closed_writeSections habove first).spliced closed_nil
    (((hheader flag).closed.append hlines).append (quiet_gap hgap).closed)
    (writeSections flag below)
  simpa [writeSections, hs, hsections] using this

theorem spliced_oldSection {above : List Section} (habove : ∀ s ∈ above, SectionSpelled s)
    (below : List Section) {s : Section} {entries : Entries} (hs : SectionSpelled s)
    (hheader : s.hasHeader = false → ∀ first, Quiet (s.header first))
    (hlines : Spliced was fresh s.lines { s with entries }.lines)
    (hsaid : Says name written fresh) (first : Bool) :
    ∃ fresh', Says name written fresh' ∧
      Spliced was fresh' (writeSections first (above ++ s :: below))
        (writeSections first (above ++ { s with entries } :: below)) := by
  have hne : { s with entries }.lines ≠ [] := by
    obtain ⟨before, behind, -, hnew, -⟩ := hlines
    simp [hnew, hsaid.ne_nil]
  have hhas' : { s with entries }.hasHeader := by
    unfold Section.hasHeader
    split
    · simpa using hne
    · rfl
  cases hhas : s.hasHeader with
  | true =>
    refine ⟨fresh, hsaid, ?_⟩
    rw [writeSections_append, writeSections_append]
    generalize (first && above.all (!·.hasHeader)) = flag
    have hbefore := (closed_writeSections habove first).append (hs.closed_header flag)
    have := (hlines.extend (writeSections false below)).prepend hbefore
    simpa [writeSections, hhas, hhas', Section.header, Section.margin] using this
  | false =>
    have hnil : s.lines = [] := by
      unfold Section.hasHeader at hhas
      split at hhas <;> simp_all
    rw [hnil] at hlines
    obtain ⟨rfl, hnew, hclosed⟩ := hlines.of_nil
    have hskip :
        writeSections first (above ++ s :: below) = writeSections first (above ++ below) := by
      simp [writeSections_append, writeSections, hhas]
    rw [hskip]
    exact spliced_newSection (s := { s with entries }) habove below hhas' (hheader hhas)
      (by rwa [hnew]) (by rwa [hnew]) first

end Sections

theorem render_eq (d : Document) :
    d.render = (entriesLeaves [] d.root).flatMap lineOf ++
      writeSections ((entriesLeaves [] d.root).flatMap lineOf).isEmpty
        (inPlace (entriesSections [] d.root)) ++ d.trailing := rfl

/-- A value has no sections, so a value in the place of another leaves the sections as they are. -/
theorem entriesSections_put {name : Text} {entries : Entries}
    (hold : ∀ k n, entries.find? (·.1.name = name) = some (k, n) → ∃ m w v, n = .value m w v)
    (path : List Key) (m : Margin) (w : Text) (v : Value) :
    entriesSections path (Document.put name (.value m w v) entries) =
      entriesSections path entries := by
  obtain ⟨hfind, hput⟩ | ⟨pre, k, old, post, hfind, rfl, hput⟩ :=
    Document.put_cases name (.value m w v) entries
  · simp [hput, entriesSections_append, entriesSections, Node.sections]
  · obtain ⟨m', w', v', rfl⟩ := hold k old hfind
    simp [hput, entriesSections_append, entriesSections, Node.sections]

def Document.HoldsValue (table name : Text) (d : Document) : Prop :=
  ∀ k form entries, d.root.find? (·.1.name = table) = some (k, .table form entries) →
    ∀ k' n, entries.find? (·.1.name = name) = some (k', n) → ∃ m w v, n = .value m w v

instance (table name : Text) (d : Document) : Decidable (d.HoldsValue table name) :=
  decidable_of_iff
    ((d.root.find? (·.1.name = table)).all fun
      | (_, .table _ entries) => (entries.find? (·.1.name = name)).all fun
        | (_, .value ..) => true
        | _ => false
      | _ => true) <| by
    simp only [Document.HoldsValue, Option.all_eq_true]
    constructor
    · intro h k form entries hroot k' n hname
      have hvalue := (Option.all_eq_true _ _).1 (h _ hroot) _ hname
      cases n with
      | value m w v => exact ⟨m, w, v, rfl⟩
      | _ => cases hvalue
    · rintro h ⟨k, n⟩ hroot
      cases n with
      | table form entries =>
        refine (Option.all_eq_true _ _).2 ?_
        rintro ⟨k', n⟩ hname
        obtain ⟨m, w, v, rfl⟩ := h k form entries hroot k' n hname
        rfl
      | _ => rfl

theorem Key.spelled_bare {name : Text} (h : ∀ c ∈ name, isMute c) : (Key.bare name).Spelled :=
  ⟨⟨(quiet_of_mute h).silent, by simp [Key.bare], by simp [Key.bare], by simp [Key.bare]⟩,
    by simp [Key.bare]⟩

/-- The header of a table of the root that had none holds no comments. -/
theorem quiet_header {k : Key} (hk : k.Spelled) {s : Section} (hpath : s.path = [k])
    (helement : s.isElement = false) (hmargin : s.margin = none) (first : Bool) :
    Quiet (s.header first) := by
  obtain ⟨hbefore, hafter⟩ : (∀ c ∈ (k.margin.getD ([], [])).1, isMute c) ∧
      ∀ c ∈ (k.margin.getD ([], [])).2, isMute c := by
    cases hm : k.margin with
    | none => simp
    | some m => exact ⟨hk.lead m hm, (hk.margin m hm).2⟩
  have hname := (quiet_of_mute (w := '[' :: (k.margin.getD ([], [])).1)
    (by simpa using ⟨by decide, hbefore⟩)).append_silent hk.token
  have hclose : ∀ c ∈ (k.margin.getD ([], [])).2 ++ [']', '\n'], isMute c :=
    List.forall_mem_append.2 ⟨hafter, by simp [isMute]⟩
  have hline := hname.append_quiet (quiet_of_mute hclose) (gap_of_mute hclose).2 (by simp)
  have hgap : Quiet (if first then [] else ['\n']) := quiet_gap (by cases first <;> simp)
  have := hgap.append hline
  simpa [Section.header, hpath, helement, hmargin, writePath, frame, Text.joinWith] using this

section Tables

variable {form : Form} (hform : form = .implied ∨ ∃ place m, form = .headed place m)
include hform

/-- A table with a header, or with tables below it that have one, is a section of its own, in front
of those below it. -/
theorem entriesSections_table (pre post entries : Entries) (k : Key) :
    entriesSections [] (pre ++ (k, Node.table form entries) :: post) =
      entriesSections [] pre ++ ⟨[k], false, form, entries⟩ ::
        (entriesSections [k] entries ++ entriesSections [] post) := by
  obtain rfl | ⟨place, m, rfl⟩ := hform <;>
    simp [entriesSections_append, entriesSections, Node.sections]

/-- None of its values is written in the lines of the table around it. -/
theorem entriesLeaves_table (pre post entries : Entries) (k : Key) :
    entriesLeaves [] (pre ++ (k, Node.table form entries) :: post) =
      entriesLeaves [] pre ++ entriesLeaves [] post := by
  obtain rfl | ⟨place, m, rfl⟩ := hform <;>
    simp [entriesLeaves_append, entriesLeaves, Node.leaves]

theorem entriesSpelled_of_table {stop : Text} {entries : Entries}
    (h : (Node.table form entries).Spelled stop) : EntriesSpelled stop entries := by
  obtain rfl | ⟨place, m, rfl⟩ := hform
  · exact h
  · exact h.2

end Tables

section Render

variable {root : Entries} {trailing table name written : Text} {v : Value}
  (htable : ∀ c ∈ table, isMute c) (hname : ∀ c ∈ name, isMute c) (hwritten : Silent written)
include hname hwritten

theorem says_lineOf_fresh {path : List Key} (hpath : ∀ k ∈ path, k.Led) :
    Says name written (lineOf (freshLeaf path name written)) :=
  have h := quiet_lineOf_fresh hname hwritten hpath
  ⟨h.1.comments_eq, h.2⟩

include htable in
/-- A table that is missing is printed with a header of its own. -/
theorem spliced_newTable (hroot : EntriesSpelled ['\n'] root) :
    ∃ fresh, Says name written fresh ∧
      Spliced [] fresh (Document.render ⟨root, trailing⟩)
        (Document.render ⟨root ++ [(.bare table,
          .table (.headed none none) [(.bare name, .value none written v)])], trailing⟩) := by
  let s : Section :=
    ⟨[.bare table], false, .headed none none, [(.bare name, .value none written v)]⟩
  obtain ⟨above, below, hwas, hnow⟩ := inPlace_splice none (entriesSections [] root) []
  have hwas := hwas rfl
  have hnow := hnow s rfl
  have habove : ∀ s ∈ above, SectionSpelled s := by
    intro s hs
    refine entriesSections_spelled (List.forall_mem_nil Key.Led) root hroot s (mem_inPlace.1 ?_)
    rw [List.append_nil] at hwas
    rw [hwas]
    exact List.mem_append_left _ hs
  have hlines : s.lines = lineOf (freshLeaf [] name written) := by
    simp [s, Section.lines, entriesLeaves, Node.leaves, freshLeaf, lineOf]
  have hheader := quiet_header (Key.spelled_bare htable) (s := s) rfl rfl rfl
  obtain ⟨hquiet, hinfix⟩ := quiet_lineOf_fresh hname hwritten (List.forall_mem_nil Key.Led)
  obtain ⟨fresh, hsaid, hspliced⟩ := spliced_newSection (s := s) habove below rfl hheader
    (by rw [hlines]; exact hquiet.closed) (by rw [hlines]; exact ⟨hquiet.comments_eq, hinfix⟩)
    ((entriesLeaves [] root).flatMap lineOf).isEmpty
  refine ⟨fresh, hsaid, ?_⟩
  rw [List.append_nil] at hwas
  have hform : Form.headed none none = .implied ∨
      ∃ place m, Form.headed none none = .headed place m := .inr ⟨none, none, rfl⟩
  have hsections : entriesSections [.bare table] [(.bare name, .value none written v)] ++
      entriesSections [] [] = [] := rfl
  simp only [render_eq, entriesLeaves_table hform, entriesSections_table hform, hsections, hwas,
    entriesLeaves, List.append_nil]
  rw [hnow]
  exact (hspliced.prepend (closed_lines hroot (by simp))).extend trailing

/-- A table with a header, or with tables below it that have one. -/
theorem spliced_headedTable {pre post entries : Entries} {k : Key} {form : Form}
    (hform : form = .implied ∨ ∃ place m, form = .headed place m)
    (hroot : EntriesSpelled ['\n'] (pre ++ (k, .table form entries) :: post))
    (hold : ∀ k n, entries.find? (·.1.name = name) = some (k, n) → ∃ m w v, n = .value m w v) :
    ∃ fresh, Says name written fresh ∧
      Spliced (entryIn k form name entries) fresh
        (Document.render ⟨pre ++ (k, .table form entries) :: post, trailing⟩)
        (Document.render ⟨pre ++
          (k, .table form (Document.put name (.value none written v) entries)) :: post,
          trailing⟩) := by
  let s : Section := ⟨[k], false, form, entries⟩
  have hall := entriesSpelled_iff.1 hroot
  obtain ⟨hk, hnode, himplied⟩ := hall _ (List.mem_append_right _ List.mem_cons_self)
  have hentries := entriesSpelled_of_table hform hnode
  obtain ⟨above, below, -, hplace⟩ := inPlace_splice s.place? (entriesSections [] pre)
    (entriesSections [k] entries ++ entriesSections [] post)
  have hwas := hplace s rfl
  have hnow := hplace { s with entries := Document.put name (.value none written v) entries } rfl
  have hspelled : ∀ s' ∈ above ++ s :: below, SectionSpelled s' := by
    intro s' hs'
    refine entriesSections_spelled (List.forall_mem_nil Key.Led) _ hroot s' ?_
    rw [entriesSections_table hform, ← mem_inPlace]
    exact hwas ▸ hs'
  obtain ⟨habove, hs, -⟩ : (∀ s' ∈ above, SectionSpelled s') ∧ SectionSpelled s ∧
      ∀ s' ∈ below, SectionSpelled s' := by
    simpa only [List.forall_mem_append, List.forall_mem_cons] using hspelled
  have hheader (hhas : s.hasHeader = false) (first : Bool) : Quiet (s.header first) := by
    obtain rfl | ⟨place, m, rfl⟩ := hform
    · exact quiet_header (himplied rfl) rfl rfl rfl first
    · cases hhas
  have hlines := spliced_lines hname hwritten (List.forall_mem_nil Key.Led) hentries v
  obtain ⟨fresh, hsaid, hspliced⟩ := spliced_oldSection habove below hs hheader hlines
    (says_lineOf_fresh hname hwritten (by simp))
    ((entriesLeaves [] pre ++ entriesLeaves [] post).flatMap lineOf).isEmpty
  refine ⟨fresh, hsaid, ?_⟩
  have hclosed : Closed ((entriesLeaves [] pre ++ entriesLeaves [] post).flatMap lineOf) := by
    rw [← entriesLeaves_table hform pre post entries k]
    exact closed_lines hroot (by simp)
  have htext : entryIn k form name entries =
      match entries.find? (·.1.name = name) with
      | none => []
      | some (k, n) => (n.leaves ([] ++ [k])).flatMap lineOf := by
    obtain rfl | ⟨place, m, rfl⟩ := hform <;> rfl
  rw [htext]
  simp only [render_eq, entriesLeaves_table hform, entriesSections_table hform,
    entriesSections_put hold [k] none written v]
  rw [hnow, hwas]
  exact (hspliced.prepend hclosed).extend trailing

theorem spliced_dottedTable {pre post entries : Entries} {k : Key}
    (hroot : EntriesSpelled ['\n'] (pre ++ (k, .table .dotted entries) :: post))
    (hold : ∀ k n, entries.find? (·.1.name = name) = some (k, n) → ∃ m w v, n = .value m w v) :
    ∃ fresh, Says name written fresh ∧
      Spliced (entryIn k .dotted name entries) fresh
        (Document.render ⟨pre ++ (k, .table .dotted entries) :: post, trailing⟩)
        (Document.render ⟨pre ++
          (k, .table .dotted (Document.put name (.value none written v) entries)) :: post,
          trailing⟩) := by
  have hall := entriesSpelled_iff.1 hroot
  have hpre : EntriesSpelled ['\n'] pre :=
    entriesSpelled_iff.2 fun p hp => hall p (List.mem_append_left _ hp)
  obtain ⟨hk, hentries, -⟩ := hall _ (List.mem_append_right _ List.mem_cons_self)
  have hpath : ∀ k' ∈ [k], k'.Led := List.forall_mem_singleton.2 hk
  have hlines := spliced_lines hname hwritten hpath hentries v
  have htop := (hlines.extend ((entriesLeaves [] post).flatMap lineOf)).prepend
    (closed_lines hpre (List.forall_mem_nil Key.Led))
  obtain ⟨fresh, hsaid, hspliced⟩ := spliced_top htop (says_lineOf_fresh hname hwritten hpath)
    (inPlace (entriesSections [] (pre ++ (k, .table .dotted entries) :: post)))
  refine ⟨fresh, hsaid, ?_⟩
  have hsections : entriesSections [] (pre ++ (k, .table .dotted
      (Document.put name (.value none written v) entries)) :: post) =
        entriesSections [] (pre ++ (k, .table .dotted entries) :: post) := by
    simp [entriesSections_append, entriesSections, Node.sections, entriesSections_put hold]
  have := hspliced.extend trailing
  simpa [render_eq, hsections, entriesLeaves_append, entriesLeaves, Node.leaves, entryIn] using this

theorem spliced_inlineTable {pre post entries : Entries} {k : Key} {m : Margin} {comma : Bool}
    {last : Text}
    (hroot : EntriesSpelled ['\n'] (pre ++ (k, .table (.inline m comma last) entries) :: post))
    (hold : ∀ k n, entries.find? (·.1.name = name) = some (k, n) → ∃ m w v, n = .value m w v) :
    ∃ fresh, Says name written fresh ∧
      Spliced (entryIn k (.inline m comma last) name entries) fresh
        (Document.render ⟨pre ++ (k, .table (.inline m comma last) entries) :: post, trailing⟩)
        (Document.render ⟨pre ++ (k, .table (.inline m comma last)
          (Document.put name (.value none written v) entries)) :: post, trailing⟩) := by
  have hall := entriesSpelled_iff.1 hroot
  have hpre : EntriesSpelled ['\n'] pre :=
    entriesSpelled_iff.2 fun p hp => hall p (List.mem_append_left _ hp)
  obtain ⟨hk, ⟨⟨b, rfl, hb⟩, hlast, hentries⟩, -⟩ :=
    hall _ (List.mem_append_right _ List.mem_cons_self)
  obtain ⟨fresh, hsaid, hmembers⟩ := spliced_members hname hwritten hentries hold hlast comma v
  have hopen : Closed (writePath ([], [' ']) [k] ++ '=' :: b.1 ++ ['\x7b']) := by
    have hpath : Token (writePath ([], [' ']) [k]) :=
      token_writePath closed_nil (gap_of_mute (by simp [isMute])) (List.forall_mem_singleton.2 hk)
    exact (hpath.append_closed (hb.1.cons (by decide)) (by simp [Unquoted]) (by simp)).append
      (closed_of_mute (by simp [isMute]))
  have hline := (hmembers.prepend hopen).extend (b.2 ++ ['\n'])
  have htop := (hline.extend ((entriesLeaves [] post).flatMap lineOf)).prepend
    (closed_lines hpre (List.forall_mem_nil Key.Led))
  obtain ⟨fresh', hsaid', hspliced⟩ := spliced_top htop hsaid
    (inPlace (entriesSections [] (pre ++ post)))
  refine ⟨fresh', hsaid', ?_⟩
  have := hspliced.extend trailing
  simpa [render_eq, entriesSections_append, entriesSections, Node.sections, entriesLeaves_append,
    entriesLeaves, Node.leaves, entryIn, lineOf, frame, braceEnd] using this

end Render

/-- Changing an entry of a document changes what is printed where the old entry stood, or where
there is a place for a new one. -/
theorem spliced_render {d d' : Document} (hd : EntriesSpelled ['\n'] d.root)
    {table name written : Text} (htable : ∀ c ∈ table, isMute c) (hname : ∀ c ∈ name, isMute c)
    (hwritten : Silent written) {v : Value} (hold : d.HoldsValue table name)
    (h : d.set? table name (.value none written v) = some d') :
    ∃ fresh, Says name written fresh ∧
      Spliced (d.entryText table name) fresh d.render d'.render := by
  obtain ⟨root, trailing⟩ := d
  obtain ⟨root', hroot', rfl⟩ := Option.map_eq_some_iff.1 h
  obtain ⟨hfind, rfl⟩ | ⟨pre, k, form, entries, post, hfind, rfl, rfl⟩ :=
    Document.putIn?_cases hroot'
  · rw [Document.entryText, hfind]
    exact spliced_newTable htable hname hwritten hd
  · rw [Document.entryText, hfind]
    have hvalue := hold k form entries hfind
    cases form with
    | inline m comma last => exact spliced_inlineTable hname hwritten hd hvalue
    | dotted => exact spliced_dottedTable hname hwritten hd hvalue
    | implied => exact spliced_headedTable hname hwritten (.inl rfl) hd hvalue
    | headed place m => exact spliced_headedTable hname hwritten (.inr ⟨place, m, rfl⟩) hd hvalue

end SkinLint.Toml
