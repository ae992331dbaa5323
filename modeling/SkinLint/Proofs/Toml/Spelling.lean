import SkinLint.Proofs.Toml.Comments

/-!
# The spelling of a document

Every text that a document keeps of what was read is closed, so that comments are found in it, and
in whatever is written before and behind it, as if it stood alone.
-/
namespace SkinLint.Toml
open Quoted (Unquoted)

def Gap (w : Text) : Prop := Closed w ∧ Unquoted w

theorem consumed_append (w rest : Text) : consumed (w ++ rest) rest = w := by
  simp [consumed]

theorem spaces_append_dropSpaces (t : Text) : spaces t ++ dropSpaces t = t :=
  List.takeWhile_append_dropWhile

theorem gap_of_mute {w : Text} (hw : ∀ c ∈ w, isMute c) : Gap w := by
  refine ⟨closed_of_mute hw, ?_⟩
  cases w with
  | nil => simp [Unquoted]
  | cons c w =>
    have := hw c List.mem_cons_self
    grind [Unquoted, isMute]

theorem isMute_of_mem_spaces {t : Text} {c : Char} (hc : c ∈ spaces t) : isMute c :=
  isMute_of_mem_takeWhile (p := Quoted.isSpace) (by decide) hc

theorem gap_spaces (t : Text) : Gap (spaces t) := gap_of_mute fun _ => isMute_of_mem_spaces

theorem Closed.cons {c : Char} (hc : isMute c) {w : Text} (h : Closed w) : Closed (c :: w) :=
  (closed_of_mute (w := [c]) (by simpa using hc)).append h

theorem Token.gap {w w' : Text} (h : Token w) (h' : Gap w') : Token (w ++ w') :=
  h.append_token h'.1 h'.2

namespace Key

/-- The texts of a key are closed, with comments in front of its path at most. -/
structure Led (k : Key) : Prop where
  spelling : Silent k.spelling
  before : ∀ c ∈ k.before, isMute c
  after : ∀ c ∈ k.after, isMute c
  margin : ∀ m ∈ k.margin, Closed m.1 ∧ ∀ c ∈ m.2, isMute c

structure Spelled (k : Key) : Prop extends Led k where
  lead : ∀ m ∈ k.margin, ∀ c ∈ m.1, isMute c

theorem Spelled.withLead {k : Key} (h : k.Spelled) {lead : Text} (hlead : Closed lead) :
    (k.withLead lead).Led := by
  refine ⟨h.spelling, h.before, h.after, ?_⟩
  rintro m hm
  obtain ⟨m', hm', rfl⟩ := Option.map_eq_some_iff.1 hm
  exact ⟨hlead.append (h.margin m' hm').1, (h.margin m' hm').2⟩

theorem Led.token {k : Key} (h : k.Led) : Silent (k.before ++ k.spelling ++ k.after) := by
  have hspelling := (quiet_of_mute h.before).append_silent h.spelling
  by_cases hne : k.after = []
  · simpa [hne] using hspelling
  · exact (hspelling.append_quiet (quiet_of_mute h.after) (gap_of_mute h.after).2 hne).silent

end Key

theorem keyName?_cut {t name rest : Text} (h : keyName? .v11 t = some (name, rest)) :
    ∃ w, t = w ++ rest ∧ Silent w := by
  unfold keyName? at h
  split at h
  next found hread =>
    cases h
    obtain ⟨q, w, -, rfl, hagain⟩ := Quoted.readShort?_cut hread
    refine ⟨q :: w ++ [q], by simp, silent_of_reads (x := name) fun r hr => ?_⟩
    simpa using Quoted.read?_of_readShort? (hagain r) hr
  next =>
    split at h
    · cases h
    · cases h
      refine ⟨_, List.takeWhile_append_dropWhile.symm, (quiet_of_mute fun c hc => ?_).silent⟩
      exact isMute_of_mem_takeWhile (by decide) hc

theorem keys?_cut {fuel : Nat} {t rest : Text} {keys : List Key}
    (h : keys? .v11 fuel t = some (keys, rest)) :
    (∃ w, t = w ++ rest ∧ Token w) ∧ ∀ k ∈ keys, k.Spelled := by
  induction fuel generalizing t keys with
  | zero => cases h
  | succ fuel ih =>
    obtain ⟨⟨name, behind⟩, hname, h⟩ := Option.bind_eq_some_iff.1 h
    obtain ⟨w, hw, hsilent⟩ := keyName?_cut hname
    have ht : t = spaces t ++ w ++ spaces behind ++ dropSpaces behind := by
      rw [List.append_assoc, spaces_append_dropSpaces, List.append_assoc, ← hw,
        spaces_append_dropSpaces]
    have hkey : Key.Spelled
        ⟨name, consumed (dropSpaces t) behind, none, spaces t, spaces behind⟩ := by
      rw [hw, consumed_append]
      exact ⟨⟨hsilent, fun _ => isMute_of_mem_spaces, fun _ => isMute_of_mem_spaces, by simp⟩,
        by simp⟩
    have hfirst : Token (spaces t ++ w ++ spaces behind) :=
      ((gap_spaces t).1.append_token hsilent.token).gap (gap_spaces behind)
    dsimp only at h
    split at h
    next behind' hdot =>
      obtain ⟨⟨keys', rest'⟩, hkeys, hrest⟩ := Option.map_eq_some_iff.1 h
      cases hrest
      obtain ⟨⟨w', hw', htoken'⟩, hspelled⟩ := ih hkeys
      refine ⟨⟨spaces t ++ w ++ spaces behind ++ '.' :: w', ?_, ?_⟩, ?_⟩
      · refine ht.trans ?_
        simp [hdot, hw']
      · have hdotted : Closed (spaces t ++ w ++ spaces behind ++ ['.']) :=
          hfirst.append_closed (closed_of_mute (by simp [isMute])) (by simp [Unquoted]) (by simp)
        simpa using hdotted.append_token htoken'
      · simpa using ⟨hkey, hspelled⟩
    next =>
      cases h
      exact ⟨⟨_, ht, hfirst⟩, by simpa using hkey⟩

theorem splitPath?_spelled {keys path : List Key} {k : Key} (h : splitPath? keys = some (path, k))
    (hkeys : ∀ k ∈ keys, k.Spelled) : (∀ k ∈ path, k.Spelled) ∧ k.Spelled := by
  obtain ⟨first, hfirst, h⟩ := Option.bind_eq_some_iff.1 h
  obtain ⟨last, hlast, h⟩ := Option.bind_eq_some_iff.1 h
  obtain ⟨final, hfinal, h⟩ := Option.bind_eq_some_iff.1 h
  cases h
  have hfirst' := hkeys first (List.mem_of_head? hfirst)
  have hlast' := hkeys last (List.mem_of_getLast? hlast)
  have htrimmed : ∀ k ∈ { first with before := [] } :: keys.tail, k.Spelled := by
    rintro k (_ | ⟨_, hk⟩)
    · exact { hfirst' with before := by simp }
    · exact hkeys k (List.mem_of_mem_tail hk)
  have hfinal' := htrimmed final (List.mem_of_getLast? hfinal)
  refine ⟨fun k hk => htrimmed k ((List.dropLast_sublist _).subset hk), ?_⟩
  refine ⟨⟨hfinal'.spelling, hfinal'.before, by simp, ?_⟩, ?_⟩
  · rintro m ⟨⟩
    exact ⟨closed_of_mute hfirst'.before, hlast'.after⟩
  · rintro m ⟨⟩
    exact hfirst'.before

theorem path?_cut {t rest : Text} {path : List Key} {k : Key}
    (h : path? .v11 t = some ((path, k), rest)) :
    (∃ w, t = w ++ rest ∧ Token w) ∧ (∀ k ∈ path, k.Spelled) ∧ k.Spelled := by
  obtain ⟨⟨keys, rest'⟩, hkeys, h⟩ := Option.bind_eq_some_iff.1 h
  obtain ⟨split, hsplit, h⟩ := Option.bind_eq_some_iff.1 h
  cases h
  obtain ⟨hcut, hspelled⟩ := keys?_cut hkeys
  exact ⟨hcut, splitPath?_spelled hsplit hspelled⟩

theorem expect?_eq_some_iff {c : Char} {t rest : Text} :
    Scalar.expect? c t = some rest ↔ t = c :: rest := by
  cases t <;> grind [Scalar.expect?]

/-- Blanks, line ends and comments up to something else; `inComment` says where it starts. -/
theorem dropFiller?_cut {inComment : Bool} {t rest : Text}
    (h : dropFiller? inComment t = some rest) (hne : rest ≠ []) :
    ∃ w, t = w ++ rest ∧
      if inComment then ∀ line, '\n' ∉ line → Closed ('#' :: line ++ w) else Gap w := by
  fun_induction dropFiller? inComment t with
  | case1 =>
    cases h
    exact absurd rfl hne
  | case2 d t hd ih =>
    obtain ⟨w, rfl, hgap⟩ := ih h
    obtain rfl : d = '\n' := eq_of_beq hd
    refine ⟨'\n' :: w, rfl, fun line hline => ?_⟩
    have := (closed_comment hline).append hgap.1
    simpa using this
  | case3 d t hd hplain ih =>
    obtain ⟨w, rfl, hclosed⟩ := ih h
    refine ⟨d :: w, rfl, fun line hline => ?_⟩
    have := hclosed (line ++ [d]) (by grind)
    simpa using this
  | case4 => cases h
  | case5 d t hd ih =>
    obtain ⟨w, rfl, hgap⟩ := ih h
    have hmute : isMute d :=
      isMute_of_class (p := fun c => Quoted.isSpace c || c == '\n') (by decide) hd
    exact ⟨d :: w, rfl, hgap.1.cons hmute, by grind [Unquoted, isMute]⟩
  | case6 d t hd hhash ih =>
    obtain ⟨w, rfl, hclosed⟩ := ih h
    obtain rfl : d = '#' := eq_of_beq hhash
    exact ⟨'#' :: w, rfl, by simpa using hclosed [] (by simp), by simp [Unquoted]⟩
  | case7 d t hd hhash =>
    cases h
    exact ⟨[], rfl, gap_of_mute (by simp)⟩

theorem scalarRead?_cut {t rest : Text} {v : Value} (h : Scalar.read? .v11 t = some (v, rest)) :
    ∃ w, t = w ++ rest ∧ Token w := by
  have hrun (t : Text) : Closed (t.takeWhile Scalar.isRunChar) :=
    closed_of_mute fun _ => isMute_of_mem_takeWhile (by decide)
  have hwhole : t = t.takeWhile Scalar.isRunChar ++ t.dropWhile Scalar.isRunChar :=
    List.takeWhile_append_dropWhile.symm
  unfold Scalar.read? at h
  dsimp only at h
  split at h
  next behind hdate hspace =>
    split at h
    · cases h
      refine ⟨_, ?_, ((hrun t).append ((hrun behind).cons (c := ' ') (by decide))).token⟩
      refine hwhole.trans ?_
      simp [hspace]
    · cases h
      exact ⟨_, hwhole, (hrun t).token⟩
  next =>
    obtain ⟨v', -, hv⟩ := Option.map_eq_some_iff.1 h
    cases hv
    exact ⟨_, hwhole, (hrun t).token⟩

theorem scalar?_cut {t rest : Text} {n : Node} (h : scalar? .v11 t = some (n, rest)) :
    ∃ w v, t = w ++ rest ∧ Token w ∧ n = .value none w v := by
  unfold scalar? at h
  dsimp only at h
  split at h
  next text behind hquoted =>
    cases h
    obtain ⟨q, w, -, rfl, hagain⟩ := Quoted.read?_cut hquoted
    refine ⟨q :: w ++ [q], .string text, by simp,
      (silent_of_reads (x := text) fun r hr => by simpa using hagain r (.inl hr)).token, ?_⟩
    rw [List.append_cons, consumed_append]
  next =>
    obtain ⟨⟨v, rest'⟩, hread, h⟩ := Option.bind_eq_some_iff.1 h
    cases h
    obtain ⟨w, rfl, htoken⟩ := scalarRead?_cut hread
    exact ⟨w, v, rfl, htoken, by rw [consumed_append]⟩

def Around (stop : Text) (m : Text × Text) : Prop :=
  Closed m.1 ∧ Unquoted m.2 ∧ Closed (m.2 ++ stop)

/-- Is this a table without a header of its own? Its key may yet be written in one. -/
def Node.isImplied : Node → Bool
  | .table .implied _ => true
  | _ => false

mutual

/-- Every text in the node is closed, where `stop` ends what is written on behalf of a value: a line
end in lines, and nothing between braces. -/
def Node.Spelled (stop : Text) : Node → Prop
  | .value m written _ => Token written ∧ ∃ b, m = some b ∧ Around stop b
  | .table (.inline m _ trailing) entries =>
    (∃ b, m = some b ∧ Around stop b) ∧ Gap trailing ∧ EntriesSpelled [] entries
  | .table (.headed _ m) entries =>
    (∃ b, m = some b ∧ Around ['\n'] b) ∧ EntriesSpelled stop entries
  | .table _ entries => EntriesSpelled stop entries
  | .tables elements => ElementsSpelled stop elements

def EntriesSpelled (stop : Text) : List (Key × Node) → Prop
  | [] => True
  | (k, n) :: rest =>
    (k.Led ∧ n.Spelled stop ∧ (n.isImplied → k.Spelled)) ∧ EntriesSpelled stop rest

def ElementsSpelled (stop : Text) : List Node → Prop
  | [] => True
  | n :: rest =>
    (n.Spelled stop ∧ ∃ place m entries, n = .table (.headed place m) entries) ∧
      ElementsSpelled stop rest

end

theorem entriesSpelled_iff {stop : Text} {entries : Entries} :
    EntriesSpelled stop entries ↔
      ∀ p ∈ entries, p.1.Led ∧ p.2.Spelled stop ∧ (p.2.isImplied → p.1.Spelled) := by
  induction entries with
  | nil => simp [EntriesSpelled]
  | cons p entries ih => simp [EntriesSpelled, ih]

theorem elementsSpelled_iff {stop : Text} {elements : List Node} :
    ElementsSpelled stop elements ↔
      ∀ n ∈ elements, n.Spelled stop ∧ ∃ place m entries, n = .table (.headed place m) entries := by
  induction elements with
  | nil => simp [ElementsSpelled]
  | cons n elements ih => simp [ElementsSpelled, ih]

section Building

variable {stop : Text}

theorem Node.Spelled.table {form : Form} (hopen : form.isOpen) {inner inner' : Entries}
    (h : (Node.table form inner).Spelled stop)
    (hinner : EntriesSpelled stop inner → EntriesSpelled stop inner') :
    (Node.table form inner').Spelled stop := by
  cases form with
  | inline => cases hopen
  | dotted | implied => exact hinner h
  | headed => exact ⟨h.1, hinner h.2⟩

theorem alter_spelled {k : Key} (hk : k.Led) {f : Option Node → Option Node}
    (hf : ∀ found n, (∀ m ∈ found, m.Spelled stop) → f found = some n →
      n.Spelled stop ∧ (n.isImplied → if found.any Node.isImplied then True else
        found = none ∧ k.Spelled))
    {entries entries' : Entries} (he : EntriesSpelled stop entries)
    (h : alter k f entries = some entries') : EntriesSpelled stop entries' := by
  induction entries generalizing entries' with
  | nil =>
    obtain ⟨n, hn, rfl⟩ := Option.map_eq_some_iff.1 h
    obtain ⟨hspelled, himplied⟩ := hf none n (by simp) hn
    exact ⟨⟨hk, hspelled, fun h => (himplied h).2⟩, trivial⟩
  | cons p rest ih =>
    obtain ⟨other, m⟩ := p
    rw [alter] at h
    split at h
    · obtain ⟨n, hn, rfl⟩ := Option.map_eq_some_iff.1 h
      obtain ⟨hspelled, himplied⟩ := hf (some m) n (by simpa using he.1.2.1) hn
      refine ⟨⟨he.1.1, hspelled, fun h => ?_⟩, he.2⟩
      exact he.1.2.2 (by simpa using himplied h)
    · obtain ⟨rest', hrest, rfl⟩ := Option.map_eq_some_iff.1 h
      exact ⟨he.1, ih he.2 hrest⟩

theorem descend_spelled {fresh : Form} (hfresh : fresh = .dotted ∨ fresh = .implied)
    {may : Form → Bool} (hmay : ∀ form, may form → form.isOpen)
    {f : Form → Entries → Option Entries}
    (hf : ∀ form entries entries', EntriesSpelled stop entries → f form entries = some entries' →
      EntriesSpelled stop entries')
    {path : List Key} (hpath : ∀ k ∈ path, k.Spelled) {form : Form} {entries entries' : Entries}
    (he : EntriesSpelled stop entries) (h : descend fresh may f path form entries = some entries') :
    EntriesSpelled stop entries' := by
  induction path generalizing form entries entries' with
  | nil => exact hf form entries entries' he h
  | cons k path ih =>
    have ih := @ih fun k hk => hpath k (List.mem_cons_of_mem _ hk)
    have hk := hpath k List.mem_cons_self
    refine alter_spelled hk.toLed (fun found n hfound hn => ?_) he h
    match found with
    | none =>
      obtain ⟨inner, hinner, rfl⟩ := Option.map_eq_some_iff.1 hn
      have := @ih _ [] _ trivial hinner
      obtain rfl | rfl := hfresh <;> exact ⟨this, fun _ => ⟨rfl, hk⟩⟩
    | some (.table form inner) =>
      dsimp only at hn
      split at hn
      next hform =>
        obtain ⟨inner', hinner, rfl⟩ := Option.map_eq_some_iff.1 hn
        refine ⟨(hfound _ rfl).table (hmay form hform) fun h => ih h hinner, fun himplied => ?_⟩
        cases form <;> cases himplied
        trivial
      next => cases hn
    | some (.tables elements) =>
      dsimp only at hn
      split at hn
      next form inner hlast =>
        obtain ⟨inner', hinner, rfl⟩ := Option.map_eq_some_iff.1 hn
        have helements := elementsSpelled_iff.1 (hfound _ rfl)
        obtain ⟨hspelled, place, m, inner, ⟨⟩⟩ := helements _ (List.mem_of_getLast? hlast)
        refine ⟨elementsSpelled_iff.2 fun n hn => ?_, fun himplied => by cases himplied⟩
        obtain hn | hn := List.mem_append.1 hn
        · exact helements n ((List.dropLast_sublist _).subset hn)
        · obtain rfl := List.mem_singleton.1 hn
          exact ⟨hspelled.table rfl fun h => ih h hinner, place, m, inner', rfl⟩
      next => cases hn
    | some (.value ..) => cases hn

theorem isOpen_of_isLoose (form : Form) (h : form.isLoose) : form.isOpen := by
  cases form <;> simp_all [Form.isLoose, Form.isOpen]

theorem addEntry_spelled {path : List Key} (hpath : ∀ k ∈ path, k.Spelled) {k : Key}
    (hk : k.Led) {n : Node} (hn : n.Spelled stop) (hvalue : n.isImplied = false) {form : Form}
    {entries entries' : Entries}
    (he : EntriesSpelled stop entries) (h : addEntry path k n form entries = some entries') :
    EntriesSpelled stop entries' := by
  refine descend_spelled (.inl rfl) isOpen_of_isLoose ?_ hpath he h
  intro form inner inner' hinner h
  split at h
  · cases h
  · refine alter_spelled hk (fun found n' hfound h => ?_) hinner h
    split at h
    · cases h
    · cases h
      exact ⟨hn, fun himplied => by simp [hvalue] at himplied⟩

theorem extract_spelled {name : Text} {entries others : Entries} {found : Option Node}
    (he : EntriesSpelled stop entries) (h : extract name entries = (found, others)) :
    (∀ n ∈ found, n.Spelled stop) ∧ EntriesSpelled stop others := by
  induction entries generalizing others found with
  | nil =>
    cases h
    simp [EntriesSpelled]
  | cons p rest ih =>
    obtain ⟨k, n⟩ := p
    rw [extract] at h
    split at h
    · cases h
      exact ⟨by simpa using he.1.2.1, he.2⟩
    · cases h
      obtain ⟨hfound, hothers⟩ := ih he.2 rfl
      exact ⟨hfound, he.1, hothers⟩

theorem addHeader_spelled {place : Nat} {m : Text × Text} (hm : Around ['\n'] m) {path : List Key}
    (hpath : ∀ k ∈ path, k.Spelled) {k : Key} (hk : k.Spelled) {root root' : Entries}
    (he : EntriesSpelled stop root) (h : addHeader place (some m) path k root = some root') :
    EntriesSpelled stop root' := by
  refine descend_spelled (.inr rfl) (fun _ => id) (fun form inner inner' hinner h => ?_) hpath he h
  have hadd {others below : Entries} (hothers : EntriesSpelled stop others)
      (hbelow : EntriesSpelled stop below) :
      EntriesSpelled stop (others ++ [(k, .table (.headed place (some m)) below)]) := by
    refine entriesSpelled_iff.2 fun p hp => ?_
    obtain hp | hp := List.mem_append.1 hp
    · exact entriesSpelled_iff.1 hothers p hp
    · obtain rfl := List.mem_singleton.1 hp
      exact ⟨hk.toLed, ⟨⟨m, rfl, hm⟩, hbelow⟩, fun himplied => by cases himplied⟩
  split at h
  next others hextract =>
    cases h
    exact hadd (extract_spelled hinner hextract).2 trivial
  next below others hextract =>
    cases h
    obtain ⟨hfound, hothers⟩ := extract_spelled hinner hextract
    exact hadd hothers (hfound _ rfl)
  next => cases h

theorem addElement_spelled {place : Nat} {m : Text × Text} (hm : Around ['\n'] m) {path : List Key}
    (hpath : ∀ k ∈ path, k.Spelled) {k : Key} (hk : k.Spelled) {root root' : Entries}
    (he : EntriesSpelled stop root) (h : addElement place (some m) path k root = some root') :
    EntriesSpelled stop root' := by
  refine descend_spelled (.inr rfl) (fun _ => id) (fun form inner inner' hinner h => ?_) hpath he h
  refine alter_spelled hk.toLed (fun found n hfound hn => ?_) hinner h
  have helement : (Node.table (.headed place (some m)) []).Spelled stop := ⟨⟨m, rfl, hm⟩, trivial⟩
  split at hn
  next =>
    cases hn
    exact ⟨⟨⟨helement, place, some m, [], rfl⟩, trivial⟩, fun himplied => by cases himplied⟩
  next elements =>
    cases hn
    refine ⟨elementsSpelled_iff.2 fun n hn => ?_, fun himplied => by cases himplied⟩
    obtain hn | hn := List.mem_append.1 hn
    · exact elementsSpelled_iff.1 (hfound _ rfl) n hn
    · obtain rfl := List.mem_singleton.1 hn
      exact ⟨helement, place, some m, [], rfl⟩
  next => cases hn

end Building

/-- The node, once it has its margin, is spelled wherever it stands. -/
def Node.Ready (n : Node) : Prop :=
  ∀ stop m, Around stop m →
    (n.withMargin (some m)).Spelled stop ∧ (n.withMargin (some m)).isImplied = false

/-- Reading a value takes a token and gives a spelled node. -/
def ReadsTokens (value : Text → Option (Node × Text)) : Prop :=
  ∀ t n rest, value t = some (n, rest) → (∃ w, t = w ++ rest ∧ Token w) ∧ n.Ready

theorem ready_value {w : Text} (h : Token w) (v : Value) : (Node.value none w v).Ready :=
  fun _ m hm => ⟨⟨h, m, rfl, hm⟩, rfl⟩

theorem Gap.unquoted_append {w : Text} (h : Gap w) {c : Char} (hc : isMute c) (r : Text) :
    Unquoted (w ++ c :: r) := by
  cases w with
  | nil => grind [Unquoted, isMute]
  | cons d w => exact h.2

theorem Token.gap_cons {w g : Text} (h : Token w) (hg : Gap g) {c : Char} (hc : isMute c) :
    Closed (w ++ g ++ [c]) := by
  rw [List.append_assoc]
  exact h.append_closed (hg.1.append (closed_of_mute (by simpa using hc)))
    (hg.unquoted_append hc []) (by simp)

theorem items?_cut {value : Text → Option (Node × Text)} (hvalue : ReadsTokens value) {fuel : Nat}
    {t rest : Text} {items : List Value} (h : items? value fuel t = some (items, rest)) :
    ∃ w, t = w ++ rest ∧ Closed w := by
  induction fuel generalizing t items with
  | zero => cases h
  | succ fuel ih =>
    obtain ⟨body, hbody, h⟩ := Option.bind_eq_some_iff.1 h
    split at h
    next behind =>
      cases h
      obtain ⟨g, rfl, hg⟩ := dropFiller?_cut hbody (by simp)
      exact ⟨g ++ [']'], by simp, hg.1.append (closed_of_mute (by simp [isMute]))⟩
    next hbracket =>
      obtain ⟨⟨item, behind⟩, hitem, hnext⟩ := Option.bind_eq_some_iff.1 h
      obtain ⟨behind', hbehind, hend⟩ := Option.bind_eq_some_iff.1 hnext
      obtain ⟨⟨w, rfl, htoken⟩, -⟩ := hvalue _ _ _ hitem
      -- the item with what leads up to the comma or bracket behind it
      have hstep {c : Char} {after : Text} (hc : isMute c) (hafter : behind' = c :: after) :
          ∃ w', t = w' ++ after ∧ Closed w' := by
        subst hafter
        obtain ⟨g', rfl, hg'⟩ := dropFiller?_cut hbehind (by simp)
        obtain ⟨g, rfl, hg⟩ := dropFiller?_cut hbody (by simp)
        exact ⟨g ++ (w ++ g' ++ [c]), by simp, hg.1.append (htoken.gap_cons hg' hc)⟩
      split at hend
      next after =>
        obtain ⟨⟨items', rest'⟩, hitems, hrest⟩ := Option.map_eq_some_iff.1 hend
        cases hrest
        obtain ⟨w', rfl, hw'⟩ := hstep (by decide) rfl
        obtain ⟨w'', rfl, hw''⟩ := ih hitems
        exact ⟨w' ++ w'', by simp, hw'.append hw''⟩
      next after =>
        cases hend
        exact hstep (by decide) rfl
      next => cases hend

theorem Gap.around {g : Text} (h : Gap g) (t : Text) : Around [] (spaces t, g) :=
  ⟨(gap_spaces t).1, h.2, by simpa using h.1⟩

theorem member?_cut {value : Text → Option (Node × Text)} (hvalue : ReadsTokens value)
    {lead t rest : Text} {entries entries' : Entries} (he : EntriesSpelled [] entries)
    (h : member? .v11 value lead t entries = some (entries', rest)) (hne : rest ≠ []) :
    (∃ w g, t = w ++ g ++ rest ∧ Token w ∧ Gap g) ∧
      (Closed lead → EntriesSpelled [] entries') := by
  obtain ⟨⟨⟨path, k⟩, behind⟩, hpath, h⟩ := Option.bind_eq_some_iff.1 h
  obtain ⟨body, hequals, h⟩ := Option.bind_eq_some_iff.1 h
  obtain ⟨⟨n, behind'⟩, hread, h⟩ := Option.bind_eq_some_iff.1 h
  obtain ⟨rest', hfiller, h⟩ := Option.bind_eq_some_iff.1 h
  obtain ⟨added, hadd, h⟩ := Option.bind_eq_some_iff.1 h
  cases h
  obtain rfl := expect?_eq_some_iff.1 hequals
  obtain ⟨⟨w, rfl, hw⟩, hkeys, hk⟩ := path?_cut hpath
  obtain ⟨⟨v, hv, htoken⟩, hready⟩ := hvalue _ _ _ hread
  obtain ⟨g, rfl, hg⟩ := dropFiller?_cut hfiller hne
  refine ⟨⟨w ++ '=' :: spaces body ++ v, g, ?_, ?_, hg⟩, ?_⟩
  · have hbody : body = spaces body ++ (v ++ (g ++ rest)) := by
      rw [← hv, spaces_append_dropSpaces]
    simpa using hbody
  · have hequals : Closed (w ++ '=' :: spaces body) :=
      hw.append_closed ((gap_spaces body).1.cons (by decide)) (by simp [Unquoted]) (by simp)
    exact hequals.append_token htoken
  · intro hlead
    rw [consumed_append] at hadd
    obtain ⟨hn, hvalue⟩ := hready [] _ (hg.around body)
    exact addEntry_spelled hkeys (hk.withLead hlead) hn hvalue he hadd

theorem members?_cut {value : Text → Option (Node × Text)} (hvalue : ReadsTokens value) {fuel : Nat}
    {entries : Entries} (he : EntriesSpelled [] entries) {t rest : Text} {n : Node}
    (h : members? .v11 value fuel entries t = some (n, rest)) :
    (∃ w, t = w ++ rest ∧ Closed w) ∧ n.Ready := by
  induction fuel generalizing t entries with
  | zero => cases h
  | succ fuel ih =>
    obtain ⟨body, hbody, h⟩ := Option.bind_eq_some_iff.1 h
    split at h
    next behind =>
      obtain ⟨g, rfl, hg⟩ := dropFiller?_cut hbody (by simp)
      rw [if_pos (.inr rfl), consumed_append] at h
      cases h
      refine ⟨⟨g ++ ['\x7d'], by simp, hg.1.append (closed_of_mute (by simp [isMute]))⟩, ?_⟩
      exact fun stop m hm => ⟨⟨⟨m, rfl, hm⟩, hg, he⟩, rfl⟩
    next hbrace =>
      obtain ⟨⟨added, behind⟩, hmember, hend⟩ := Option.bind_eq_some_iff.1 h
      dsimp only at hend
      have hstep {c : Char} {after : Text} (hc : isMute c) (hafter : behind = c :: after) :
          (∃ w, t = w ++ after ∧ Closed w) ∧ EntriesSpelled [] added := by
        subst hafter
        obtain ⟨⟨w, g', rfl, hw, hg'⟩, hadded⟩ := member?_cut hvalue he hmember (by simp)
        obtain ⟨g, rfl, hg⟩ := dropFiller?_cut hbody (by simp)
        rw [consumed_append] at hadded
        exact ⟨⟨g ++ (w ++ g' ++ [c]), by simp, hg.1.append (hw.gap_cons hg' hc)⟩, hadded hg.1⟩
      split at hend
      next after =>
        obtain ⟨⟨w, rfl, hw⟩, hadded⟩ := hstep (c := ',') (by decide) rfl
        obtain ⟨⟨w', rfl, hw'⟩, hready⟩ := ih hadded hend
        exact ⟨⟨w ++ w', by simp, hw.append hw'⟩, hready⟩
      next after =>
        cases hend
        obtain ⟨hcut, hadded⟩ := hstep (c := '\x7d') (by decide) rfl
        exact ⟨hcut, fun stop m hm => ⟨⟨⟨m, rfl, hm⟩, gap_of_mute (by simp), hadded⟩, rfl⟩⟩
      next => cases hend

theorem value?_cut (depth : Nat) : ReadsTokens (value? .v11 depth) := by
  have hscalar {t rest : Text} {n : Node} (h : scalar? .v11 t = some (n, rest)) :
      (∃ w, t = w ++ rest ∧ Token w) ∧ n.Ready := by
    obtain ⟨w, v, rfl, htoken, rfl⟩ := scalar?_cut h
    exact ⟨⟨w, rfl, htoken⟩, ready_value htoken v⟩
  induction depth with
  | zero => exact fun t n rest h => hscalar h
  | succ depth ih =>
    intro t n rest h
    rw [value?.eq_def] at h
    dsimp only at h
    split at h
    next t =>
      obtain ⟨⟨items, behind⟩, hitems, h⟩ := Option.bind_eq_some_iff.1 h
      cases h
      obtain ⟨w, rfl, hw⟩ := items?_cut ih hitems
      have htoken : Token ('[' :: w) := (hw.cons (by decide)).token
      refine ⟨⟨'[' :: w, rfl, htoken⟩, ?_⟩
      rw [← List.cons_append, consumed_append]
      exact ready_value htoken _
    next t =>
      obtain ⟨⟨w, rfl, hw⟩, hready⟩ := members?_cut ih (show EntriesSpelled [] [] from trivial) h
      exact ⟨⟨'\x7b' :: w, rfl, (hw.cons (by decide)).token⟩, hready⟩
    next => exact hscalar h

theorem lineRest?_cut {t line rest : Text} (h : lineRest? t = some (line, rest)) :
    Unquoted line ∧ Closed (line ++ ['\n']) ∧ (rest = [] ∨ ∃ r, rest = '\n' :: r) := by
  unfold lineRest? at h
  dsimp only at h
  split at h
  next hcomment =>
    cases h
    generalize hline : t.takeWhile (· != '\n') = line at hcomment ⊢
    have hno : '\n' ∉ line := fun hmem => by
      subst hline
      simpa using List.mem_takeWhile_imp hmem
    have hwhole := spaces_append_dropSpaces line
    have hspaces := gap_spaces line
    have hrest : t.dropWhile (· != '\n') = [] ∨ ∃ r, t.dropWhile (· != '\n') = '\n' :: r := by
      cases hdrop : t.dropWhile (· != '\n') with
      | nil => exact .inl rfl
      | cons c r =>
        have := List.head?_dropWhile_not (· != '\n') t
        simp_all
    obtain hnone | ⟨comment, hcomment⟩ :
        dropSpaces line = [] ∨ ∃ comment, dropSpaces line = '#' :: comment := by
      cases hd : dropSpaces line <;> simp_all
    · rw [hnone, List.append_nil] at hwhole
      rw [← hwhole]
      exact ⟨hspaces.2, hspaces.1.append closed_lineEnd, hrest⟩
    · rw [hcomment] at hwhole
      have hclosed : Closed ('#' :: comment ++ ['\n']) := closed_comment (by grind)
      rw [← hwhole]
      refine ⟨?_, by simpa using hspaces.1.append hclosed, hrest⟩
      cases hsp : spaces line with
      | nil => simp [Unquoted]
      | cons c r =>
        rw [hsp] at hspaces
        exact hspaces.2
  next => cases h

namespace Progress

/-- What has been read is closed. -/
structure Spelled (p : Progress) : Prop where
  root : EntriesSpelled ['\n'] p.root
  current : ∀ k ∈ p.current, k.Spelled
  lead : Closed p.lead

variable {p p' : Progress}

theorem Spelled.addLead (hp : p.Spelled) {t : Text} (ht : Closed t) : (p.addLead t).Spelled :=
  { hp with lead := hp.lead.append ht }

theorem Spelled.addEntry (hp : p.Spelled) {path : List Key} (hpath : ∀ k ∈ path, k.Spelled)
    {k : Key} (hk : k.Spelled) {n : Node} (hn : n.Spelled ['\n']) (hvalue : n.isImplied = false)
    (h : p.addEntry path k n = some p') : p'.Spelled := by
  obtain ⟨root, hroot, rfl⟩ := Option.map_eq_some_iff.1 h
  refine ⟨?_, hp.current, closed_nil⟩
  exact descend_spelled (.inr rfl) (fun _ => id)
    (fun form inner inner' hinner h =>
      addEntry_spelled hpath (hk.withLead hp.lead) hn hvalue hinner h)
    hp.current hp.root hroot

theorem Spelled.openTable (hp : p.Spelled) {isElement : Bool} {path : List Key}
    (hpath : ∀ k ∈ path, k.Spelled) {k : Key} (hk : k.Spelled) {behind : Text}
    (hunquoted : Unquoted behind) (hbehind : Closed (behind ++ ['\n']))
    (h : p.openTable isElement path k behind = some p') : p'.Spelled := by
  obtain ⟨root, hroot, rfl⟩ := Option.map_eq_some_iff.1 h
  have hm : Around ['\n'] (p.lead, behind) := ⟨hp.lead, hunquoted, hbehind⟩
  refine ⟨?_, ?_, closed_nil⟩
  · cases isElement with
    | true => exact addElement_spelled hm hpath hk hp.root hroot
    | false => exact addHeader_spelled hm hpath hk hp.root hroot
  · exact List.forall_mem_append.2 ⟨hpath, by simpa using hk⟩

theorem Spelled.statement? {t rest : Text} (hp : p.Spelled)
    (h : p.statement? .v11 t = some (p', rest)) : p'.Spelled := by
  have hheader {isElement : Bool} {t t' t'' behind rest : Text} {path : List Key} {k : Key}
      (hpath : path? .v11 t = some ((path, k), t')) (hrest : lineRest? t'' = some (behind, rest))
      (hopen : p.openTable isElement path k behind = some p') : p'.Spelled := by
    obtain ⟨-, hkeys, hk⟩ := path?_cut hpath
    obtain ⟨hunquoted, hbehind, -⟩ := lineRest?_cut hrest
    exact hp.openTable hkeys hk hunquoted hbehind hopen
  unfold Progress.statement? at h
  split at h
  next t =>
    obtain ⟨⟨⟨path, k⟩, t'⟩, hpath, h⟩ := Option.bind_eq_some_iff.1 h
    obtain ⟨t'', -, h⟩ := Option.bind_eq_some_iff.1 h
    obtain ⟨⟨behind, rest'⟩, hrest, h⟩ := Option.bind_eq_some_iff.1 h
    obtain ⟨p'', hopen, h⟩ := Option.bind_eq_some_iff.1 h
    cases h
    exact hheader hpath hrest hopen
  next t _ =>
    obtain ⟨⟨⟨path, k⟩, t'⟩, hpath, h⟩ := Option.bind_eq_some_iff.1 h
    obtain ⟨t'', -, h⟩ := Option.bind_eq_some_iff.1 h
    obtain ⟨⟨behind, rest'⟩, hrest, h⟩ := Option.bind_eq_some_iff.1 h
    obtain ⟨p'', hopen, h⟩ := Option.bind_eq_some_iff.1 h
    cases h
    exact hheader hpath hrest hopen
  next =>
    obtain ⟨⟨⟨path, k⟩, t'⟩, hpath, h⟩ := Option.bind_eq_some_iff.1 h
    obtain ⟨body, -, h⟩ := Option.bind_eq_some_iff.1 h
    obtain ⟨⟨n, rest'⟩, hread, h⟩ := Option.bind_eq_some_iff.1 h
    obtain ⟨⟨behind, rest''⟩, hrest, h⟩ := Option.bind_eq_some_iff.1 h
    obtain ⟨p'', hadd, h⟩ := Option.bind_eq_some_iff.1 h
    cases h
    obtain ⟨-, hkeys, hk⟩ := path?_cut hpath
    obtain ⟨hunquoted, hbehind, -⟩ := lineRest?_cut hrest
    obtain ⟨-, hready⟩ := value?_cut maxDepth _ _ _ hread
    obtain ⟨hn, hvalue⟩ :=
      hready ['\n'] (spaces body, behind) ⟨(gap_spaces body).1, hunquoted, hbehind⟩
    exact hp.addEntry hkeys hk hn hvalue hadd

theorem Spelled.lines? {fuel : Nat} {t : Text} (hp : p.Spelled)
    (h : lines? .v11 fuel t p = some p') : EntriesSpelled ['\n'] p'.root := by
  induction fuel generalizing t p with
  | zero =>
    cases t with
    | nil =>
      cases h
      exact hp.root
    | cons c t => cases h
  | succ fuel ih =>
    cases t with
    | nil =>
      cases h
      exact hp.root
    | cons c t =>
      rw [Progress.lines?.eq_def] at h
      dsimp only at h
      split at h
      next =>
        cases h
        exact hp.root
      next rest hline =>
        refine ih (hp.addLead ?_) h
        exact (gap_spaces _).1.append closed_lineEnd
      next =>
        split at h
        next => cases h
        next line rest hrest =>
          obtain ⟨-, hclosed, rfl | ⟨r, rfl⟩⟩ := lineRest?_cut hrest
          · rw [List.drop_nil] at h
            cases fuel <;> cases h <;> exact hp.root
          · exact ih (hp.addLead hclosed) h
      next =>
        split at h
        next => cases h
        next p'' rest hstatement =>
          exact ih ((hp.addLead (gap_spaces _).1).statement? hstatement) h

end Progress

/-- Whatever is read keeps closed texts only. -/
theorem spelled_of_parse? {t : Text} {d : Document} (h : Document.parse? .v11 t = some d) :
    EntriesSpelled ['\n'] d.root := by
  obtain ⟨p, hp, rfl⟩ := Option.map_eq_some_iff.1 h
  refine Progress.Spelled.lines? (p := {}) ⟨trivial, by simp, closed_nil⟩ hp

end SkinLint.Toml
