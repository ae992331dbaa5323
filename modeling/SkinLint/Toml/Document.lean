import SkinLint.Toml.Quoted

/-!
A TOML document that keeps its spelling. It is a tree of tables whose keys and values carry the text
they were written with, so that one entry can be changed while all else is written as it was read.
-/
namespace SkinLint.Toml

/-- The text in front of something and behind it; without one the usual margin of the place is
written. -/
abbrev Margin := Option (Text × Text)

def frame (usual : Text × Text) (m : Margin) (t : Text) : Text :=
  (m.getD usual).1 ++ t ++ (m.getD usual).2

structure Key where
  name : Text
  spelling : Text
  /-- Around the path of keys that this key ends. -/
  margin : Margin := none
  /-- Blanks between the key and the points before and behind it. -/
  before : Text := []
  after : Text := []
deriving DecidableEq

def Key.bare (name : Text) : Key := { name, spelling := name }

def Key.withLead (lead : Text) (k : Key) : Key :=
  { k with margin := k.margin.map fun (before, after) => (lead ++ before, after) }

inductive Form where
  /-- Written between braces. Behind the last entry there may be a comma, and then text that
  belongs to no entry. -/
  | inline (margin : Margin) (comma : Bool) (trailing : Text)
  /-- Named before a point in the keys of its entries. -/
  | dotted
  /-- Named only in the headers of tables below it. -/
  | implied
  /-- Written with a header, the `place`-th of the document. -/
  | headed (place : Option Nat) (margin : Margin)
deriving DecidableEq

namespace Form

def isDotted : Form → Bool
  | .dotted => true
  | _ => false

/-- May a header or the entry of another table add to a table of this form? -/
def isOpen : Form → Bool
  | .inline .. => false
  | _ => true

/-- May a dotted key add to a table of this form? -/
def isLoose : Form → Bool
  | .dotted | .implied => true
  | _ => false

end Form

inductive Node where
  | value (margin : Margin) (written : Text) (value : Value)
  | table (form : Form) (entries : List (Key × Node))
  /-- An array of tables, each with a header of its own. -/
  | tables (elements : List Node)

abbrev Entries := List (Key × Node)

mutual

def Node.data : Node → Value
  | .value _ _ v => v
  | .table _ entries => .table (entriesData entries)
  | .tables elements => .array (elementsData elements)

def entriesData : List (Key × Node) → List (Text × Value)
  | [] => []
  | (k, n) :: rest => (k.name, n.data) :: entriesData rest

def elementsData : List Node → List Value
  | [] => []
  | n :: rest => n.data :: elementsData rest

end

def Node.withMargin (m : Margin) : Node → Node
  | .value _ written v => .value m written v
  | .table (.inline _ comma trailing) entries => .table (.inline m comma trailing) entries
  | n => n

/-- Changes what stands under a key; what was not there comes last. -/
def alter (k : Key) (f : Option Node → Option Node) : Entries → Option Entries
  | [] => (f none).map fun n => [(k, n)]
  | (other, n) :: rest =>
    if other.name = k.name then (f (some n)).map fun n => (other, n) :: rest
    else (alter k f rest).map ((other, n) :: ·)

/-- Changes the table at the end of a path. Tables missing on the way take the form `fresh`, and
those that are there must have a form that `may` admits; of an array of tables the last one is
meant. -/
def descend (fresh : Form) (may : Form → Bool) (f : Form → Entries → Option Entries) :
    List Key → Form → Entries → Option Entries
  | [], form, entries => f form entries
  | k :: path, _, entries =>
    alter k (fun found =>
      match found with
      | none => (descend fresh may f path fresh []).map (.table fresh)
      | some (.table form inner) =>
        if may form then (descend fresh may f path form inner).map (.table form) else none
      | some (.tables elements) =>
        match elements.getLast? with
        | some (.table form inner) =>
          (descend fresh may f path form inner).map fun inner =>
            .tables (elements.dropLast ++ [.table form inner])
        | _ => none
      | some (.value ..) => none) entries

/-- Adds an entry to a table, through dotted keys or none. A table is either filled through dotted
keys or without them, and no name is given twice. -/
def addEntry (path : List Key) (k : Key) (n : Node) (form : Form) (entries : Entries) :
    Option Entries :=
  descend .dotted Form.isLoose
    (fun form inner =>
      if form.isDotted = path.isEmpty then none
      else alter k (fun found => if found.isSome then none else some n) inner)
    path form entries

/-- The entries without the one of a name, and that one. -/
def extract (name : Text) : Entries → Option Node × Entries
  | [] => (none, [])
  | (k, n) :: rest =>
    if k.name = name then (some n, rest)
    else
      let (found, others) := extract name rest
      (found, (k, n) :: others)

/-- Gives a table its header. Only a table that was implied until now may be there already, and it
moves to the end. -/
def addHeader (place : Nat) (margin : Margin) (path : List Key) (k : Key) (root : Entries) :
    Option Entries :=
  descend .implied Form.isOpen
    (fun _ inner =>
      match extract k.name inner with
      | (none, others) => some (others ++ [(k, .table (.headed place margin) [])])
      | (some (.table .implied below), others) =>
        some (others ++ [(k, .table (.headed place margin) below)])
      | _ => none)
    path (.headed none none) root

def addElement (place : Nat) (margin : Margin) (path : List Key) (k : Key) (root : Entries) :
    Option Entries :=
  descend .implied Form.isOpen
    (fun _ inner =>
      alter k (fun found =>
        match found with
        | none => some (.tables [.table (.headed place margin) []])
        | some (.tables elements) => some (.tables (elements ++ [.table (.headed place margin) []]))
        | _ => none) inner)
    path (.headed none none) root

structure Document where
  root : Entries
  /-- Blank lines and comments behind the last entry. -/
  trailing : Text

namespace Document

def data (d : Document) : Value := .table (entriesData d.root)

/-- Puts a node in the place of the one under a name, or behind all others. The name is written
anew. -/
def put (name : Text) (n : Node) : Entries → Entries
  | [] => [(.bare name, n)]
  | (k, old) :: rest =>
    if k.name = name then (.bare name, n) :: rest else (k, old) :: put name n rest

/-- Puts a node into one of the tables, which is made if it is missing; `none` if something other
than a table is in its place. -/
def putIn? (table name : Text) (n : Node) : Entries → Option Entries
  | [] => some [(.bare table, .table (.headed none none) [(.bare name, n)])]
  | (k, old) :: rest =>
    if k.name = table then
      match old with
      | .table form entries => some ((k, .table form (put name n entries)) :: rest)
      | _ => none
    else (putIn? table name n rest).map ((k, old) :: ·)

def set? (table name : Text) (n : Node) (d : Document) : Option Document :=
  (putIn? table name n d.root).map fun root => { d with root }

end Document

/-- A path of keys, with the margin that its last key has. -/
def writePath (usual : Text × Text) (path : List Key) : Text :=
  match path.getLast? with
  | none => []
  | some last =>
    let inner := Text.joinWith ['.'] (path.map fun k => k.before ++ k.spelling ++ k.after)
    frame usual last.margin inner

/-- An entry between braces, with a blank before each part and, at the end, one behind. -/
def writeMembers : List (List Key × (Text × Text → Text)) → Text
  | [] => []
  | [(path, value)] => writePath ([' '], [' ']) path ++ '=' :: value ([' '], [' '])
  | (path, value) :: rest =>
    writePath ([' '], [' ']) path ++ '=' :: value ([' '], []) ++ ',' :: writeMembers rest

mutual

/-- The values that are written behind their keys in a table, as functions of the usual margin. -/
def Node.leaves (path : List Key) : Node → List (List Key × (Text × Text → Text))
  | .value m written _ => [(path, fun usual => frame usual m written)]
  | .table .dotted entries => entriesLeaves path entries
  | .table (.inline m comma trailing) entries =>
    [(path, fun usual =>
      frame usual m ('\x7b' :: writeMembers (entriesLeaves [] entries) ++
        (if comma then [','] else []) ++ trailing ++ ['\x7d']))]
  | .table _ _ => []
  | .tables _ => []

def entriesLeaves (path : List Key) : List (Key × Node) → List (List Key × (Text × Text → Text))
  | [] => []
  | (k, n) :: rest => n.leaves (path ++ [k]) ++ entriesLeaves path rest

end

/-- A table that may be written with a header, in the order of the tree. -/
structure Section where
  path : List Key
  isElement : Bool
  form : Form
  entries : Entries

mutual

def Node.sections (path : List Key) (isElement : Bool) : Node → List Section
  | .value .. => []
  | .table form entries =>
    match form with
    | .inline .. => []
    | .dotted => entriesSections path entries
    | _ => ⟨path, isElement, form, entries⟩ :: entriesSections path entries
  | .tables elements => elementsSections path elements

def entriesSections (path : List Key) : List (Key × Node) → List Section
  | [] => []
  | (k, n) :: rest => n.sections (path ++ [k]) false ++ entriesSections path rest

def elementsSections (path : List Key) : List Node → List Section
  | [] => []
  | n :: rest => n.sections path true ++ elementsSections path rest

end

namespace Section

def lines (s : Section) : Text :=
  (entriesLeaves [] s.entries).flatMap fun (path, value) =>
    writePath ([], [' ']) path ++ '=' :: value ([' '], []) ++ ['\n']

/-- Is there a header to write? An implied table without lines of its own has none. -/
def hasHeader (s : Section) : Bool :=
  match s.form with
  | .implied => !s.lines.isEmpty
  | _ => true

def margin (s : Section) : Margin :=
  match s.form with
  | .headed _ m => m
  | _ => none

def place? (s : Section) : Option Nat :=
  match s.form with
  | .headed place _ => place
  | _ => none

/-- The header; a new one has a blank line before it unless it is the `first` thing written. -/
def header (first : Bool) (s : Section) : Text :=
  let path := writePath ([], []) s.path
  let bracketed := if s.isElement then "[[".toList ++ path ++ "]]".toList else '[' :: path ++ [']']
  frame (if first then [] else ['\n'], []) s.margin bracketed ++ ['\n']

end Section

/-- Each section with its place; one that has none of its own takes that of the section before. -/
def withPlaces : Nat → List Section → List (Nat × Section)
  | _, [] => []
  | last, s :: rest => (s.place?.getD last, s) :: withPlaces (s.place?.getD last) rest

def writeSections : Bool → List Section → Text
  | _, [] => []
  | first, s :: rest =>
    if s.hasHeader then s.header first ++ s.lines ++ writeSections false rest
    else writeSections first rest

/-- The text of a document: the entries of the root, the other tables in the order of their places,
and what trails. -/
def Document.render (d : Document) : Text :=
  let top := Section.lines ⟨[], false, .headed none none, d.root⟩
  let sections := ((withPlaces 0 (entriesSections [] d.root)).mergeSort (·.1 ≤ ·.1)).map (·.2)
  top ++ writeSections top.isEmpty sections ++ d.trailing

end SkinLint.Toml
