import SkinLint.Document
import SkinLint.Toml.Document

/-! Reading TOML into a document that keeps its spelling. -/
namespace SkinLint.Toml

/-- The characters that `rest` leaves out at the end of `t`. -/
def consumed (t rest : Text) : Text := t.take (t.length - rest.length)

def spaces (t : Text) : Text := t.takeWhile Quoted.isSpace

def dropSpaces (t : Text) : Text := t.dropWhile Quoted.isSpace

def isBareKeyChar (c : Char) : Bool := Text.isAsciiAlphanumeric c || c == '_' || c == '-'

def keyName? (e : Edition) (t : Text) : Option (Text × Text) :=
  match Quoted.readShort? e t with
  | some found => some found
  | none =>
    if (t.takeWhile isBareKeyChar).isEmpty then none
    else some (t.takeWhile isBareKeyChar, t.dropWhile isBareKeyChar)

/-- Keys with points between them, each with the blanks around it, and what follows. A path has at
most as many keys as characters, which `fuel` stands for. -/
def keys? (e : Edition) : Nat → Text → Option (List Key × Text)
  | 0, _ => none
  | fuel + 1, t => do
    let body := dropSpaces t
    let (name, rest) ← keyName? e body
    let key : Key :=
      { name, spelling := consumed body rest, before := spaces t, after := spaces rest }
    match dropSpaces rest with
    | '.' :: rest => (keys? e fuel rest).map fun (keys, rest) => (key :: keys, rest)
    | rest => some ([key], rest)

/-- The keys before the last and the last, which gets the blanks around the whole as its margin. -/
def splitPath? (keys : List Key) : Option (List Key × Key) := do
  let first ← keys.head?
  let last ← keys.getLast?
  let trimmed := { first with before := [] } :: keys.tail
  let final ← trimmed.getLast?
  return (trimmed.dropLast, { final with margin := some (first.before, last.after), after := [] })

def path? (e : Edition) (t : Text) : Option ((List Key × Key) × Text) := do
  let (keys, rest) ← keys? e (t.length + 1) t
  return (← splitPath? keys, rest)

/-- What follows blanks, line ends and comments. -/
def dropFiller? : Bool → Text → Option Text
  | _, [] => some []
  | true, c :: t =>
    if c == '\n' then dropFiller? false t
    else if Quoted.isPlain c then dropFiller? true t
    else none
  | false, c :: t =>
    if Quoted.isSpace c || c == '\n' then dropFiller? false t
    else if c == '#' then dropFiller? true t
    else some (c :: t)

/-- What follows the filler between braces. -/
def dropInlineFiller? : Edition → Text → Option Text
  | .v10, t => some (dropSpaces t)
  | .v11, t => dropFiller? false t

def items? (value : Text → Option (Node × Text)) : Nat → Text → Option (List Value × Text)
  | 0, _ => none
  | fuel + 1, t => do
    let t ← dropFiller? false t
    match t with
    | ']' :: rest => some ([], rest)
    | _ =>
      let (item, t) ← value t
      let t ← dropFiller? false t
      match t with
      | ',' :: rest => (items? value fuel rest).map fun (items, rest) => (item.data :: items, rest)
      | ']' :: rest => some ([item.data], rest)
      | _ => none

/-- The entry at the front of a table between braces, and what follows it and its filler. -/
def member? (e : Edition) (value : Text → Option (Node × Text)) (lead t : Text)
    (entries : Entries) : Option (Entries × Text) := do
  let ((path, key), t) ← path? e t
  let t ← Scalar.expect? '=' t
  let (node, t') ← value (dropSpaces t)
  let rest ← dropInlineFiller? e t'
  let node := node.withMargin (some (spaces t, consumed t' rest))
  return (← addEntry path (key.withLead lead) node (.inline none false []) entries, rest)

/-- The table whose `entries` were read already, up to its closing brace. -/
def members? (e : Edition) (value : Text → Option (Node × Text)) :
    Nat → Entries → Text → Option (Node × Text)
  | 0, _, _ => none
  | fuel + 1, entries, t => do
    let body ← dropInlineFiller? e t
    match body with
    | '\x7d' :: rest =>
      if entries.isEmpty ∨ e = .v11 then
        some (.table (.inline none (!entries.isEmpty) (consumed t body)) entries, rest)
      else none
    | _ =>
      let (entries, rest) ← member? e value (consumed t body) body entries
      match rest with
      | ',' :: rest => members? e value fuel entries rest
      | '\x7d' :: rest => some (.table (.inline none false []) entries, rest)
      | _ => none

def scalar? (e : Edition) (t : Text) : Option (Node × Text) := do
  let (v, rest) ←
    match Quoted.read? e t with
    | some (text, rest) => some (Value.string text, rest)
    | none => Scalar.read? e t
  return (.value none (consumed t rest) v, rest)

/-- The value at the front, with at most `depth` arrays and tables inside each other. -/
def value? (e : Edition) : Nat → Text → Option (Node × Text)
  | 0, t => scalar? e t
  | depth + 1, t =>
    match t with
    | '[' :: rest => do
      let (items, behind) ← items? (value? e depth) (rest.length + 1) rest
      return (.value none (consumed t behind) (.array items), behind)
    | '\x7b' :: rest => members? e (value? e depth) (rest.length + 1) [] rest
    | _ => scalar? e t

def maxDepth : Nat := 79

/-- The rest of a line that has nothing but blanks and a comment, and the text from its end on. -/
def lineRest? (t : Text) : Option (Text × Text) :=
  let line := t.takeWhile (· != '\n')
  let comment := dropSpaces line
  if comment.isEmpty || (comment.head? == some '#' && comment.all Quoted.isPlain) then
    some (line, t.dropWhile (· != '\n'))
  else none

structure Progress where
  root : Entries := []
  /-- The table that entries go to. -/
  current : List Key := []
  headers : Nat := 0
  /-- Blank lines, comments and indentation not yet given to anything. -/
  lead : Text := []

namespace Progress

def addEntry (path : List Key) (k : Key) (n : Node) (p : Progress) : Option Progress :=
  (descend .implied Form.isOpen (Toml.addEntry path (k.withLead p.lead) n) p.current
    (.headed none none) p.root).map fun root => { p with root, lead := [] }

def openTable (isElement : Bool) (path : List Key) (k : Key) (behind : Text) (p : Progress) :
    Option Progress :=
  let add := if isElement then addElement else addHeader
  (add (p.headers + 1) (some (p.lead, behind)) path k p.root).map fun root =>
    { root, current := path ++ [k], headers := p.headers + 1 }

def addLead (t : Text) (p : Progress) : Progress := { p with lead := p.lead ++ t }

/-- Reads the entry or header at the front, and what follows on its line. -/
def statement? (e : Edition) (t : Text) (p : Progress) : Option (Progress × Text) :=
  match t with
  | '[' :: '[' :: t => do
    let ((path, key), t) ← path? e t
    let (behind, t) ← lineRest? (← Text.dropPrefix? t [']', ']'])
    return (← p.openTable true path key behind, t)
  | '[' :: t => do
    let ((path, key), t) ← path? e t
    let (behind, t) ← lineRest? (← Scalar.expect? ']' t)
    return (← p.openTable false path key behind, t)
  | _ => do
    let ((path, key), t) ← path? e t
    let t ← Scalar.expect? '=' t
    let (node, rest) ← value? e maxDepth (dropSpaces t)
    let (behind, rest) ← lineRest? rest
    return (← p.addEntry path key (node.withMargin (some (spaces t, behind))), rest)

/-- Reads line after line. Each takes a character at least, so `fuel` is the length of the text. -/
def lines? (e : Edition) : Nat → Text → Progress → Option Progress
  | _, [], p => some p
  | 0, _ :: _, _ => none
  | fuel + 1, t, p =>
    match dropSpaces t with
    | [] => some (p.addLead t)
    | '\n' :: rest => lines? e fuel rest (p.addLead (spaces t ++ ['\n']))
    | '#' :: _ =>
      match lineRest? t with
      | none => none
      | some (line, rest) => lines? e fuel (rest.drop 1) (p.addLead (line ++ rest.take 1))
    | body =>
      match statement? e body (p.addLead (spaces t)) with
      | none => none
      | some (p, rest) => lines? e fuel (rest.drop 1) p

end Progress

/-- Line ends of two characters become one. -/
def joinLineEnds : Text → Text
  | [] => []
  | '\r' :: '\n' :: t => '\n' :: joinLineEnds t
  | c :: t => c :: joinLineEnds t

/-- The document that a text spells, if it is well formed. A byte order mark does not count. -/
def Document.parse? (e : Edition) (t : Text) : Option Document :=
  let t := joinLineEnds (SkinLint.Document.dropMark t)
  (Progress.lines? e t.length t {}).map fun p => { root := p.root, trailing := p.lead }

end SkinLint.Toml
