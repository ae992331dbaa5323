import SkinLint.Text.Basic

/-!
Arguments of a command: flags, options with a value, and words. Flags and options may stand in any
order before, between and behind the words; behind `--` everything is a word.
-/
namespace SkinLint.Command

structure Grammar where
  flags : List String := []
  /-- Names that take a value. -/
  options : List String := []
  /-- Of these, those that may be given more than once. -/
  repeatable : List String := []
  /-- Flags with a letter of their own. -/
  letters : List (Char × String) := []
  words : Nat := 0
  /-- May words start with a hyphen? -/
  freeWords : Bool := false
  /-- Does the name of another command follow in place of words? -/
  branches : Bool := false

namespace Grammar

/-- The grammar with what every command takes. -/
def withShared (g : Grammar) : Grammar :=
  { g with
    flags := "verbose" :: g.flags
    options := "config" :: g.options
    letters := ('v', "verbose") :: g.letters }

/-- Letters that ask for help or the version. -/
def reserved : List Char := ['h', 'V']

def knows (g : Grammar) (c : Char) : Bool := reserved.contains c || (g.letters.lookup c).isSome

end Grammar

structure Given where
  flags : List String := []
  options : List (String × Text) := []
  words : List Text := []
deriving DecidableEq, Repr

namespace Given

def addFlags (names : List String) (given : Given) : Given :=
  { given with flags := given.flags ++ names }

def addOption (name : String) (value : Text) (given : Given) : Given :=
  { given with options := given.options ++ [(name, value)] }

def addWords (words : List Text) (given : Given) : Given :=
  { given with words := given.words ++ words }

def has (given : Given) (flag : String) : Bool := given.flags.contains flag

def option? (given : Given) (name : String) : Option Text := given.options.lookup name

def options? (given : Given) (name : String) : List Text :=
  given.options.filterMap fun (other, value) => if other = name then some value else none

/-- Nothing is given twice, unless it may be. -/
def isOrderly (g : Grammar) (given : Given) : Bool :=
  let single := given.flags.filter (· != "verbose")
  let names := (given.options.map (·.1)).filter (!g.repeatable.contains ·)
  single.eraseDups.length == single.length && names.eraseDups.length == names.length

end Given

/-- An argument by its first characters. -/
inductive Shape where
  | divider
  /-- A name, with a value if there is an equals sign. -/
  | long (name : String) (value : Option Text)
  | letters (letters : List Char)
  | word
deriving DecidableEq, Repr

def Shape.of : Text → Shape
  | ['-', '-'] => .divider
  | '-' :: '-' :: t =>
    match Text.splitFirst? '=' t with
    | some (name, value) => .long (Text.str name) (some value)
    | none => .long (Text.str t) none
  | '-' :: c :: t => .letters (c :: t)
  | _ => .word

namespace Grammar

/-- Can an argument with a hyphen be a word? -/
def takesAnyWord (g : Grammar) (given : Given) : Bool :=
  g.freeWords && given.words.length < g.words

/-- Reads arguments up to the name of a further command, which is left with what follows it. -/
def read (g : Grammar) : Given → List Text → Option (Given × List Text)
  | given, [] => some (given, [])
  | given, arg :: rest =>
    match Shape.of arg with
    | .divider => if g.branches then none else some (given.addWords rest, [])
    | .word => if g.branches then some (given, arg :: rest) else read g (given.addWords [arg]) rest
    | .letters letters =>
      if g.takesAnyWord given && !letters.all g.knows then read g (given.addWords [arg]) rest
      else
        match letters.mapM (g.letters.lookup ·) with
        | some names => read g (given.addFlags names) rest
        | none => none
    | .long name value =>
      if g.options.contains name then
        match value, rest with
        | some value, rest => read g (given.addOption name value) rest
        | none, next :: rest =>
          if Shape.of next = .word then read g (given.addOption name next) rest else none
        | none, [] => none
      else if g.flags.contains name then
        if value.isSome then none else read g (given.addFlags [name]) rest
      else if g.takesAnyWord given then read g (given.addWords [arg]) rest
      else none

/-- Reads the arguments of a command: neither words nor a further command may be missing, and
nothing may be left over. -/
def parse? (g : Grammar) (arguments : List Text) : Option (Given × List Text) :=
  match g.withShared.read {} arguments with
  | none => none
  | some (given, rest) =>
    if given.isOrderly g && given.words.length == g.words && g.branches == !rest.isEmpty then
      some (given, rest)
    else none

end Grammar

end SkinLint.Command
