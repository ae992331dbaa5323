/-! Registering the providers of an editor with a host, and releasing them again. -/
namespace SkinLint.Registration

inductive Provider where
  | diagnostics
  | completion
  | colour
  | folding
  | formatting
  | autoRefresh
deriving DecidableEq, Repr

def Provider.name : Provider → String
  | .diagnostics => "diagnostics"
  | .completion => "completion"
  | .colour => "color"
  | .folding => "folding"
  | .formatting => "formatting"
  | .autoRefresh => "auto-refresh"

/-- The language that providers are registered for. -/
def language : String := "rainmeter"

structure Handle where
  id : Nat
  provider : Provider
deriving DecidableEq, Repr

/-- What can be asked of a host: an identifier for a provider of a language, and to forget one. -/
class Host (σ : Type) where
  register : σ → Provider → String → Nat × σ
  unregister : σ → Nat → σ

def providers (autoRefresh : Bool) : List Provider :=
  [.diagnostics, .completion, .colour, .folding, .formatting] ++
    if autoRefresh then [.autoRefresh] else []

section Host

variable {σ : Type} [Host σ]

def registerAll (h : σ) : List Provider → σ × List Handle
  | [] => (h, [])
  | p :: rest =>
    let (id, h) := Host.register h p language
    let (h, handles) := registerAll h rest
    (h, ⟨id, p⟩ :: handles)

def activate (h : σ) (autoRefresh : Bool) : σ × List Handle := registerAll h (providers autoRefresh)

def dispose (h : σ) (handles : List Handle) : σ :=
  handles.reverse.foldl (fun h handle => Host.unregister h handle.id) h

end Host

/-- A host that numbers registrations from one and keeps those that are active. -/
structure Registry where
  issued : Nat := 0
  active : List Handle := []
deriving DecidableEq, Repr

instance : Host Registry where
  register r p _ :=
    let id := r.issued + 1
    (id, { issued := id, active := r.active ++ [⟨id, p⟩] })
  unregister r id := { r with active := r.active.filter (·.id != id) }

inductive Event where
  | register (handle : Handle) (language : String)
  | unregister (id : Nat)
deriving DecidableEq, Repr

structure Recorded (σ : Type) where
  host : σ
  events : List Event := []
deriving DecidableEq, Repr

instance {σ : Type} [Host σ] : Host (Recorded σ) where
  register r p language :=
    let (id, host) := Host.register r.host p language
    (id, ⟨host, r.events ++ [.register ⟨id, p⟩ language]⟩)
  unregister r id := ⟨Host.unregister r.host id, r.events ++ [.unregister id]⟩

inductive Request where
  | activate (autoRefresh : Bool)
  /-- To dispose of a set of registrations, by its number. -/
  | dispose (set : Nat)
deriving DecidableEq, Repr

/-- A host in use, with the sets of registrations in the order they were made; a set that was
disposed of is gone. -/
structure Session (σ : Type) where
  host : Recorded σ
  sets : List (Option (List Handle)) := []
deriving DecidableEq, Repr

namespace Session

variable {σ : Type} [Host σ]

def step (s : Session σ) : Request → Session σ
  | .activate autoRefresh =>
    let (host, handles) := activate s.host autoRefresh
    ⟨host, s.sets ++ [some handles]⟩
  | .dispose n =>
    match s.sets[n]? with
    | some (some handles) => ⟨dispose s.host handles, s.sets.set n none⟩
    | _ => s

def run (s : Session σ) (requests : List Request) : Session σ := requests.foldl step s

end Session

end SkinLint.Registration
