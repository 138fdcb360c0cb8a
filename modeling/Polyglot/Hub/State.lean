import Polyglot.Compiler.Call
import Polyglot.Loop.Schedule
import Polyglot.Table

/-!
The state that all requests to a hub share.
-/

namespace Polyglot.Hub

/--
What a hub has done: it has taken a request, below another one or from outside, called a compiler for
it, finished it with a result, or dropped the results of a mode.
-/
inductive Event where
  | asked (parent : Option Request) (r : Request)
  | called (r : Request)
  | finished (e : Envelope)
  | cleared (mode : Mode)

/--
The history has the latest event first. It is for the record: nothing that a hub does depends on it.
-/
structure State (K X : Type) where
  registry : Registry K := {}
  transpiled : Memo Payload := {}
  interpreted : Memo Payload := {}
  inflight : Table (Mode × String) Nat := {}
  heads : Table Nat Style.Head := {}
  world : World := {}
  root : String := "/"
  records : List Log.Record := []
  calls : List Source.WebCall := []
  history : List Event := []
  ext : X

namespace State

variable {K X : Type}

def memo (s : State K X) : Mode → Memo Payload
  | .transpile => s.transpiled
  | .interpret => s.interpreted

def setMemo (s : State K X) (mode : Mode) (m : Memo Payload) : State K X :=
  match mode with
  | .transpile => { s with transpiled := m }
  | .interpret => { s with interpreted := m }

def record (s : State K X) (level : Int) (logger message : String) : State K X :=
  { s with records := s.records ++ [⟨level, logger, message⟩] }

def note (s : State K X) (event : Event) : State K X :=
  { s with history := event :: s.history }

def clearMemo (s : State K X) (mode : Mode) : State K X :=
  ((s.setMemo mode {}).note (.cleared mode)).record 20 "preos.transform.dispatcher"
    (mode.name ++ " cache cleared")

def head (s : State K X) (id : Nat) : Style.Head :=
  (s.heads.get? id).getD {}

def setHead (s : State K X) (id : Nat) (h : Style.Head) : State K X :=
  { s with heads := s.heads.set id h }

def appendStyles (s : State K X) (id : Nat) (sheets : List String) : State K X :=
  s.setHead id ((s.head id).appendAll sheets)

/--
Writes the styles that a component has left to its caller to a head: its own one, unless another is
given. A component that has left nothing cannot be told to do so.
-/
def insertStyles? (s : State K X) (parts : ComponentParts) (target : Option Nat) : Option (State K X) :=
  parts.pendingHead.map fun own => s.appendStyles (target.getD own) parts.styles

def clearHead (s : State K X) (id : Nat) : State K X :=
  s.setHead id (s.head id).clear

def setRoot (s : State K X) (root : Value) : Except ArgumentError (State K X) :=
  (Source.checkRoot s.world root).map fun text =>
    { s with root := text }.record 20 "preos.sources.loader" ("root dir set: " ++ text)

def view (s : State K X) (h : Settings) : View X :=
  ⟨s.world, s.root, some h, s.ext⟩

def apply (s : State K X) : Effect X → State K X
  | .unregister input output => { s with registry := s.registry.eraseTranspiler input output }
  | .appendStyles head sheets => s.appendStyles head sheets
  | .log r => { s with records := s.records ++ [r] }
  | .extend f => { s with ext := f s.ext }

end State

/--
What a process holds: a hub, and the registry that compilers are wired to where the hub is not built over it.
-/
structure Runtime (K X : Type) where
  hub : State K X
  apart : Option (Registry K)

namespace Runtime

variable {K X : Type}

def registry (p : Runtime K X) : Registry K :=
  p.apart.getD p.hub.registry

def setRegistry (p : Runtime K X) (r : Registry K) : Runtime K X :=
  match p.apart with
  | none => { p with hub := { p.hub with registry := r } }
  | some _ => { p with apart := some r }

def wireTranspiler (p : Runtime K X) (input output : Value) (c : Option K) :
    Except RegistryError (Runtime K X) :=
  (p.registry.registerTranspiler input output c).map p.setRegistry

def wireInterpreter (p : Runtime K X) (lang : Value) (c : Option K) : Except RegistryError (Runtime K X) :=
  (p.registry.registerInterpreter lang c).map p.setRegistry

/--
Gives the hub of the process up; the next one is a new hub over the same registry, in the directory that is
the current one then. Heads that callers have made are theirs.
-/
def reset (p : Runtime K X) (documentHead : Nat) : Runtime K X :=
  match p.apart with
  | some _ => p
  | none =>
    { p with hub :=
      { p.hub with
        transpiled := {}, interpreted := {}, inflight := {},
        root := p.hub.world.current.text, heads := p.hub.heads.erase documentHead } }

end Runtime

/--
The routine of a task of the hub. Tasks that only keep others waiting have no envelope.
-/
abbrev Routine (K X : Type) := Loop.Routine (State K X) Failure (Option Envelope)

abbrev Block (K X α : Type) := Loop.Block (State K X) Failure (Option Envelope) α

end Polyglot.Hub
