import Polyglot.Component.Settings
import Polyglot.Request
import Polyglot.Source.Loader
import Polyglot.Style.Head

/-!
Calls of compilers: what a compiler does with a request, step by step.

A compiler may look at the world, have effects on it, wait a turn, and ask the hub for further work
below its own request. Besides its answer it hands back both kinds of options of its request as it
leaves them.
-/

namespace Polyglot

/--
A result as it is kept: the output of a transpiler or the value of an interpreter.
-/
inductive Payload where
  | output (o : Output)
  | value (v : Value)

instance : Inhabited Payload := ⟨.value .null⟩

/--
A finished request with its result.
-/
structure Envelope where
  request : Request
  payload : Payload

namespace Payload

def text : Payload → String
  | output o => o.text
  | value _ => ""

def toValue : Payload → Value
  | output o => .output (.str o.text) o.diagnostics
  | value v => v

/--
What a compiler has handed back, as a result of a mode. Values of any kind are results; outputs have
to be in order.
-/
def ofValue (mode : Mode) (v : Value) : Except OutputError Payload :=
  match mode with
  | .transpile => (Output.ofValue v).map .output
  | .interpret => .ok (.value v)

end Payload

namespace Hub

/--
What stays the same while a hub lives.
-/
structure Settings where
  component : Component.Settings := {}
  maxDepth : Int := 32
  coalesce : Bool := false
  inlineStart : String := inlineStart
  sources : Source.Options := {}

end Hub

/--
What a compiler can see: the world, the root directory, the settings of the hub if there is one, and
what an extension keeps for its own compilers.
-/
structure View (X : Type) where
  world : World
  root : String
  hub : Option Hub.Settings
  ext : X

inductive Effect (X : Type) where
  | unregister (input output : String)
  | appendStyles (head : Nat) (sheets : List String)
  | log (r : Log.Record)
  | extend (f : X → X)

/--
A request to the hub: which kind of work, and the options that say what to do.
-/
structure Ask where
  mode : Mode
  options : Value

/--
One of several things that are done side by side. Some of them need no work.
-/
inductive Part where
  | ask (a : Ask)
  | done
  | failed (e : Failure)

inductive Call (X : Type) where
  | answer (v : Value) (compilerOptions executerOptions : Fields)
  | fail (e : Failure)
  | pause (next : Call X)
  | observe (next : View X → Call X)
  | effect (e : Effect X) (next : Call X)
  | ask (a : Ask) (next : Envelope → Call X)
  | join (parts : List Part) (next : List (Option Envelope) → Call X)

namespace Call

variable {X : Type}

/--
The answer of a compiler that leaves the options of its request alone.
-/
def done (r : Request) (v : Value) : Call X :=
  answer v r.compilerOptions r.executerOptions

def doneWith (r : Request) (options : Fields) (v : Value) : Call X :=
  answer v options r.executerOptions

def ofExcept {α : Type} (e : Except Failure α) (next : α → Call X) : Call X :=
  match e with
  | .ok a => next a
  | .error e => fail e

def pauses : Nat → Call X → Call X
  | 0, c => c
  | n + 1, c => pause (pauses n c)

/--
The outcome of a call that no hub stands behind, with the compiler options it leaves. Nobody can be
asked, and effects go nowhere.
-/
def alone (v : View X) (location : String) : Call X → Except Failure (Value × Fields)
  | answer a options _ => .ok (a, options)
  | fail e => .error e
  | pause next => alone v location next
  | observe next => alone v location (next v)
  | effect _ next => alone v location next
  | ask .. => .error (.argument (.noHub location))
  | join .. => .error (.argument (.noHub location))

end Call

end Polyglot
