import Polyglot.Compiler.Builtin
import Polyglot.Compiler.Call
import Polyglot.Hub.Dispatch
import Polyglot.Text.Character

/-!
Compilers of both kinds: those that come with a hub, and scripted ones.

Scripted compilers are stand-ins that do one simple thing, perhaps after some turns, and note down when
they start and end. They serve to rehearse what a hub does.
-/

namespace Polyglot

/--
What scripted compilers keep: what happened in order, and how often each of them has worked.
-/
structure Rehearsal where
  events : List String := []
  counts : Table Nat Nat := {}

namespace Rehearsal

def note (r : Rehearsal) (event : String) : Rehearsal :=
  { r with events := r.events ++ [event] }

def count (r : Rehearsal) (id : Nat) : Nat :=
  (r.counts.get? id).getD 0

def increment (r : Rehearsal) (id : Nat) : Rehearsal :=
  { r with counts := r.counts.set id (r.count id + 1) }

end Rehearsal

inductive Work where
  | echo (tag : String)
  | upper
  | count
  | value (v : Value)
  | output (text diagnostics : Value)
  | counter
  | request
  | join (defaults : List (String × Value))
  | raise (kind message : String)
  | remove
  | nest (tag : String) (options : Value)

/--
A scripted compiler. One that takes turns also notes its end.
-/
structure Script where
  name : String
  id : Nat
  turns : Option Nat := none
  work : Work

namespace Work

def text (s : String) : Value :=
  .output (.str s) .null

/--
Does the work of a request and goes on with the value and the options that come of it.
-/
def perform (w : Work) (id : Nat) (r : Request) (next : Value → Fields → Call Rehearsal) :
    Call Rehearsal :=
  let give (v : Value) : Call Rehearsal := next v r.compilerOptions
  let counted (k : Nat → Call Rehearsal) : Call Rehearsal :=
    .effect (.extend (·.increment id)) (.observe fun v => k (v.ext.count id))
  match w with
  | echo tag => give (text (tag ++ r.text))
  | upper => give (text (Text.upper r.text))
  | count => counted fun n => give (text (r.text ++ "#" ++ toString n))
  | value v => give v
  | output t d => give (.output t d)
  | counter => counted fun n => give (.int n)
  | request =>
    let more : List (String × Value) :=
      [("lang", .str r.inputLang), ("is_inline", .bool !r.fromLocation)]
    give (.ofFields [("text", .str "ok"), ("diagnostics", .ofFields (r.describe ++ more))])
  | join defaults =>
    let options := Request.joinOptions defaults r.compilerOptions
    next (.ofFields [("text", .str "ok"), ("diagnostics", .map options)]) options
  | raise kind message => .fail (.raised kind message)
  | remove =>
    .effect (.unregister r.inputLang (r.outputLang.getD "")) (give (text ("removed:" ++ r.text)))
  | nest tag options =>
    .ask ⟨.transpile, options⟩ fun e =>
      give (text (tag ++ toString r.depth ++ "[" ++ e.payload.text ++ "]"))

end Work

def Script.perform (s : Script) (r : Request) : Call Rehearsal :=
  let note (event : String) (next : Call Rehearsal) : Call Rehearsal :=
    .effect (.extend (·.note (event ++ ":" ++ s.name))) next
  note "start" (.pauses (s.turns.getD 0) (s.work.perform s.id r fun v options =>
    let answer := .doneWith r options v
    if s.turns.isSome then note "end" answer else answer))

inductive Compiler where
  | builtin (b : Builtin)
  | scripted (s : Script)

namespace Compiler

def name : Compiler → String
  | builtin b => b.name
  | scripted s => s.name

def perform : Compiler → Request → Call Rehearsal
  | builtin b, r => b.perform r
  | scripted s, r => s.perform r

/--
The registry that holds what comes with a hub.
-/
def registry : Registry Compiler :=
  Builtin.registry builtin

end Compiler

namespace Hub

def machine (settings : Settings) : Machine Compiler Rehearsal :=
  ⟨settings, Compiler.perform⟩

end Hub

end Polyglot
