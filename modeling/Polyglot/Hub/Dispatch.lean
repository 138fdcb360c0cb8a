import Polyglot.Hub.Options
import Polyglot.Hub.State
import Polyglot.Json.Writer

/-!
Requests on their way through a hub: a request is made from options, answered from the memo table if
it can be, and else handed to its compiler, which runs as a task of its own. What comes back is
checked and kept.

With coalescing, requests for what is being worked out already wait for that instead.
-/

namespace Polyglot.Hub

open Loop

variable {K X : Type}

/--
A hub: its settings, and how its compilers do their work.
-/
structure Machine (K X : Type) where
  settings : Settings := {}
  perform : K → Request → Call X

def normalizerLog : String := "preos.transform.normalizer"
def dispatcherLog : String := "preos.transform.dispatcher"

def trace (debug : Bool) (logger text : String) : Block K X Unit :=
  if debug then Block.change fun s => { s with records := s.records ++ [.traced logger text] } else pure ()

def warn (debug : Bool) (logger text : String) : Block K X Unit :=
  if debug then Block.change fun s => s.record 30 logger text else pure ()

def traceRequest (r : Request) : Block K X Unit :=
  trace r.debug normalizerLog
    ("options: " ++ (Json.write? Json.spaced 0 (.ofFields r.describe)).getD "")

/--
A request that is ready: answered from the memo table, or with its text.
-/
inductive Prepared where
  | hit (e : Envelope)
  | fresh (r : Request)

/--
Reads the text of a request from its location. The file has to be there before anything is waited for.
-/
def readSource (h : Settings) (r : Request) : Block K X Request := do
  trace r.debug normalizerLog ("loading: " ++ r.location)
  let s ← Block.look
  let plan ← Block.ofExcept (Source.plan s.world s.root r.location)
  Block.pause
  let s ← Block.look
  let reading := plan.read h.sources s.world
  Block.change fun s =>
    { s with records := s.records ++ reading.records, calls := s.calls ++ reading.calls }
  let loaded ← Block.ofExcept reading.outcome
  return { r with source := some loaded.text }

/--
Makes a request from options, below the one that it is made for, and looks whether its result is
there.
-/
def prepare (h : Settings) (a : Ask) (parent : Option Request) : Block K X Prepared :=
  match requestOf a.mode a.options h.inlineStart (Request.depthBelow parent) with
  | .error e => do
    match e, a.options with
    | .unknownLanguage .., .map es => warn (isDebug es) normalizerLog e.message
    | _, _ => pure ()
    Block.fail e
  | .ok r => do
    Block.change (·.note (.asked parent r))
    let s ← Block.look
    match if r.allowCache then (s.memo r.mode).get? r.key else none with
    | some payload =>
      trace r.debug normalizerLog ("returning from cache: " ++ r.location)
      traceRequest r
      return .hit ⟨{ r with cacheHit := true }, payload⟩
    | none =>
      let r ← if r.fromLocation then readSource h r else pure r
      traceRequest r
      return .fresh r

def lookUp (r : Request) : Block K X K := do
  let s ← Block.look
  let (found, e) := match r.mode with
    | .transpile =>
      let output := r.outputLang.getD ""
      (s.registry.transpiler? r.inputLang output, Failure.noTranspiler r.inputLang output)
    | .interpret => (s.registry.interpreters.get? r.inputLang, Failure.noInterpreter r.inputLang)
  match found with
  | some c => return c
  | none =>
    warn r.debug dispatcherLog e.message
    Block.fail e

def callRoutine (h : Settings) (ask : Ask → Block K X Envelope) (r : Request) :
    Call X → Routine K X
  | .answer v compilerOptions executerOptions =>
    .finish (.ok (some ⟨{ r with compilerOptions, executerOptions }, .value v⟩))
  | .fail e => .finish (.error (.failed e))
  | .pause next => .pause (callRoutine h ask r next)
  | .observe next => .look fun s => callRoutine h ask r (next (s.view h))
  | .effect e next => .change (fun s => s.apply e) (callRoutine h ask r next)
  | .ask a next => ask a fun e => callRoutine h ask r (next e)
  | .join parts next =>
    Block.join (parts.map fun
      | .ask a => ask a fun e => .finish (.ok (some e))
      | .done => .finish (.ok none)
      | .failed e => .finish (.error (.failed e))) fun results => callRoutine h ask r (next results)

def ending (r : Except (Stop Failure) (Option Envelope)) : Block K X Envelope :=
  match r with
  | .ok (some e) => pure e
  | .ok none => Block.stop .cancelled
  | .error e => Block.stop e

def compute (m : Machine K X) (ask : Ask → Block K X Envelope) (c : K) (r : Request) :
    Block K X Envelope := do
  let t ← Block.spawn (.look fun _ =>
    .change (·.note (.called r)) (callRoutine m.settings ask r (m.perform c r)))
  let e ← ending (← Block.await t)
  match e.payload with
  | .value v =>
    let payload ← Block.ofExcept ((Payload.ofValue r.mode v).mapError .contract)
    return ⟨e.request, payload⟩
  | .output _ => return e

/--
The result of a request that others with the same key may be waiting for. The first one works it out
in a task that the others follow; its entry goes when it hears of the end of that task.
-/
def share (work : Block K X Envelope) (r : Request) : Block K X Envelope := do
  let s ← Block.look
  match s.inflight.get? (r.mode, r.key) with
  | some t =>
    trace r.debug dispatcherLog ("joining in-flight: " ++ r.key)
    let e ← ending (← Block.follow t)
    return ⟨r, e.payload⟩
  | none =>
    let t ← Block.spawn (work fun e => .finish (.ok (some e)))
    Block.change fun s => { s with inflight := s.inflight.set (r.mode, r.key) t }
    let result ← Block.await t
    Block.change fun s => { s with inflight := s.inflight.erase (r.mode, r.key) }
    ending result

def keep (e : Envelope) : Block K X Unit := do
  let r := e.request
  let s ← Block.look
  if r.allowCache && !(s.memo r.mode).has r.key then
    trace r.debug dispatcherLog ("caching: " ++ r.location ++ " as " ++ r.key)
    Block.change fun s => s.setMemo r.mode ((s.memo r.mode).set r.key e.payload)
  else pure ()

def dispatch (m : Machine K X) (ask : Ask → Block K X Envelope) (r : Request) :
    Block K X Envelope := do
  let c ← lookUp r
  let work := compute m ask c r
  let e ← if m.settings.coalesce && r.allowCache then share work r else work
  keep e
  return e

/--
A request `left` levels above the deepest level that is allowed; with none left it is too deep. What
compilers ask for is one level deeper.
-/
def request (m : Machine K X) (left : Nat) (parent : Option Request) (a : Ask) :
    Block K X Envelope := do
  match ← prepare m.settings a parent with
  | .hit e => finish e
  | .fresh r =>
    match left with
    | 0 => Block.fail (.tooDeep r.depth m.settings.maxDepth r.location)
    | left + 1 => finish (← dispatch m (request m left (some r)) r)
where
  finish (e : Envelope) : Block K X Envelope := do
    Block.change (·.note (.finished e))
    return e

def levels (h : Settings) : Nat :=
  (h.maxDepth + 1).toNat

def requestRoutine (m : Machine K X) (a : Ask) : Routine K X :=
  request m (levels m.settings) none a fun e => .finish (.ok (some e))

/--
Makes requests side by side, started in order, and waits for all of them. The answer has the new state
and the outcome of each request, as far as `fuel` ticks lead.
-/
def submit (m : Machine K X) (fuel : Nat) (s : State K X) (asks : List Ask) :
    State K X × List (Option (Except (Stop Failure) Envelope)) :=
  let end_ := (Schedule.start s (asks.map (requestRoutine m))).run fuel
  (end_.shared, (List.range asks.length).map fun i =>
    match end_.outcome? i with
    | some (.ok (some e)) => some (.ok e)
    | some (.error e) => some (.error e)
    | _ => none)

def serve (m : Machine K X) (fuel : Nat) (s : State K X) (a : Ask) :
    State K X × Except Failure Envelope :=
  let (s, outcomes) := submit m fuel s [a]
  (s, match outcomes with
    | [some (.ok e)] => .ok e
    | [some (.error (.failed e))] => .error e
    | _ => .error .unfinished)

end Polyglot.Hub
