import Polyglot.Loop.Routine

/-!
Schedules: the state of a loop of tasks and what one tick of it does.

Ticks wait in a queue. Whoever waits for a task is told by a tick when that task ends. A group of
tasks or a screen between two tasks passes the news on with one more tick.
-/

namespace Polyglot.Loop

/--
What a tick does: let a task go on, tell a group of the end of a member, or tell a screen of the end
of the task behind it.
-/
inductive Tick where
  | wake (task : Nat)
  | member (group task : Nat)
  | relay (screen : Nat)
  deriving DecidableEq

/--
What a task is doing.
-/
inductive Phase (σ ε ρ : Type) where
  | ready (next : Routine σ ε ρ)
  | awaiting (task : Nat) (next : Except (Stop ε) ρ → Routine σ ε ρ)
  | following (screen : Nat) (next : Except (Stop ε) ρ → Routine σ ε ρ)
  | gathering (group : Nat) (next : Except (Stop ε) (List ρ) → Routine σ ε ρ)
  | draining (group : Nat) (next : Except (Stop ε) Unit → Routine σ ε ρ)
  | ended (r : Except (Stop ε) ρ)

/--
A task with those who wait for its end. A cancelled one stops as soon as it goes on.
-/
structure Task (σ ε ρ : Type) where
  phase : Phase σ ε ρ
  waiters : List Tick := []
  cancelled : Bool := false

/--
Tasks that are waited for together by one task. A group that is told to drain minds no failures.
-/
structure Group (ε ρ : Type) where
  members : List Nat
  owner : Nat
  drains : Bool
  ended : Nat := 0
  cancelled : Bool := false
  outcome : Option (Except (Stop ε) (List ρ)) := none

structure Screen (ε ρ : Type) where
  task : Nat
  owner : Nat
  outcome : Option (Except (Stop ε) ρ) := none

structure Schedule (σ ε ρ : Type) where
  shared : σ
  tasks : List (Task σ ε ρ) := []
  groups : List (Group ε ρ) := []
  screens : List (Screen ε ρ) := []
  queue : List Tick := []

namespace Schedule

variable {σ ε ρ : Type}

def enqueue (s : Schedule σ ε ρ) (ticks : List Tick) : Schedule σ ε ρ :=
  { s with queue := s.queue ++ ticks }

def updateTask (s : Schedule σ ε ρ) (t : Nat) (f : Task σ ε ρ → Task σ ε ρ) : Schedule σ ε ρ :=
  { s with tasks := s.tasks.modify t f }

def setPhase (s : Schedule σ ε ρ) (t : Nat) (p : Phase σ ε ρ) : Schedule σ ε ρ :=
  s.updateTask t fun task => { task with phase := p }

def updateGroup (s : Schedule σ ε ρ) (g : Nat) (f : Group ε ρ → Group ε ρ) : Schedule σ ε ρ :=
  { s with groups := s.groups.modify g f }

def addTask (s : Schedule σ ε ρ) (task : Task σ ε ρ) : Schedule σ ε ρ :=
  { s with tasks := s.tasks ++ [task] }

def addGroup (s : Schedule σ ε ρ) (group : Group ε ρ) : Schedule σ ε ρ :=
  { s with groups := s.groups ++ [group] }

def addScreen (s : Schedule σ ε ρ) (screen : Screen ε ρ) : Schedule σ ε ρ :=
  { s with screens := s.screens ++ [screen] }

def setScreen (s : Schedule σ ε ρ) (n : Nat) (r : Except (Stop ε) ρ) : Schedule σ ε ρ :=
  { s with screens := s.screens.modify n fun c => { c with outcome := some r } }

def outcome? (s : Schedule σ ε ρ) (t : Nat) : Option (Except (Stop ε) ρ) :=
  match s.tasks[t]? with
  | some ⟨.ended r, _, _⟩ => some r
  | _ => none

def listen (s : Schedule σ ε ρ) (t : Nat) (tick : Tick) : Schedule σ ε ρ :=
  match s.outcome? t with
  | some _ => s.enqueue [tick]
  | none => s.updateTask t fun task => { task with waiters := task.waiters ++ [tick] }

def markCancelled (s : Schedule σ ε ρ) (t : Nat) : Schedule σ ε ρ :=
  s.updateTask t fun task => { task with cancelled := true }

/--
Cancels a task, and tells whether there was anything to cancel. A task that waits for others has
these cancelled in its place; one that does not, or whose news is already on its way, is marked.
-/
def cancel : Nat → Schedule σ ε ρ → Nat → Schedule σ ε ρ × Bool
  | 0, s, _ => (s, false)
  | fuel + 1, s, t =>
    let group (g : Nat) : Schedule σ ε ρ × Bool :=
      match s.groups[g]? with
      | some ⟨members, _, _, _, _, none⟩ =>
        let (s, any) := members.foldl (fun (s, any) u =>
          let (s, done) := cancel fuel s u
          (s, any || done)) (s, false)
        (if any then s.updateGroup g fun g => { g with cancelled := true }
          else s.markCancelled t, true)
      | _ => (s.markCancelled t, true)
    match s.tasks[t]? with
    | none => (s, false)
    | some task =>
      match task.phase with
      | .ended _ => (s, false)
      | .ready _ => (s.markCancelled t, true)
      | .awaiting u _ =>
        let (s, done) := cancel fuel s u
        (if done then s else s.markCancelled t, true)
      | .following n _ =>
        match s.screens[n]? with
        | some ⟨_, _, none⟩ => ((s.setScreen n (.error .cancelled)).enqueue [.wake t], true)
        | _ => (s.markCancelled t, true)
      | .gathering g _ => group g
      | .draining g _ => group g

def cancelAll (s : Schedule σ ε ρ) (ts : List Nat) : Schedule σ ε ρ :=
  ts.foldl (fun s t => (cancel s.tasks.length s t).1) s

def assemble (s : Schedule σ ε ρ) (t : Nat) (ts : List Nat) (drains : Bool)
    (phase : Nat → Phase σ ε ρ) : Schedule σ ε ρ :=
  let g := s.groups.length
  let s := s.addGroup ⟨ts, t, drains, 0, false, none⟩
  (ts.foldl (fun s u => s.listen u (.member g u)) s).setPhase t (phase g)

def finish (s : Schedule σ ε ρ) (t : Nat) (r : Except (Stop ε) ρ) : Schedule σ ε ρ :=
  let waiters := ((s.tasks[t]?).map (·.waiters)).getD []
  (s.setPhase t (.ended r)).enqueue waiters

/--
Runs a task up to where it pauses, waits or ends.
-/
def exec (s : Schedule σ ε ρ) (t : Nat) : Routine σ ε ρ → Schedule σ ε ρ
  | .finish r => s.finish t r
  | .pause next => (s.setPhase t (.ready next)).enqueue [.wake t]
  | .look next => exec s t (next s.shared)
  | .change f next => exec { s with shared := f s.shared } t next
  | .spawn child next =>
    let u := s.tasks.length
    exec ((s.addTask ⟨.ready child, [], false⟩).enqueue [.wake u]) t (next u)
  | .await u next =>
    match s.outcome? u with
    | some r => exec s t (next r)
    | none => (s.listen u (.wake t)).setPhase t (.awaiting u next)
  | .follow u next =>
    match s.outcome? u with
    | some r => exec s t (next r)
    | none =>
      let n := s.screens.length
      ((s.addScreen ⟨u, t, none⟩).listen u (.relay n)).setPhase t (.following n next)
  | .gather ts next =>
    if ts.isEmpty then exec s t (next (.ok []))
    else s.assemble t ts false (.gathering · next)
  | .drain ts next =>
    if ts.isEmpty then exec s t (next (.ok ()))
    else (s.cancelAll ts).assemble t ts true (.draining · next)

/--
Lets a task go on with what it waited for. A cancelled one goes on with that news instead.
-/
def wake (s : Schedule σ ε ρ) (t : Nat) : Schedule σ ε ρ :=
  match s.tasks[t]? with
  | none => s
  | some task =>
    let cut := task.cancelled
    let s := s.updateTask t fun task => { task with cancelled := false }
    let go {α : Type} (next : Except (Stop ε) α → Routine σ ε ρ)
        (r : Option (Except (Stop ε) α)) : Schedule σ ε ρ :=
      if cut then s.exec t (next (.error .cancelled))
      else match r with
        | some r => s.exec t (next r)
        | none => s
    match task.phase with
    | .ended _ => s
    | .ready next => if cut then s.finish t (.error .cancelled) else s.exec t next
    | .awaiting u next => go next (s.outcome? u)
    | .following n next => go next ((s.screens[n]?).bind (·.outcome))
    | .gathering g next => go next ((s.groups[g]?).bind (·.outcome))
    | .draining g next =>
      go next (((s.groups[g]?).bind (·.outcome)).map fun r => r.map fun _ => ())

def results (s : Schedule σ ε ρ) (ts : List Nat) : List ρ :=
  ts.filterMap fun t =>
    match s.outcome? t with
    | some (.ok r) => some r
    | _ => none

/--
Tells a group that a member has ended. The group's owner hears of it when that settles the matter.
-/
def member (s : Schedule σ ε ρ) (g t : Nat) : Schedule σ ε ρ :=
  match s.groups[g]? with
  | none => s
  | some group =>
    let s := s.updateGroup g fun g => { g with ended := g.ended + 1 }
    let settle (r : Except (Stop ε) (List ρ)) : Schedule σ ε ρ :=
      (s.updateGroup g fun g => { g with outcome := some r }).enqueue [.wake group.owner]
    if group.outcome.isSome then s
    else match if group.drains then none else s.outcome? t with
      | some (.error e) => settle (.error e)
      | _ =>
        if group.ended + 1 < group.members.length then s
        else if group.cancelled then settle (.error .cancelled)
        else settle (.ok (s.results group.members))

def relay (s : Schedule σ ε ρ) (n : Nat) : Schedule σ ε ρ :=
  match s.screens[n]? with
  | some ⟨u, owner, none⟩ =>
    match s.outcome? u with
    | some r => (s.setScreen n r).enqueue [.wake owner]
    | none => s
  | _ => s

def fire (s : Schedule σ ε ρ) : Tick → Schedule σ ε ρ
  | .wake t => s.wake t
  | .member g t => s.member g t
  | .relay n => s.relay n

def fireAt (s : Schedule σ ε ρ) (i : Nat) : Schedule σ ε ρ :=
  match s.queue[i]? with
  | none => s
  | some tick => { s with queue := s.queue.eraseIdx i }.fire tick

/--
Fires the ticks in the order of the queue until there are none, at most `fuel` of them.
-/
def run : Nat → Schedule σ ε ρ → Schedule σ ε ρ
  | 0, s => s
  | fuel + 1, s =>
    match s.queue with
    | [] => s
    | tick :: rest => run fuel ({ s with queue := rest }.fire tick)

/--
A schedule in which tasks are about to start in order.
-/
def start (shared : σ) (routines : List (Routine σ ε ρ)) : Schedule σ ε ρ :=
  { shared, tasks := routines.map fun r => ⟨.ready r, [], false⟩,
    queue := (List.range routines.length).map .wake }

end Schedule

end Polyglot.Loop
