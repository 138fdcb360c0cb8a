/-!
Routines: programs of cooperating tasks.

A routine runs without interruption until it pauses or waits for another task. It may look at and
change the state that all tasks share.
-/

namespace Polyglot.Loop

/--
Why a task ended without a result.
-/
inductive Stop (ε : Type) where
  | failed (e : ε)
  | cancelled
  deriving DecidableEq

/--
What is left to do of a task. Tasks are known by number. A task that waits for another directly is
one with it: to cancel the one is to cancel the other. A task that follows another is not. `gather`
waits for all of some tasks or for the first that fails; `drain` cancels them and waits for all.
-/
inductive Routine (σ ε ρ : Type) where
  | finish (r : Except (Stop ε) ρ)
  | pause (next : Routine σ ε ρ)
  | look (next : σ → Routine σ ε ρ)
  | change (f : σ → σ) (next : Routine σ ε ρ)
  | spawn (child : Routine σ ε ρ) (next : Nat → Routine σ ε ρ)
  | await (task : Nat) (next : Except (Stop ε) ρ → Routine σ ε ρ)
  | follow (task : Nat) (next : Except (Stop ε) ρ → Routine σ ε ρ)
  | gather (tasks : List Nat) (next : Except (Stop ε) (List ρ) → Routine σ ε ρ)
  | drain (tasks : List Nat) (next : Except (Stop ε) Unit → Routine σ ε ρ)

/--
A part of a routine that hands a value to what comes after it.
-/
def Block (σ ε ρ α : Type) : Type :=
  (α → Routine σ ε ρ) → Routine σ ε ρ

namespace Block

variable {σ ε ρ α β : Type}

instance : Monad (Block σ ε ρ) where
  pure a := fun k => k a
  bind x f := fun k => x fun a => f a k

def fail (e : ε) : Block σ ε ρ α := fun _ => .finish (.error (.failed e))

def stop (s : Stop ε) : Block σ ε ρ α := fun _ => .finish (.error s)

def ofExcept : Except ε α → Block σ ε ρ α
  | .ok a => pure a
  | .error e => fail e

def pause : Block σ ε ρ Unit := fun k => .pause (k ())

def look : Block σ ε ρ σ := Routine.look

def change (f : σ → σ) : Block σ ε ρ Unit := fun k => .change f (k ())

def spawn (child : Routine σ ε ρ) : Block σ ε ρ Nat := Routine.spawn child

def spawnAll : List (Routine σ ε ρ) → Block σ ε ρ (List Nat)
  | [] => pure []
  | r :: rs => do
    let t ← spawn r
    let ts ← spawnAll rs
    return t :: ts

def await (task : Nat) : Block σ ε ρ (Except (Stop ε) ρ) := Routine.await task

def follow (task : Nat) : Block σ ε ρ (Except (Stop ε) ρ) := Routine.follow task

/--
Starts tasks and waits for all of them. When one fails the others are cancelled, and when all have
ended the task fails the same way.
-/
def join (parts : List (Routine σ ε ρ)) : Block σ ε ρ (List ρ) := do
  let ts ← spawnAll parts
  match ← (Routine.gather ts : Block σ ε ρ _) with
  | .ok rs => return rs
  | .error e =>
    match ← (Routine.drain ts : Block σ ε ρ _) with
    | .ok _ => stop e
    | .error e => stop e

def routine (b : Block σ ε ρ ρ) : Routine σ ε ρ := b fun r => .finish (.ok r)

end Block

end Polyglot.Loop
