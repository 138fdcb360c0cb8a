import Polyglot.Loop.Schedule
import Polyglot.Proofs.Loop.Turn

/-!
The shape of a schedule: who waits for whom, how far groups and screens are, and which ticks are in the
queue, but neither what the tasks are about to do nor what their results are. The operations on schedules
that run no task go by the shape alone.
-/

namespace Polyglot.Loop

variable {σ ε ρ : Type}

def hollow (r : Except (Stop ε) ρ) : Except (Stop ε) Unit := r.map fun _ => ()

namespace Phase

def shape : Phase σ ε ρ → Phase Unit ε Unit
  | .ready _ => .ready (.finish (.ok ()))
  | .awaiting t _ => .awaiting t fun _ => .finish (.ok ())
  | .following n _ => .following n fun _ => .finish (.ok ())
  | .gathering g _ => .gathering g fun _ => .finish (.ok ())
  | .draining g _ => .draining g fun _ => .finish (.ok ())
  | .ended r => .ended (hollow r)

end Phase

def Task.shape (task : Task σ ε ρ) : Task Unit ε Unit :=
  ⟨task.phase.shape, task.waiters, task.cancelled⟩

def Group.shape (g : Group ε ρ) : Group ε Unit :=
  ⟨g.members, g.owner, g.drains, g.ended, g.cancelled,
    g.outcome.map fun r => r.map fun vs => vs.map fun _ => ()⟩

def Screen.shape (c : Screen ε ρ) : Screen ε Unit :=
  ⟨c.task, c.owner, c.outcome.map hollow⟩

namespace Schedule

def shape (s : Schedule σ ε ρ) : Schedule Unit ε Unit :=
  ⟨(), s.tasks.map (·.shape), s.groups.map (·.shape), s.screens.map (·.shape), s.queue⟩

variable (s : Schedule σ ε ρ)

theorem shape_enqueue (ticks : List Tick) : (s.enqueue ticks).shape = s.shape.enqueue ticks := rfl

theorem map_modify {α β : Type} {f : α → α} {f' : β → β} {g : α → β} (h : ∀ a, g (f a) = f' (g a))
    (as : List α) (n : Nat) : (as.modify n f).map g = (as.map g).modify n f' := by
  apply List.ext_getElem?
  intro i
  simp only [List.getElem?_map, List.getElem?_modify]
  split
  · simp [Function.comp_def, h]
  · simp

theorem shape_updateTask {f : Task σ ε ρ → Task σ ε ρ} {f' : Task Unit ε Unit → Task Unit ε Unit}
    (h : ∀ task, (f task).shape = f' task.shape) (t : Nat) :
    (s.updateTask t f).shape = s.shape.updateTask t f' := by
  simp only [shape, updateTask, map_modify h]

theorem shape_updateGroup {f : Group ε ρ → Group ε ρ} {f' : Group ε Unit → Group ε Unit}
    (h : ∀ g, (f g).shape = f' g.shape) (g : Nat) :
    (s.updateGroup g f).shape = s.shape.updateGroup g f' := by
  simp only [shape, updateGroup, map_modify h]

theorem shape_setPhase (t : Nat) (p : Phase σ ε ρ) :
    (s.setPhase t p).shape = s.shape.setPhase t p.shape :=
  s.shape_updateTask (fun _ => rfl) t

theorem shape_markCancelled (t : Nat) : (s.markCancelled t).shape = s.shape.markCancelled t :=
  s.shape_updateTask (fun _ => rfl) t

theorem shape_addTask (task : Task σ ε ρ) : (s.addTask task).shape = s.shape.addTask task.shape := by
  simp [shape, addTask]

theorem shape_addGroup (g : Group ε ρ) : (s.addGroup g).shape = s.shape.addGroup g.shape := by
  simp [shape, addGroup]

theorem shape_addScreen (c : Screen ε ρ) : (s.addScreen c).shape = s.shape.addScreen c.shape := by
  simp [shape, addScreen]

theorem shape_setScreen (n : Nat) (r : Except (Stop ε) ρ) :
    (s.setScreen n r).shape = s.shape.setScreen n (hollow r) := by
  have hstep (c : Screen ε ρ) : Screen.shape { c with outcome := some r } =
      { c.shape with outcome := some (hollow r) } := rfl
  have hmap : (s.screens.modify n fun c => { c with outcome := some r }).map Screen.shape =
      (s.screens.map Screen.shape).modify n fun c => { c with outcome := some (hollow r) } :=
    map_modify hstep s.screens n
  simp only [shape, setScreen, hmap]

theorem shape_outcome? (t : Nat) : s.shape.outcome? t = (s.outcome? t).map hollow := by
  simp only [outcome?, shape, List.getElem?_map]
  cases s.tasks[t]? with
  | none => rfl
  | some task =>
    obtain ⟨phase, waiters, cancelled⟩ := task
    cases phase <;> rfl

theorem shape_listen (t : Nat) (tick : Tick) : (s.listen t tick).shape = s.shape.listen t tick := by
  rw [listen, listen, shape_outcome?]
  cases s.outcome? t with
  | none => exact s.shape_updateTask (fun _ => rfl) t
  | some r => rfl

theorem shape_assemble (t : Nat) (ts : List Nat) (drains : Bool) (phase : Nat → Phase σ ε ρ)
    (phase' : Nat → Phase Unit ε Unit) (h : ∀ g, (phase g).shape = phase' g) :
    (s.assemble t ts drains phase).shape = s.shape.assemble t ts drains phase' := by
  have hfold (g : Nat) (s : Schedule σ ε ρ) : (ts.foldl (fun s u => s.listen u (.member g u)) s).shape =
      ts.foldl (fun s u => s.listen u (.member g u)) s.shape := by
    induction ts generalizing s with
    | nil => rfl
    | cons t ts ih => rw [List.foldl_cons, List.foldl_cons, ih, shape_listen]
  have hlength : s.shape.groups.length = s.groups.length := by simp [shape]
  simp only [assemble, shape_setPhase, hfold, shape_addGroup, hlength, h]
  rfl

theorem shape_finish (t : Nat) (r : Except (Stop ε) ρ) :
    (s.finish t r).shape = s.shape.finish t (hollow r) := by
  have hwaiters : ((s.shape.tasks[t]?).map (·.waiters)).getD [] =
      ((s.tasks[t]?).map (·.waiters)).getD [] := by
    simp only [shape, List.getElem?_map, Option.map_map]
    rfl
  rw [finish, finish, shape_enqueue, shape_setPhase, hwaiters]
  rfl

theorem shape_cancel (fuel : Nat) (s : Schedule σ ε ρ) (t : Nat) :
    cancel fuel s.shape t = ((cancel fuel s t).1.shape, (cancel fuel s t).2) := by
  induction fuel generalizing s t with
  | zero => rfl
  | succ fuel ih =>
    have hfold (us : List Nat) (s : Schedule σ ε ρ) (any : Bool) :
        us.foldl (fun p u => ((cancel fuel p.1 u).1, p.2 || (cancel fuel p.1 u).2)) (s.shape, any) =
          ((us.foldl (fun p u => ((cancel fuel p.1 u).1, p.2 || (cancel fuel p.1 u).2)) (s, any)).1.shape,
            (us.foldl (fun p u => ((cancel fuel p.1 u).1, p.2 || (cancel fuel p.1 u).2)) (s, any)).2) := by
      induction us generalizing s any with
      | nil => rfl
      | cons u us ihus => simp only [List.foldl_cons, ih, ihus]
    have htask : s.shape.tasks[t]? = (s.tasks[t]?).map (·.shape) := List.getElem?_map ..
    have hgroup (g : Nat) : s.shape.groups[g]? = (s.groups[g]?).map (·.shape) := List.getElem?_map ..
    have hscreen (n : Nat) : s.shape.screens[n]? = (s.screens[n]?).map (·.shape) := List.getElem?_map ..
    rw [cancel, cancel, htask]
    cases s.tasks[t]? with
    | none => rfl
    | some task =>
      obtain ⟨phase, waiters, cancelled⟩ := task
      cases phase with
      | ended r => rfl
      | ready next => simp [Task.shape, Phase.shape, shape_markCancelled]
      | awaiting u next =>
        simp only [Option.map_some, Task.shape, Phase.shape, ih]
        cases (cancel fuel s u).2 <;> simp [shape_markCancelled]
      | following n next =>
        simp only [Option.map_some, Task.shape, Phase.shape, hscreen]
        cases s.screens[n]? with
        | none => simp [shape_markCancelled]
        | some c =>
          obtain ⟨u, owner, outcome⟩ := c
          cases outcome with
          | none => simp [Screen.shape, shape_enqueue, shape_setScreen, hollow, Except.map]
          | some r => simp [Screen.shape, shape_markCancelled]
      | gathering g next | draining g next =>
        simp only [Option.map_some, Task.shape, Phase.shape, hgroup]
        cases s.groups[g]? with
        | none => simp [shape_markCancelled]
        | some group =>
          obtain ⟨members, owner, drains, ended, cancelled, outcome⟩ := group
          cases outcome with
          | none =>
            simp only [Option.map_some, Option.map_none, Group.shape, hfold]
            have hmark (s : Schedule σ ε ρ) :
                (s.updateGroup g fun g => { g with cancelled := true }).shape =
                  s.shape.updateGroup g fun g => { g with cancelled := true } :=
              s.shape_updateGroup (fun _ => rfl) g
            split <;> simp [shape_markCancelled, hmark]
          | some r => simp [Group.shape, shape_markCancelled]

theorem shape_cancelAll (ts : List Nat) : (s.cancelAll ts).shape = s.shape.cancelAll ts := by
  rw [cancelAll, cancelAll]
  induction ts generalizing s with
  | nil => rfl
  | cons t ts ih =>
    have hlength : s.shape.tasks.length = s.tasks.length := by simp [shape]
    rw [List.foldl_cons, List.foldl_cons, ih, hlength, shape_cancel]

theorem shape_results (ts : List Nat) : s.shape.results ts = (s.results ts).map fun _ => () := by
  rw [results, results, List.map_filterMap]
  congr 1
  funext t
  rw [shape_outcome?]
  cases s.outcome? t with
  | none => rfl
  | some r => cases r <;> rfl

theorem shape_member (g t : Nat) : (s.member g t).shape = s.shape.member g t := by
  have hgroup : s.shape.groups[g]? = (s.groups[g]?).map (·.shape) := List.getElem?_map ..
  have hcount : (s.updateGroup g fun g => { g with ended := g.ended + 1 }).shape =
      s.shape.updateGroup g fun g => { g with ended := g.ended + 1 } :=
    s.shape_updateGroup (fun _ => rfl) g
  have hsettle (s : Schedule σ ε ρ) (r : Except (Stop ε) (List ρ)) :
      (s.updateGroup g fun g => { g with outcome := some r }).shape =
        s.shape.updateGroup g fun g => { g with outcome := some (r.map fun vs => vs.map fun _ => ()) } :=
    s.shape_updateGroup (fun _ => rfl) g
  simp only [member, hgroup]
  cases s.groups[g]? with
  | none => rfl
  | some group =>
    obtain ⟨members, owner, drains, ended, cancelled, outcome⟩ := group
    simp only [Option.map_some, Group.shape, Option.isSome_map, ← hcount, shape_outcome?, shape_results]
    cases outcome with
    | some r => rfl
    | none =>
      generalize s.updateGroup g (fun g => { g with ended := g.ended + 1 }) = s'
      have hlast : (if drains then none else (s'.outcome? t).map hollow) =
          (if drains then none else s'.outcome? t).map hollow := by cases drains <;> rfl
      simp only [Option.isSome_none, Bool.false_eq_true, ↓reduceIte, hlast]
      generalize (if drains then none else s'.outcome? t) = last
      have hrest : (if ended + 1 < members.length then s'
          else if cancelled then
            (s'.updateGroup g fun g => { g with outcome := some (.error .cancelled) }).enqueue [.wake owner]
          else (s'.updateGroup g fun g => { g with outcome := some (.ok (s'.results members)) }).enqueue
            [.wake owner]).shape =
          if ended + 1 < members.length then s'.shape
          else if cancelled then
            (s'.shape.updateGroup g fun g => { g with outcome := some (.error .cancelled) }).enqueue
              [.wake owner]
          else (s'.shape.updateGroup g fun g =>
            { g with outcome := some (.ok ((s'.results members).map fun _ => ())) }).enqueue [.wake owner] := by
        split
        · rfl
        · split
          · exact congrArg (Schedule.enqueue · [Tick.wake owner]) (hsettle s' (.error .cancelled))
          · exact congrArg (Schedule.enqueue · [Tick.wake owner]) (hsettle s' (.ok (s'.results members)))
      cases last with
      | none => exact hrest
      | some r =>
        cases r with
        | ok v => exact hrest
        | error e => exact congrArg (Schedule.enqueue · [Tick.wake owner]) (hsettle s' (.error e))

theorem shape_relay (n : Nat) : (s.relay n).shape = s.shape.relay n := by
  have hscreen : s.shape.screens[n]? = (s.screens[n]?).map (·.shape) := List.getElem?_map ..
  rw [relay, relay, hscreen]
  cases s.screens[n]? with
  | none => rfl
  | some c =>
    obtain ⟨u, owner, outcome⟩ := c
    cases outcome with
    | some r => rfl
    | none =>
      simp only [Option.map_some, Screen.shape, Option.map_none, shape_outcome?]
      cases s.outcome? u with
      | none => rfl
      | some r => simp [shape_enqueue, shape_setScreen]

end Schedule

end Polyglot.Loop

/-!
Two runs of a loop side by side. Their routines take the same steps, apart from changes of the state
that only one of them makes, so that both are always in the same shape; what they work on is alike, not
equal. The end of a task whose results are too unlike for others to go on with is heard only by the tasks
that wait for nothing else, which then end themselves.
-/

namespace Polyglot.Loop

variable {σ ε ρ α : Type}

/--
Two outcomes are the same failure, or results that go together.
-/
inductive Agrees (q : α → α → Prop) : Except (Stop ε) α → Except (Stop ε) α → Prop where
  | ok {v v' : α} (h : q v v') : Agrees q (.ok v) (.ok v')
  | error (e : Stop ε) : Agrees q (.error e) (.error e)

/--
How the states of two runs are alike, how they still are once tasks have ended whose results need not be
near each other, and which results others can go on with.
-/
structure Likeness (σ ρ : Type) where
  state : σ → σ → Prop
  after : σ → σ → Prop
  near : ρ → ρ → Prop
  after_of_state : ∀ {x x'}, state x x' → after x x'

abbrev Bonds (ρ : Type) := List (ρ → ρ → Prop)

namespace Likeness

variable (c : Likeness σ ρ)

def Close (q : ρ → ρ → Prop) : Prop := ∀ v v', q v v' → c.near v v'

def Keeps (R : σ → σ → Prop) (f f' : σ → σ) : Prop := ∀ x x', R x x' → R (f x) (f' x')

end Likeness

/--
Two routines that end without waiting for anything.
-/
inductive Straight (c : Likeness σ ρ) (q : ρ → ρ → Prop) : Routine σ ε ρ → Routine σ ε ρ → Prop where
  | finish {r r'} (h : Agrees q r r') : Straight c q (.finish r) (.finish r')
  | look {k k'} (h : ∀ x x', c.after x x' → Straight c q (k x) (k' x')) :
    Straight c q (.look k) (.look k')
  | change {f f' r r'} (hf : Likeness.Keeps c.after f f') (h : Straight c q r r') :
    Straight c q (.change f r) (.change f' r')
  | left {f r r'} (hf : Likeness.Keeps c.after f id) (h : Straight c q r r') :
    Straight c q (.change f r) r'
  | right {f r r'} (hf : Likeness.Keeps c.after id f) (h : Straight c q r r') :
    Straight c q r (.change f r')

/--
Two routines that wait for a task, and end when they hear of its end.
-/
inductive Leading (c : Likeness σ ρ) (b q : ρ → ρ → Prop) (u : Nat) :
    Routine σ ε ρ → Routine σ ε ρ → Prop where
  | await {k k'} (h : ∀ r r', Agrees b r r' → Straight c q (k r) (k' r')) :
    Leading c b q u (.await u k) (.await u k')
  | change {f f' r r'} (hf : Likeness.Keeps c.state f f') (h : Leading c b q u r r') :
    Leading c b q u (.change f r) (.change f' r')

/--
Two routines that take the same steps, where each task is bound as the list of bonds says and their own
one by `q`.
-/
inductive Alike (c : Likeness σ ρ) :
    Bonds ρ → (ρ → ρ → Prop) → Routine σ ε ρ → Routine σ ε ρ → Prop where
  | finish {bs q r r'} (h : Agrees q r r') : Alike c bs q (.finish r) (.finish r')
  | pause {bs q r r'} (h : ∀ bs', bs <+: bs' → Alike c bs' q r r') : Alike c bs q (.pause r) (.pause r')
  | look {bs q k k'} (h : ∀ x x', c.state x x' → Alike c bs q (k x) (k' x')) :
    Alike c bs q (.look k) (.look k')
  | change {bs q f f' r r'} (hf : Likeness.Keeps c.state f f') (h : Alike c bs q r r') :
    Alike c bs q (.change f r) (.change f' r')
  | left {bs q f r r'} (hf : Likeness.Keeps c.state f id) (h : Alike c bs q r r') :
    Alike c bs q (.change f r) r'
  | right {bs q f r r'} (hf : Likeness.Keeps c.state id f) (h : Alike c bs q r r') :
    Alike c bs q r (.change f r')
  | spawn {bs q b r r' k k'} (hb : c.Close b)
    (hchild : ∀ bs', bs ++ [b] <+: bs' → Alike c bs' b r r')
    (h : Alike c (bs ++ [b]) q (k bs.length) (k' bs.length)) :
    Alike c bs q (.spawn r k) (.spawn r' k')
  | lead {bs q b r r' k k'} (hq : ¬ c.Close q)
    (hchild : ∀ bs', bs ++ [b] <+: bs' → Alike c bs' b r r')
    (h : Leading c b q bs.length (k bs.length) (k' bs.length)) :
    Alike c bs q (.spawn r k) (.spawn r' k')
  | await {bs q b u k k'} (hu : bs[u]? = some b) (hb : c.Close b)
    (h : ∀ bs', bs <+: bs' → ∀ r r', Agrees b r r' → Alike c bs' q (k r) (k' r')) :
    Alike c bs q (.await u k) (.await u k')
  | follow {bs q u k k'}
    (h : ∀ bs', bs <+: bs' → ∀ r r', Agrees c.near r r' → Alike c bs' q (k r) (k' r')) :
    Alike c bs q (.follow u k) (.follow u k')
  | gather {bs q b us k k'} (hus : ∀ u ∈ us, bs[u]? = some b) (hb : c.Close b)
    (h : ∀ bs', bs <+: bs' → ∀ r r', Agrees (List.Forall₂ b) r r' → Alike c bs' q (k r) (k' r')) :
    Alike c bs q (.gather us k) (.gather us k')
  | drain {bs q us k k'} (hus : ∀ u ∈ us, ∃ b, bs[u]? = some b ∧ c.Close b)
    (h : ∀ bs', bs <+: bs' → ∀ r, Alike c bs' q (k r) (k' r)) :
    Alike c bs q (.drain us k) (.drain us k')

/--
Two tasks wait for one whose end they hear last.
-/
inductive Leans (c : Likeness σ ρ) (bs : Bonds ρ) (q : ρ → ρ → Prop) :
    Phase σ ε ρ → Phase σ ε ρ → Prop where
  | awaiting {b u k k'} (hu : bs[u]? = some b) (hq : ¬ c.Close q)
    (h : ∀ r r', Agrees b r r' → Straight c q (k r) (k' r')) :
    Leans c bs q (.awaiting u k) (.awaiting u k')

/--
Two tasks do the same, where each group is bound as a list of bonds says.
-/
inductive Waits (c : Likeness σ ρ) (bs gs : Bonds ρ) (q : ρ → ρ → Prop) :
    Phase σ ε ρ → Phase σ ε ρ → Prop where
  | ready {r r'} (h : ∀ bs', bs <+: bs' → Alike c bs' q r r') : Waits c bs gs q (.ready r) (.ready r')
  | leans {p p'} (h : Leans c bs q p p') : Waits c bs gs q p p'
  | awaiting {b u k k'} (hu : bs[u]? = some b) (hb : c.Close b)
    (h : ∀ bs', bs <+: bs' → ∀ r r', Agrees b r r' → Alike c bs' q (k r) (k' r')) :
    Waits c bs gs q (.awaiting u k) (.awaiting u k')
  | following {n k k'}
    (h : ∀ bs', bs <+: bs' → ∀ r r', Agrees c.near r r' → Alike c bs' q (k r) (k' r')) :
    Waits c bs gs q (.following n k) (.following n k')
  | gathering {b g k k'} (hg : gs[g]? = some b)
    (h : ∀ bs', bs <+: bs' → ∀ r r', Agrees (List.Forall₂ b) r r' → Alike c bs' q (k r) (k' r')) :
    Waits c bs gs q (.gathering g k) (.gathering g k')
  | draining {g k k'} (hg : g < gs.length)
    (h : ∀ bs', bs <+: bs' → ∀ r, Alike c bs' q (k r) (k' r)) :
    Waits c bs gs q (.draining g k) (.draining g k')
  | ended {r r'} (h : Agrees q r r') : Waits c bs gs q (.ended r) (.ended r')

section Mono

variable {c : Likeness σ ρ} {bs bs' gs gs' : Bonds ρ} {q : ρ → ρ → Prop} {p p' : Phase σ ε ρ}

theorem getElem?_grown {as as' : List α} {a : α} {n : Nat} (h : as <+: as') (ha : as[n]? = some a) :
    as'[n]? = some a := by
  obtain ⟨more, rfl⟩ := h
  rw [List.getElem?_append_left (List.getElem?_eq_some_iff.mp ha).1, ha]

theorem Leans.mono (h : Leans c bs q p p') (hbs : bs <+: bs') : Leans c bs' q p p' := by
  obtain ⟨hu, hq, h⟩ := h
  exact .awaiting (getElem?_grown hbs hu) hq h

theorem Leans.not_close (h : Leans c bs q p p') : ¬ c.Close q := by
  obtain ⟨_, hq, _⟩ := h
  exact hq

theorem Waits.mono (h : Waits c bs gs q p p') (hbs : bs <+: bs') (hgs : gs <+: gs') :
    Waits c bs' gs' q p p' := by
  cases h with
  | ready h => exact .ready fun bs'' hbs' => h bs'' (hbs.trans hbs')
  | leans h => exact .leans (h.mono hbs)
  | awaiting hu hb h =>
    exact .awaiting (getElem?_grown hbs hu) hb fun bs'' hbs' => h bs'' (hbs.trans hbs')
  | following h => exact .following fun bs'' hbs' => h bs'' (hbs.trans hbs')
  | gathering hg h =>
    exact .gathering (getElem?_grown hgs hg) fun bs'' hbs' => h bs'' (hbs.trans hbs')
  | draining hg h =>
    exact .draining (Nat.lt_of_lt_of_le hg hgs.length_le) fun bs'' hbs' => h bs'' (hbs.trans hbs')
  | ended h => exact .ended h

theorem Agrees.imp {p : α → α → Prop} {r r' : Except (Stop ε) α} (h : Agrees p r r') {p' : α → α → Prop}
    (himp : ∀ v v', p v v' → p' v v') : Agrees p' r r' := by
  cases h with
  | ok hv => exact .ok (himp _ _ hv)
  | error e => exact .error e

theorem Agrees.hollow {r r' : Except (Stop ε) ρ} (h : Agrees q r r') : hollow r = hollow r' := by
  cases h <;> rfl

theorem Waits.outcome? (h : Waits c bs gs q p p') :
    (p.outcome? = none ∧ p'.outcome? = none) ∨
      ∃ r r', p.outcome? = some r ∧ p'.outcome? = some r' ∧ Agrees q r r' := by
  cases h with
  | ended h => exact .inr ⟨_, _, rfl, rfl, h⟩
  | leans h =>
    cases h
    exact .inl ⟨rfl, rfl⟩
  | ready h => exact .inl ⟨rfl, rfl⟩
  | awaiting hu hb h => exact .inl ⟨rfl, rfl⟩
  | following h => exact .inl ⟨rfl, rfl⟩
  | gathering hg h => exact .inl ⟨rfl, rfl⟩
  | draining hg h => exact .inl ⟨rfl, rfl⟩

theorem Waits.isEnded_eq (h : Waits c bs gs q p p') : p.isEnded = p'.isEnded := by
  rw [Phase.isEnded_eq_isSome, Phase.isEnded_eq_isSome]
  rcases h.outcome? with ⟨hnone, hnone'⟩ | ⟨_, _, hr, hr', _⟩
  · rw [hnone, hnone']
  · rw [hr, hr']
    rfl

end Mono

namespace Schedule

/--
The members of a group in two runs are close, and what it passes on goes together.
-/
structure Confers (c : Likeness σ ρ) (bs : Bonds ρ) (q : ρ → ρ → Prop) (group group' : Group ε ρ) :
    Prop where
  members : ∀ u ∈ group.members, ∃ b, bs[u]? = some b ∧ c.Close b ∧ ∀ v v', b v v' → q v v'
  results : ∀ vs vs', group.outcome = some (.ok vs) → group'.outcome = some (.ok vs') →
    List.Forall₂ q vs vs'

/--
Two schedules are in the same shape, and their tasks do the same.
-/
structure Twins (c : Likeness σ ρ) (bs gs : Bonds ρ) (s s' : Schedule σ ε ρ) : Prop where
  shape : s.shape = s'.shape
  tasks : bs.length = s.phases.length
  boards : gs.length = s.groups.length
  phases : ∀ (t : Nat) q p p', bs[t]? = some q → s.phases[t]? = some p → s'.phases[t]? = some p' →
    Waits c bs gs q p p'
  groups : ∀ (g : Nat) q (group group' : Group ε ρ), gs[g]? = some q → s.groups[g]? = some group →
    s'.groups[g]? = some group' → Confers c bs q group group'

namespace Twins

variable {c : Likeness σ ρ} {bs bs' gs gs' : Bonds ρ} {b q : ρ → ρ → Prop} {p p' : Phase σ ε ρ}
variable {s s' z z' : Schedule σ ε ρ} {t u : Nat} {r r' : Routine σ ε ρ}

theorem shape_phases (s : Schedule σ ε ρ) : s.shape.phases = s.phases.map (·.shape) := by
  simp only [Schedule.phases, Schedule.shape, List.map_map]
  rfl

theorem length_phases_eq (h : Twins c bs gs s s') : s.phases.length = s'.phases.length := by
  have hphases := congrArg Schedule.phases h.shape
  rw [shape_phases, shape_phases] at hphases
  simpa using congrArg List.length hphases

theorem length_groups_eq (h : Twins c bs gs s s') : s.groups.length = s'.groups.length := by
  have hgroups := congrArg Schedule.groups h.shape
  simpa [Schedule.shape] using congrArg List.length hgroups

theorem queue_eq (h : Twins c bs gs s s') : s.queue = s'.queue :=
  congrArg (fun s : Schedule Unit ε Unit => s.queue) h.shape

theorem phase (h : Twins c bs gs s s') (ht : t < s.phases.length) : ∃ q p p', bs[t]? = some q ∧
    s.phases[t]? = some p ∧ s'.phases[t]? = some p' ∧ Waits c bs gs q p p' := by
  have hq := List.getElem?_eq_getElem (h.tasks ▸ ht)
  have hp := List.getElem?_eq_getElem ht
  have hp' := List.getElem?_eq_getElem (h.length_phases_eq ▸ ht)
  exact ⟨_, _, _, hq, hp, hp', h.phases t _ _ _ hq hp hp'⟩

theorem outcome? (h : Twins c bs gs s s') (hq : bs[t]? = some q) :
    (s.outcome? t = none ∧ s'.outcome? t = none) ∨
      ∃ r r', s.outcome? t = some r ∧ s'.outcome? t = some r' ∧ Agrees q r r' := by
  obtain ⟨q', p, p', hq', hp, hp', hwaits⟩ := h.phase (h.tasks ▸ (List.getElem?_eq_some_iff.mp hq).1)
  obtain rfl := Option.some.inj (hq.symm.trans hq')
  rw [outcome?_eq, outcome?_eq, hp, hp']
  exact hwaits.outcome?

theorem outcome?_isSome (h : Twins c bs gs s s') (t : Nat) :
    (s.outcome? t).isSome = (s'.outcome? t).isSome := by
  have hout := congrArg (fun s : Schedule Unit ε Unit => (s.outcome? t).isSome) h.shape
  simpa only [shape_outcome?, Option.isSome_map] using hout

theorem of_same (h : Twins c bs gs s s') (hshape : z.shape = z'.shape) (hphases : z.phases = s.phases)
    (hphases' : z'.phases = s'.phases) (hgroups : z.groups = s.groups) (hgroups' : z'.groups = s'.groups) :
    Twins c bs gs z z' where
  shape := hshape
  tasks := hphases ▸ h.tasks
  boards := hgroups ▸ h.boards
  phases := by
    rw [hphases, hphases']
    exact h.phases
  groups := by
    rw [hgroups, hgroups']
    exact h.groups

theorem settle (h : Twins c bs gs s s') (hq : bs[t]? = some q) (hgs : gs <+: gs')
    (hshape : z.shape = z'.shape) (hphases : z.phases = s.phases.set t p)
    (hphases' : z'.phases = s'.phases.set t p') (hp : Waits c bs gs' q p p')
    (hboards : gs'.length = z.groups.length)
    (hgroups : ∀ (g : Nat) q (group group' : Group ε ρ), gs'[g]? = some q → z.groups[g]? = some group →
      z'.groups[g]? = some group' → Confers c bs q group group') : Twins c bs gs' z z' where
  shape := hshape
  tasks := by rw [hphases, List.length_set, h.tasks]
  boards := hboards
  phases := by
    intro u q' p₁ p₁' hq' hp₁ hp₁'
    rw [hphases, List.getElem?_set] at hp₁
    rw [hphases', List.getElem?_set] at hp₁'
    by_cases htu : t = u
    · subst htu
      obtain rfl := Option.some.inj (hq.symm.trans hq')
      have hlt : t < s.phases.length := h.tasks ▸ (List.getElem?_eq_some_iff.mp hq).1
      rw [if_pos rfl, if_pos hlt] at hp₁
      rw [if_pos rfl, if_pos (h.length_phases_eq ▸ hlt)] at hp₁'
      obtain rfl := Option.some.inj hp₁
      obtain rfl := Option.some.inj hp₁'
      exact hp
    · rw [if_neg htu] at hp₁ hp₁'
      exact (h.phases u q' p₁ p₁' hq' hp₁ hp₁').mono List.prefix_rfl hgs
  groups := hgroups

theorem setPhase (h : Twins c bs gs s s') (hq : bs[t]? = some q) (hshape : z.shape = z'.shape)
    (hphases : z.phases = s.phases.set t p) (hphases' : z'.phases = s'.phases.set t p')
    (hgroups : z.groups = s.groups) (hgroups' : z'.groups = s'.groups) (hp : Waits c bs gs q p p') :
    Twins c bs gs z z' := by
  apply h.settle hq List.prefix_rfl hshape hphases hphases' hp (hgroups ▸ h.boards)
  rw [hgroups, hgroups']
  exact h.groups

theorem changeShared (h : Twins c bs gs s s') (x x' : σ) :
    Twins c bs gs { s with shared := x } { s' with shared := x' } :=
  h.of_same h.shape rfl rfl rfl rfl

theorem length_tasks (h : Twins c bs gs s s') : s.tasks.length = bs.length := by
  rw [h.tasks, length_phases]

theorem length_tasks' (h : Twins c bs gs s s') : s'.tasks.length = bs.length := by
  rw [h.tasks, h.length_phases_eq, length_phases]

theorem addTask (h : Twins c bs gs s s') (b : ρ → ρ → Prop)
    (hchild : ∀ bs', bs ++ [b] <+: bs' → Alike c bs' b r r') :
    Twins c (bs ++ [b]) gs ((s.addTask ⟨.ready r, [], false⟩).enqueue [.wake bs.length])
      ((s'.addTask ⟨.ready r', [], false⟩).enqueue [.wake bs.length]) where
  shape := by
    rw [shape_enqueue, shape_enqueue, shape_addTask, shape_addTask, h.shape]
    rfl
  tasks := by
    rw [phases_enqueue, phases_addTask, List.length_append, List.length_append, h.tasks]
    rfl
  boards := h.boards
  phases := by
    intro u q p p' hq hp hp'
    rw [phases_enqueue, phases_addTask] at hp hp'
    have hlen := h.length_phases_eq
    by_cases hu : u < bs.length
    · rw [List.getElem?_append_left hu] at hq
      rw [List.getElem?_append_left (h.tasks ▸ hu)] at hp
      rw [List.getElem?_append_left (hlen ▸ h.tasks ▸ hu)] at hp'
      exact (h.phases u q p p' hq hp hp').mono (List.prefix_append _ _) List.prefix_rfl
    · have hlt := (List.getElem?_eq_some_iff.mp hq).1
      rw [List.length_append, List.length_singleton] at hlt
      obtain rfl : u = bs.length := by omega
      rw [List.getElem?_concat_length] at hq
      rw [h.tasks, List.getElem?_concat_length] at hp
      rw [h.tasks, hlen, List.getElem?_concat_length] at hp'
      obtain rfl := Option.some.inj hq
      obtain rfl := Option.some.inj hp
      obtain rfl := Option.some.inj hp'
      exact .ready hchild
  groups := by
    intro g q group group' hq hg hg'
    obtain ⟨hmembers, hresults⟩ := h.groups g q group group' hq hg hg'
    refine ⟨?_, hresults⟩
    intro u hu
    obtain ⟨b, hb, hrest⟩ := hmembers u hu
    exact ⟨b, getElem?_grown (List.prefix_append _ _) hb, hrest⟩

theorem assemble (h : Twins c bs gs s s') (hq : bs[t]? = some q) {us : List Nat}
    (hus : ∀ u ∈ us, ∃ b', bs[u]? = some b' ∧ c.Close b' ∧ ∀ v v', b' v v' → b v v') (drains : Bool)
    {phase phase' : Nat → Phase σ ε ρ} (hphase : Waits c bs (gs ++ [b]) q (phase gs.length)
      (phase' gs.length)) (hshape : ∀ g, (phase g).shape = (phase' g).shape) :
    Twins c bs (gs ++ [b]) (s.assemble t us drains phase) (s'.assemble t us drains phase') := by
  have hlen := h.length_groups_eq
  refine h.settle hq (List.prefix_append _ _) ?_ (phases_assemble ..) (phases_assemble ..) ?_ ?_ ?_
  · rw [shape_assemble s t us drains phase (fun g => (phase g).shape) fun _ => rfl,
      shape_assemble s' t us drains phase' (fun g => (phase g).shape) fun g => (hshape g).symm, h.shape]
  · rw [← hlen, ← h.boards]
    exact hphase
  · rw [groups_assemble, List.length_append, List.length_append, h.boards]
    rfl
  · intro g q' group group' hq' hg hg'
    rw [groups_assemble] at hg hg'
    by_cases hgt : g < gs.length
    · rw [List.getElem?_append_left hgt] at hq'
      rw [List.getElem?_append_left (h.boards ▸ hgt)] at hg
      rw [List.getElem?_append_left (hlen ▸ h.boards ▸ hgt)] at hg'
      exact h.groups g q' group group' hq' hg hg'
    · have hlt := (List.getElem?_eq_some_iff.mp hq').1
      rw [List.length_append, List.length_singleton] at hlt
      obtain rfl : g = gs.length := by omega
      rw [List.getElem?_concat_length] at hq'
      rw [h.boards, List.getElem?_concat_length] at hg
      obtain rfl := Option.some.inj hq'
      obtain rfl := Option.some.inj hg
      exact ⟨hus, by rintro vs vs' ⟨⟩⟩

theorem cancelAll (h : Twins c bs gs s s') (us : List Nat) :
    Twins c bs gs (s.cancelAll us) (s'.cancelAll us) where
  shape := by rw [shape_cancelAll, shape_cancelAll, h.shape]
  tasks := by rw [(cancels_cancelAll s us).phases, h.tasks]
  boards := by
    have hgroups := congrArg List.length (cancels_cancelAll s us).groups
    rw [List.length_map, List.length_map] at hgroups
    rw [hgroups, h.boards]
  phases := by
    rw [(cancels_cancelAll s us).phases, (cancels_cancelAll s' us).phases]
    exact h.phases
  groups := by
    intro g q group group' hq hg hg'
    obtain ⟨old, hold, heq⟩ := (cancels_cancelAll s us).group hg
    obtain ⟨old', hold', heq'⟩ := (cancels_cancelAll s' us).group hg'
    rw [heq, heq']
    obtain ⟨hmembers, hresults⟩ := h.groups g q old old' hq hold hold'
    exact ⟨hmembers, hresults⟩

end Twins

end Schedule

end Polyglot.Loop
