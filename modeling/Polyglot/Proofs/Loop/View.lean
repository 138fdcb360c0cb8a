import Polyglot.Loop.Schedule

/-!
What can be seen of a schedule: what its tasks are doing, and who is to be told when a task ends. The
operations on schedules are described by what they do to these two views and to the queue.
-/

namespace Polyglot.Loop

variable {σ ε ρ : Type}

namespace Phase

def isEnded : Phase σ ε ρ → Bool
  | .ended _ => true
  | _ => false

def outcome? : Phase σ ε ρ → Option (Except (Stop ε) ρ)
  | .ended r => some r
  | _ => none

theorem isEnded_eq_isSome (p : Phase σ ε ρ) : p.isEnded = p.outcome?.isSome := by
  cases p <;> rfl

end Phase

def Task.listeners (task : Task σ ε ρ) : List Tick :=
  if task.phase.isEnded then [] else task.waiters

namespace Schedule

variable (s : Schedule σ ε ρ)

def phases : List (Phase σ ε ρ) := s.tasks.map (·.phase)

def listeners (u : Nat) : List Tick := ((s.tasks[u]?).map (·.listeners)).getD []

def marks : List Bool := s.tasks.map (·.cancelled)

theorem phases_getElem? (t : Nat) : s.phases[t]? = (s.tasks[t]?).map (·.phase) := by
  simp [phases]

theorem length_phases : s.phases.length = s.tasks.length := by
  simp [phases]

theorem outcome?_eq (t : Nat) : s.outcome? t = (s.phases[t]?).bind Phase.outcome? := by
  rw [phases_getElem?, outcome?]
  match s.tasks[t]? with
  | none => rfl
  | some ⟨phase, _, _⟩ => cases phase <;> rfl

theorem lt_of_outcome? {t : Nat} {r : Except (Stop ε) ρ} (h : s.outcome? t = some r) :
    t < s.phases.length := by
  rw [outcome?_eq] at h
  by_cases ht : t < s.phases.length
  · exact ht
  · rw [List.getElem?_eq_none (by omega)] at h
    cases h

def Running (t : Nat) : Prop := t < s.phases.length ∧ s.outcome? t = none

variable {s} in
theorem Running.task {t : Nat} (h : s.Running t) :
    ∃ task, s.tasks[t]? = some task ∧ task.phase.isEnded = false := by
  have hlt : t < s.tasks.length := s.length_phases ▸ h.1
  refine ⟨s.tasks[t], List.getElem?_eq_getElem hlt, ?_⟩
  have hnone := h.2
  rw [outcome?_eq, phases_getElem?, List.getElem?_eq_getElem hlt] at hnone
  rw [Phase.isEnded_eq_isSome]
  simpa using hnone

variable {s} in
theorem running_of_not_ended {t : Nat} {p : Phase σ ε ρ} (hp : s.phases[t]? = some p)
    (hrun : p.isEnded = false) : s.Running t := by
  refine ⟨(List.getElem?_eq_some_iff.mp hp).1, ?_⟩
  rw [Phase.isEnded_eq_isSome] at hrun
  rw [outcome?_eq, hp]
  simpa using hrun

section Enqueue

variable (ticks : List Tick)

@[simp]
theorem phases_enqueue : (s.enqueue ticks).phases = s.phases := rfl

@[simp]
theorem listeners_enqueue : (s.enqueue ticks).listeners = s.listeners := rfl

@[simp]
theorem outcome?_enqueue : (s.enqueue ticks).outcome? = s.outcome? := rfl

@[simp]
theorem queue_enqueue : (s.enqueue ticks).queue = s.queue ++ ticks := rfl

end Enqueue

section UpdateTask

variable (t : Nat) (f : Task σ ε ρ → Task σ ε ρ)

theorem tasks_updateTask (u : Nat) :
    (s.updateTask t f).tasks[u]? = if t = u then (s.tasks[u]?).map f else s.tasks[u]? := by
  rw [updateTask, List.getElem?_modify]
  split <;> simp_all

theorem phases_updateTask (h : ∀ task, (f task).phase = task.phase) :
    (s.updateTask t f).phases = s.phases := by
  apply List.ext_getElem?
  intro u
  rw [phases_getElem?, phases_getElem?, tasks_updateTask]
  split
  · cases s.tasks[u]? <;> simp [h]
  · rfl

theorem listeners_updateTask (hphase : ∀ task, (f task).phase = task.phase)
    (hwaiters : ∀ task, (f task).waiters = task.waiters) :
    (s.updateTask t f).listeners = s.listeners := by
  funext u
  rw [listeners, listeners, tasks_updateTask]
  split
  · cases s.tasks[u]? <;> simp [Task.listeners, hphase, hwaiters]
  · rfl

theorem marks_updateTask (h : ∀ task, (f task).cancelled = task.cancelled) :
    (s.updateTask t f).marks = s.marks := by
  apply List.ext_getElem?
  intro u
  rw [marks, marks, List.getElem?_map, List.getElem?_map, tasks_updateTask]
  split
  · cases s.tasks[u]? <;> simp [h]
  · rfl

@[simp]
theorem phases_markCancelled : (s.markCancelled t).phases = s.phases := by
  apply phases_updateTask
  intro task
  rfl

@[simp]
theorem listeners_markCancelled : (s.markCancelled t).listeners = s.listeners := by
  apply listeners_updateTask
  · intro task
    rfl
  · intro task
    rfl

end UpdateTask

section SetPhase

variable (t : Nat) (p : Phase σ ε ρ)

@[simp]
theorem phases_setPhase : (s.setPhase t p).phases = s.phases.set t p := by
  apply List.ext_getElem?
  intro u
  rw [phases_getElem?, setPhase, tasks_updateTask, List.getElem?_set, phases_getElem?, length_phases]
  split
  · next h =>
    subst h
    by_cases ht : t < s.tasks.length
    · simp [ht]
    · simp [ht]
  · rfl

theorem listeners_setPhase (u : Nat) :
    (s.setPhase t p).listeners u =
      if t = u then if p.isEnded then [] else ((s.tasks[u]?).map (·.waiters)).getD []
      else s.listeners u := by
  rw [listeners, listeners, setPhase, tasks_updateTask]
  split
  · cases s.tasks[u]? <;> simp [Task.listeners]
  · rfl

theorem listeners_setPhase_of_running (ht : s.Running t) (hp : p.isEnded = false) :
    (s.setPhase t p).listeners = s.listeners := by
  funext u
  rw [listeners_setPhase]
  split
  · next h =>
    subst h
    obtain ⟨task, htask, hrun⟩ := ht.task
    simp [listeners, htask, Task.listeners, hp, hrun]
  · rfl

theorem outcome?_setPhase (u : Nat) :
    (s.setPhase t p).outcome? u =
      if t = u ∧ u < s.phases.length then p.outcome? else s.outcome? u := by
  rw [outcome?_eq, outcome?_eq, phases_setPhase, List.getElem?_set]
  by_cases htu : t = u
  · subst htu
    by_cases hlt : t < s.phases.length
    · simp [hlt]
    · simp [hlt]
  · simp [htu]

theorem outcome?_setPhase_of_running (ht : s.Running t) (hp : p.isEnded = false) :
    (s.setPhase t p).outcome? = s.outcome? := by
  funext u
  rw [outcome?_setPhase]
  split
  · next h =>
    rw [← h.1, ht.2]
    rw [Phase.isEnded_eq_isSome] at hp
    simpa using hp
  · rfl

end SetPhase

@[simp]
theorem marks_setPhase (t : Nat) (p : Phase σ ε ρ) : (s.setPhase t p).marks = s.marks := by
  apply marks_updateTask
  intro task
  rfl

section Listen

variable (u : Nat) (tick : Tick)

@[simp]
theorem marks_listen : (s.listen u tick).marks = s.marks := by
  rw [listen]
  split
  · rfl
  · apply marks_updateTask
    intro task
    rfl

@[simp]
theorem phases_listen : (s.listen u tick).phases = s.phases := by
  rw [listen]
  split
  · rfl
  · apply phases_updateTask
    intro task
    rfl

@[simp]
theorem outcome?_listen : (s.listen u tick).outcome? = s.outcome? := by
  funext t
  rw [outcome?_eq, outcome?_eq, phases_listen]

theorem queue_listen :
    (s.listen u tick).queue = if (s.outcome? u).isSome then s.queue ++ [tick] else s.queue := by
  rw [listen]
  split <;> simp_all [updateTask]

theorem listeners_listen (v : Nat) :
    (s.listen u tick).listeners v =
      if u = v ∧ v < s.phases.length ∧ s.outcome? v = none then s.listeners v ++ [tick]
      else s.listeners v := by
  rw [listen]
  split
  · next h =>
    rw [if_neg]
    · rfl
    · rintro ⟨rfl, -, hv⟩
      simp [hv] at h
  · next h =>
    rw [listeners, tasks_updateTask, listeners, length_phases]
    by_cases huv : u = v
    · subst huv
      rw [outcome?_eq, phases_getElem?] at h
      cases hs : s.tasks[u]? with
      | none =>
        have : s.tasks.length ≤ u := List.getElem?_eq_none_iff.mp hs
        simp [Nat.not_lt.mpr this]
      | some task =>
        have hu : u < s.tasks.length := (List.getElem?_eq_some_iff.mp hs).1
        have hrun : task.phase.isEnded = false := by
          rw [Phase.isEnded_eq_isSome]
          simpa [hs] using h
        simp_all [outcome?_eq, phases_getElem?, Task.listeners]
    · simp [huv]

end Listen

section AddTask

variable (task : Task σ ε ρ)

@[simp]
theorem phases_addTask : (s.addTask task).phases = s.phases ++ [task.phase] := by
  simp [phases, addTask]

theorem outcome?_addTask (hnew : task.phase.isEnded = false) :
    (s.addTask task).outcome? = s.outcome? := by
  funext u
  rw [outcome?_eq, outcome?_eq, phases_addTask]
  by_cases hu : u < s.phases.length
  · rw [List.getElem?_append_left hu]
  · rw [List.getElem?_append_right (by omega), List.getElem?_eq_none (Nat.le_of_not_lt hu)]
    cases u - s.phases.length with
    | zero =>
      rw [Phase.isEnded_eq_isSome] at hnew
      simpa using hnew
    | succ n => simp

theorem listeners_addTask (hnew : task.waiters = []) :
    (s.addTask task).listeners = s.listeners := by
  funext u
  simp only [listeners, addTask]
  by_cases hu : u < s.tasks.length
  · rw [List.getElem?_append_left hu]
  · rw [List.getElem?_append_right (by omega), List.getElem?_eq_none (Nat.le_of_not_lt hu)]
    cases u - s.tasks.length with
    | zero => simp [Task.listeners, hnew]
    | succ n => simp

variable {s} in
theorem Running.spawn {t : Nat} (h : s.Running t) (child : Routine σ ε ρ) (ticks : List Tick) :
    ((s.addTask ⟨.ready child, [], false⟩).enqueue ticks).Running t := by
  refine ⟨?_, ?_⟩
  · rw [phases_enqueue, phases_addTask, List.length_append]
    exact Nat.lt_add_right _ h.1
  · rw [outcome?_enqueue, outcome?_addTask s _ rfl]
    exact h.2

end AddTask

end Schedule

end Polyglot.Loop
