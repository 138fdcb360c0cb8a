import Polyglot.Proofs.Loop.Upkeep

/-!
What no task ever changes: a view of the shared state that every change of every routine keeps is the same
after any run, however the tasks have waited for each other.
-/

namespace Polyglot.Loop

variable {σ ε ρ α β : Type} {v : σ → α}

def Routine.Fixes (v : σ → α) : Routine σ ε ρ → Prop
  | .finish _ => True
  | .pause next => next.Fixes v
  | .look next => ∀ x, (next x).Fixes v
  | .change f next => (∀ x, v (f x) = v x) ∧ next.Fixes v
  | .spawn child next => child.Fixes v ∧ ∀ t, (next t).Fixes v
  | .await _ next => ∀ r, (next r).Fixes v
  | .follow _ next => ∀ r, (next r).Fixes v
  | .gather _ next => ∀ r, (next r).Fixes v
  | .drain _ next => ∀ r, (next r).Fixes v

def Phase.Fixes (v : σ → α) : Phase σ ε ρ → Prop
  | .ready next => next.Fixes v
  | .awaiting _ next => ∀ r, (next r).Fixes v
  | .following _ next => ∀ r, (next r).Fixes v
  | .gathering _ next => ∀ r, (next r).Fixes v
  | .draining _ next => ∀ r, (next r).Fixes v
  | .ended _ => True

def Block.Fixes (v : σ → α) (b : Block σ ε ρ β) : Prop :=
  ∀ k, (∀ a, (k a).Fixes v) → Routine.Fixes v (b k)

namespace Schedule

variable {s s' : Schedule σ ε ρ} {t : Nat}

def Fixes (v : σ → α) (s : Schedule σ ε ρ) : Prop :=
  ∀ p ∈ s.phases, p.Fixes v

theorem Fixes.of_phases (h : s.Fixes v) (heq : s'.phases = s.phases) : s'.Fixes v := by
  rw [Fixes, heq]
  exact h

theorem Fixes.of_set (h : s.Fixes v) {p : Phase σ ε ρ} (heq : s'.phases = s.phases.set t p)
    (hp : p.Fixes v) : s'.Fixes v := by
  rw [Fixes, heq]
  intro p' hp'
  rcases List.mem_or_eq_of_mem_set hp' with hp' | rfl
  · exact h p' hp'
  · exact hp

theorem Fixes.exec (r : Routine σ ε ρ) (h : s.Fixes v) (hr : r.Fixes v) :
    (s.exec t r).Fixes v ∧ v (s.exec t r).shared = v s.shared := by
  induction r generalizing s with
  | finish r => exact ⟨h.of_set (phases_setPhase s t (.ended r)) trivial, rfl⟩
  | pause next ih => exact ⟨h.of_set (phases_setPhase s t (.ready next)) hr, rfl⟩
  | look next ih => exact ih s.shared h (hr s.shared)
  | change f next ih =>
    obtain ⟨hf, hnext⟩ := hr
    obtain ⟨hafter, hview⟩ := ih (s := { s with shared := f s.shared }) (h.of_phases rfl) hnext
    exact ⟨hafter, hview.trans (hf s.shared)⟩
  | spawn child next _ ih =>
    refine ih s.tasks.length ?_ (hr.2 _)
    rw [Fixes, phases_enqueue, phases_addTask]
    intro p hp
    rcases List.mem_append.mp hp with hp | hp
    · exact h p hp
    · rw [List.mem_singleton.mp hp]
      exact hr.1
  | await u next ih =>
    rw [Schedule.exec]
    split
    · next r _ => exact ih r h (hr r)
    · refine ⟨(h.of_phases (phases_listen s u (.wake t))).of_set (phases_setPhase _ t _) hr, ?_⟩
      rw [setPhase, updateTask, shared_listen]
  | follow u next ih =>
    rw [Schedule.exec]
    split
    · next r _ => exact ih r h (hr r)
    · have hscreen : (s.addScreen ⟨u, t, none⟩).Fixes v := h.of_phases rfl
      refine ⟨(hscreen.of_phases (phases_listen _ u _)).of_set (phases_setPhase _ t _) hr, ?_⟩
      simp only [setPhase, updateTask, shared_listen]
      rfl
  | gather us next ih =>
    rw [Schedule.exec]
    split
    · exact ih _ h (hr _)
    · exact ⟨h.of_set (phases_assemble s t us false _) hr, congrArg v (shared_assemble s t us false _)⟩
  | drain us next ih =>
    rw [Schedule.exec]
    split
    · exact ih _ h (hr _)
    · have hc := cancels_cancelAll s us
      refine ⟨(h.of_phases hc.phases).of_set (phases_assemble _ t us true _) hr, ?_⟩
      rw [shared_assemble, hc.shared]

theorem fixes_of_hears {p : Phase σ ε ρ} (hp : p.Fixes v) {cut : Bool} {next : Routine σ ε ρ}
    (hnext : s.hears cut p = some next) : next.Fixes v := by
  cases p with
  | ready r =>
    cases cut <;> cases hnext
    · exact hp
    · trivial
  | awaiting u f =>
    obtain ⟨r, -, rfl⟩ := Option.map_eq_some_iff.mp hnext
    exact hp r
  | following n f =>
    obtain ⟨r, -, rfl⟩ := Option.map_eq_some_iff.mp hnext
    exact hp r
  | gathering g f =>
    obtain ⟨r, -, rfl⟩ := Option.map_eq_some_iff.mp hnext
    exact hp r
  | draining g f =>
    obtain ⟨r, -, rfl⟩ := Option.map_eq_some_iff.mp hnext
    exact hp r
  | ended r => cases hnext

theorem Fixes.wake (h : s.Fixes v) (t : Nat) :
    (s.wake t).Fixes v ∧ v (s.wake t).shared = v s.shared := by
  cases htask : s.tasks[t]? with
  | none =>
    have heq : s.wake t = s := by simp only [Schedule.wake, htask]
    rw [heq]
    exact ⟨h, rfl⟩
  | some task =>
    have hcleared : (s.updateTask t fun task => { task with cancelled := false }).Fixes v :=
      h.of_phases (phases_updateTask s t _ fun _ => rfl)
    rw [wake_eq htask]
    dsimp only
    split
    · next next hnext =>
      have hphase : task.phase ∈ s.phases := List.mem_map_of_mem (List.mem_of_getElem? htask)
      exact hcleared.exec next (fixes_of_hears (h _ hphase) hnext)
    · exact ⟨hcleared, rfl⟩

theorem phases_member (s : Schedule σ ε ρ) (g t : Nat) : (s.member g t).phases = s.phases := by
  cases hg : s.groups[g]? with
  | none => simp [member, hg]
  | some group =>
    rcases member_cases hg with ⟨_, heq⟩ | ⟨_, _, _, heq⟩ | ⟨_, r, _, heq⟩ <;> rw [heq] <;> rfl

theorem phases_relay (s : Schedule σ ε ρ) (n : Nat) : (s.relay n).phases = s.phases := by
  rcases relay_cases s n with ⟨_, _, r, _, _, heq⟩ | ⟨heq, _⟩ <;> rw [heq]
  rfl

theorem Fixes.fire (h : s.Fixes v) (tick : Tick) :
    (s.fire tick).Fixes v ∧ v (s.fire tick).shared = v s.shared := by
  cases tick with
  | wake t => exact h.wake t
  | member g t => exact ⟨h.of_phases (phases_member s g t), congrArg v (shared_member s g t)⟩
  | relay n => exact ⟨h.of_phases (phases_relay s n), congrArg v (shared_relay s n)⟩

theorem Fixes.run (h : s.Fixes v) (fuel : Nat) :
    (s.run fuel).Fixes v ∧ v (s.run fuel).shared = v s.shared := by
  induction fuel generalizing s with
  | zero => exact ⟨h, rfl⟩
  | succ fuel ih =>
    rw [Schedule.run]
    split
    · exact ⟨h, rfl⟩
    · next tick rest _ =>
      have hrest : Fixes v { s with queue := rest } := h.of_phases rfl
      obtain ⟨hfire, hview⟩ := hrest.fire tick
      obtain ⟨hrun, hview'⟩ := ih hfire
      exact ⟨hrun, hview'.trans hview⟩

theorem view_run {routines : List (Routine σ ε ρ)} (h : ∀ r ∈ routines, r.Fixes v) (x : σ) (fuel : Nat) :
    v ((start x routines).run fuel).shared = v x := by
  refine (Fixes.run (s := start x routines) (fun p hp => ?_) fuel).2
  obtain ⟨task, htask, rfl⟩ := List.mem_map.mp hp
  obtain ⟨r, hr, rfl⟩ := List.mem_map.mp htask
  exact h r hr

end Schedule

namespace Block

theorem Fixes.pure (b : β) : Fixes v (Pure.pure b : Block σ ε ρ β) := fun _ hk => hk b

theorem Fixes.bind {γ : Type} {b : Block σ ε ρ β} {f : β → Block σ ε ρ γ} (hb : Fixes v b)
    (hf : ∀ a, Fixes v (f a)) : Fixes v (b >>= f) := fun k hk => hb _ fun a => hf a k hk

theorem Fixes.stop (e : Stop ε) : Fixes v (stop e : Block σ ε ρ β) := fun _ _ => trivial

theorem Fixes.fail (e : ε) : Fixes v (fail e : Block σ ε ρ β) := fun _ _ => trivial

theorem Fixes.ofExcept (r : Except ε β) : Fixes v (ofExcept r : Block σ ε ρ β) := by
  cases r with
  | ok b => exact .pure b
  | error e => exact .fail e

theorem Fixes.look : Fixes v (look : Block σ ε ρ σ) := fun _ hk => hk

theorem Fixes.change {f : σ → σ} (hf : ∀ x, v (f x) = v x) : Fixes v (change f : Block σ ε ρ Unit) :=
  fun _ hk => ⟨hf, hk ()⟩

theorem Fixes.pause : Fixes v (pause : Block σ ε ρ Unit) := fun _ hk => hk ()

theorem Fixes.spawn {child : Routine σ ε ρ} (hchild : child.Fixes v) :
    Fixes v (spawn child : Block σ ε ρ Nat) := fun _ hk => ⟨hchild, hk⟩

theorem Fixes.await (t : Nat) : Fixes v (await t : Block σ ε ρ _) := fun _ hk => hk

theorem Fixes.follow (t : Nat) : Fixes v (follow t : Block σ ε ρ _) := fun _ hk => hk

theorem Fixes.spawnAll {routines : List (Routine σ ε ρ)} (h : ∀ r ∈ routines, r.Fixes v) :
    Fixes v (spawnAll routines : Block σ ε ρ (List Nat)) := by
  induction routines with
  | nil => exact .pure []
  | cons r routines ih =>
    obtain ⟨hr, hroutines⟩ := List.forall_mem_cons.mp h
    exact .bind (.spawn hr) fun t => .bind (ih hroutines) fun ts => .pure (t :: ts)

theorem Fixes.join {parts : List (Routine σ ε ρ)} (h : ∀ r ∈ parts, r.Fixes v) :
    Fixes v (join parts : Block σ ε ρ (List ρ)) := by
  refine .bind (.spawnAll h) fun ts => .bind (fun _ hk => hk) fun r => ?_
  cases r with
  | ok rs => exact .pure rs
  | error e =>
    refine .bind (fun _ hk => hk) fun r => ?_
    cases r with
    | ok _ => exact .stop e
    | error e => exact .stop e

end Block

end Polyglot.Loop
