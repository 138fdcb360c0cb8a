import Polyglot.Proofs.Loop.Upkeep

/-!
Tasks that run while nothing else in their loop does. Such a task can be followed tick by tick: a block
hands on a value or stops, in a state that can be told in advance.
-/

namespace Polyglot.Loop

variable {σ ε ρ α β : Type}

namespace Schedule

variable {s s' s'' : Schedule σ ε ρ} {t u : Nat}

theorem run_of_rest (hrest : s.queue = []) (n : Nat) : s.run n = s := by
  cases n with
  | zero => rfl
  | succ n => rw [run, hrest]

theorem run_add (s : Schedule σ ε ρ) (n k : Nat) : s.run (n + k) = (s.run n).run k := by
  induction n generalizing s with
  | zero => rw [Nat.zero_add, run]
  | succ n ih =>
    rw [Nat.succ_add, run, run]
    split
    · next hrest => rw [run_of_rest hrest]
    · exact ih _

/--
A schedule comes to another one when ticks are fired in the order of its queue.
-/
def Leads (s s' : Schedule σ ε ρ) : Prop := ∃ n, s.run n = s'

theorem Leads.refl (s : Schedule σ ε ρ) : Leads s s := ⟨0, rfl⟩

theorem Leads.trans (h : Leads s s') (h' : Leads s' s'') : Leads s s'' := by
  obtain ⟨n, rfl⟩ := h
  obtain ⟨k, rfl⟩ := h'
  exact ⟨n + k, run_add s n k⟩

theorem leads_wake {p : Phase σ ε ρ} {waiters : List Tick} {next : Routine σ ε ρ}
    (hqueue : s.queue = [.wake t]) (htask : s.tasks[t]? = some ⟨p, waiters, false⟩)
    (hp : { s with queue := [] }.hears false p = some next) :
    Leads s ({ s with queue := [] }.exec t next) := by
  have hsame : ({ s with queue := [] } : Schedule σ ε ρ).updateTask t
      (fun task => { task with cancelled := false }) = { s with queue := [] } := by
    have htasks : s.tasks.modify t (fun task => { task with cancelled := false }) = s.tasks := by
      apply List.ext_getElem?
      intro u
      rw [List.getElem?_modify]
      split
      · next h =>
        rw [← h, htask]
        rfl
      · exact id_map _
    rw [updateTask, htasks]
  refine ⟨1, ?_⟩
  rw [run, hqueue]
  change ({ s with queue := [] } : Schedule σ ε ρ).wake t = _
  rw [wake_eq (s := { s with queue := [] }) htask]
  dsimp only
  rw [hsame, hp]

/--
All that has happened from a schedule to a later one is that task `t` ran and others that it started.
The task goes on, nobody has cancelled it, and no tick waits.
-/
structure Solo (t : Nat) (s s' : Schedule σ ε ρ) : Prop where
  rest : s'.queue = []
  own : ∃ p p' waiters, s.tasks[t]? = some ⟨p, waiters, false⟩ ∧
    s'.tasks[t]? = some ⟨p', waiters, false⟩
  others : ∀ u task, u ≠ t → s.tasks[u]? = some task → s'.tasks[u]? = some task

theorem Solo.trans (h : Solo t s s') (h' : Solo t s' s'') : Solo t s s'' := by
  obtain ⟨p, p', waiters, hp, hp'⟩ := h.own
  obtain ⟨_, p'', _, heq, hp''⟩ := h'.own
  obtain ⟨⟩ := Option.some.inj (hp'.symm.trans heq)
  exact ⟨h'.rest, ⟨p, p'', waiters, hp, hp''⟩,
    fun u task hu htask => h'.others u task hu (h.others u task hu htask)⟩

theorem Solo.refl_right (h : Solo t s s') : Solo t s' s' := by
  obtain ⟨_, p', waiters, _, hp'⟩ := h.own
  exact ⟨h.rest, ⟨p', p', waiters, hp', hp'⟩, fun _ _ _ h => h⟩

theorem Solo.changeShared (h : Solo t s s') (x : σ) : Solo t s { s' with shared := x } :=
  ⟨h.rest, h.own, h.others⟩

theorem Solo.pause (h : Solo t s s) (next : Routine σ ε ρ) :
    ∃ s', Solo t s s' ∧ s'.shared = s.shared ∧ Leads (s.exec t (.pause next)) (s'.exec t next) := by
  obtain ⟨p, _, waiters, hp, _⟩ := h.own
  have htask (u : Nat) : (s.exec t (.pause next)).tasks[u]? =
      if t = u then some ⟨.ready next, waiters, false⟩ else s.tasks[u]? := by
    change (s.setPhase t (.ready next)).tasks[u]? = _
    rw [setPhase, tasks_updateTask]
    split
    · next h =>
      rw [← h, hp]
      rfl
    · rfl
  have hqueue : (s.exec t (.pause next)).queue = [.wake t] := congrArg (· ++ [Tick.wake t]) h.rest
  have hown := (htask t).trans (if_pos rfl)
  refine ⟨{ s.exec t (.pause next) with queue := [] }, ⟨rfl, ⟨p, .ready next, waiters, hp, hown⟩, ?_⟩, rfl,
    leads_wake hqueue hown rfl⟩
  intro u task hu hut
  exact ((htask u).trans (if_neg (Ne.symm hu))).trans hut

/--
Alone in its loop, a routine that starts in state `x` comes to an end.
-/
def Ends (r : Routine σ ε ρ) (x : σ) (post : Except (Stop ε) ρ → σ → Prop) : Prop :=
  ∀ (s : Schedule σ ε ρ) t, Solo t s s → s.shared = x → ∃ o s', post o s'.shared ∧ Solo t s s' ∧
    Leads (s.exec t r) (s'.finish t o)

theorem Solo.ask {p : Phase σ ε ρ} {waiters : List Tick} (hrest : s.queue = [])
    (hp : s.tasks[t]? = some ⟨p, waiters, false⟩) (child : Routine σ ε ρ) (x : σ)
    (next : Except (Stop ε) ρ → Routine σ ε ρ) :
    ∃ z, z = { (s.addTask ⟨.ready child, [], false⟩).enqueue [.wake s.tasks.length] with
        shared := x }.exec t (.await s.tasks.length next) ∧
      z.queue = [.wake s.tasks.length] ∧ z.shared = x ∧
      z.tasks[s.tasks.length]? = some ⟨.ready child, [.wake t], false⟩ ∧
      z.tasks[t]? = some ⟨.awaiting s.tasks.length next, waiters, false⟩ ∧
      ∀ u task, u ≠ t → s.tasks[u]? = some task → z.tasks[u]? = some task := by
  have ht : t < s.tasks.length := (List.getElem?_eq_some_iff.mp hp).1
  obtain ⟨n, hn⟩ : ∃ n, n = s.tasks.length := ⟨_, rfl⟩
  rw [← hn]
  have htn : t ≠ n := by omega
  obtain ⟨y, hy⟩ : ∃ y : Schedule σ ε ρ,
      y = { (s.addTask ⟨.ready child, [], false⟩).enqueue [.wake n] with shared := x } := ⟨_, rfl⟩
  have hnew : y.tasks[n]? = some ⟨.ready child, [], false⟩ := by
    rw [hy, hn]
    exact List.getElem?_concat_length
  have hold {u : Nat} (hu : u < s.tasks.length) : y.tasks[u]? = s.tasks[u]? := by
    rw [hy]
    exact List.getElem?_append_left hu
  have hexec : y.exec t (.await n next) = (y.updateTask n fun task =>
      { task with waiters := task.waiters ++ [.wake t] }).setPhase t (.awaiting n next) := by
    rw [exec, listen, outcome?, hnew]
  rw [← hy, hexec]
  refine ⟨_, rfl, ?_, ?_, ?_, ?_, ?_⟩
  · rw [hy]
    exact congrArg (· ++ [Tick.wake n]) hrest
  · rw [hy]
    rfl
  · rw [setPhase, tasks_updateTask, if_neg htn, tasks_updateTask, if_pos rfl, hnew]
    rfl
  · rw [setPhase, tasks_updateTask, if_pos rfl, tasks_updateTask, if_neg (Ne.symm htn), hold ht, hp]
    rfl
  · intro u task hu hut
    have hlt : u < s.tasks.length := (List.getElem?_eq_some_iff.mp hut).1
    rw [setPhase, tasks_updateTask, if_neg (Ne.symm hu), tasks_updateTask, if_neg (by omega), hold hlt, hut]

theorem leads_finish {n : Nat} {p : Phase σ ε ρ} {waiters : List Tick}
    {next : Except (Stop ε) ρ → Routine σ ε ρ} (htn : t ≠ n) (hrest : s.queue = [])
    (hn : s.tasks[n]? = some ⟨p, [.wake t], false⟩)
    (ht : s.tasks[t]? = some ⟨.awaiting n next, waiters, false⟩) (o : Except (Stop ε) ρ) :
    Leads (s.finish n o) ((s.setPhase n (.ended o)).exec t (next o)) := by
  have hfinish : s.finish n o = { s.setPhase n (.ended o) with queue := [.wake t] } := by
    rw [finish, hn, enqueue]
    exact congrArg (fun queue => { s.setPhase n (.ended o) with queue := queue ++ [Tick.wake t] }) hrest
  have hbare : ({ s.finish n o with queue := [] } : Schedule σ ε ρ) = s.setPhase n (.ended o) := by
    rw [hfinish, ← hrest]
    rfl
  have htask : (s.finish n o).tasks[t]? = some ⟨.awaiting n next, waiters, false⟩ := by
    rw [hfinish]
    change (s.setPhase n (.ended o)).tasks[t]? = _
    rw [setPhase, tasks_updateTask, if_neg (Ne.symm htn), ht]
  have hheard : (s.setPhase n (.ended o)).hears false (.awaiting n next) = some (next o) := by
    change ((s.setPhase n (.ended o)).outcome? n).map next = _
    rw [outcome?, setPhase, tasks_updateTask, if_pos rfl, hn]
    rfl
  have hleads := leads_wake (by rw [hfinish]) htask (hbare ▸ hheard)
  rwa [hbare] at hleads

theorem Ends.weaken {r : Routine σ ε ρ} {x : σ} {post post' : Except (Stop ε) ρ → σ → Prop}
    (h : Ends r x post) (hpost : ∀ o x', post o x' → post' o x') : Ends r x post' := by
  intro s t hs hx
  obtain ⟨o, s', ho, hrest⟩ := h s t hs hx
  exact ⟨o, s', hpost _ _ ho, hrest⟩

theorem Solo.call (h : Solo t s s) {child : Routine σ ε ρ} {x : σ}
    {post : Except (Stop ε) ρ → σ → Prop} (hchild : Ends child x post)
    (next : Except (Stop ε) ρ → Routine σ ε ρ) :
    ∃ o s', post o s'.shared ∧ Solo t s s' ∧ Leads
      ({ (s.addTask ⟨.ready child, [], false⟩).enqueue [.wake s.tasks.length] with shared := x }.exec t
        (.await s.tasks.length next)) (s'.exec t (next o)) := by
  obtain ⟨p, _, waiters, hp, _⟩ := h.own
  have htn : t ≠ s.tasks.length := Nat.ne_of_lt (List.getElem?_eq_some_iff.mp hp).1
  obtain ⟨z, hz, hqueue, hshared, hnew, htask, hothers⟩ := Solo.ask h.rest hp child x next
  have hsolo : Solo s.tasks.length { z with queue := [] } { z with queue := [] } :=
    ⟨rfl, ⟨_, _, _, hnew, hnew⟩, fun _ _ _ h => h⟩
  obtain ⟨o, s₁, hpost, hrun, hleads⟩ := hchild _ _ hsolo hshared
  obtain ⟨_, p₁, _, hold, hnew₁⟩ := hrun.own
  obtain ⟨⟩ := Option.some.inj (hnew.symm.trans hold)
  have htask₁ := hrun.others t _ htn htask
  have hstays {u : Nat} (hu : u ≠ s.tasks.length) :
      (s₁.setPhase s.tasks.length (.ended o)).tasks[u]? = s₁.tasks[u]? := by
    rw [setPhase, tasks_updateTask, if_neg (Ne.symm hu)]
  refine ⟨o, s₁.setPhase s.tasks.length (.ended o), hpost, ⟨hrun.rest, ?_, ?_⟩, ?_⟩
  · exact ⟨p, .awaiting s.tasks.length next, waiters, hp, (hstays htn).trans htask₁⟩
  · intro u task hu hut
    have hun : u ≠ s.tasks.length := Nat.ne_of_lt (List.getElem?_eq_some_iff.mp hut).1
    exact (hstays hun).trans (hrun.others u task hun (hothers u task hu hut))
  · rw [← hz]
    apply (leads_wake hqueue hnew rfl).trans
    exact hleads.trans (leads_finish htn hrun.rest hnew₁ htask₁ o)

end Schedule

namespace Block

open Schedule

variable {b : Block σ ε ρ α} {x : σ} {post : Except (Stop ε) α → σ → Prop}

def goOn (k : α → Routine σ ε ρ) : Except (Stop ε) α → Routine σ ε ρ
  | .ok a => k a
  | .error e => .finish (.error e)

def Gets (b : Block σ ε ρ α) (x : σ) (post : Except (Stop ε) α → σ → Prop) : Prop :=
  ∀ (s : Schedule σ ε ρ) t k, Solo t s s → s.shared = x → ∃ o s', post o s'.shared ∧ Solo t s s' ∧
    Leads (s.exec t (b k)) (s'.exec t (goOn k o))

theorem Gets.weaken {post' : Except (Stop ε) α → σ → Prop} (h : Gets b x post)
    (hpost : ∀ o x', post o x' → post' o x') : Gets b x post' := by
  intro s t k hs hx
  obtain ⟨o, s', ho, hrest⟩ := h s t k hs hx
  exact ⟨o, s', hpost _ _ ho, hrest⟩

theorem Gets.pure {a : α} (h : post (.ok a) x) : Gets (pure a : Block σ ε ρ α) x post := by
  rintro s t k hs rfl
  exact ⟨.ok a, s, h, hs, .refl _⟩

theorem Gets.stop {e : Stop ε} (h : post (.error e) x) : Gets (stop e : Block σ ε ρ α) x post := by
  rintro s t k hs rfl
  exact ⟨.error e, s, h, hs, .refl _⟩

theorem Gets.ofExcept_bind {r : Except ε β} {f : β → Block σ ε ρ α}
    (hok : ∀ a, r = .ok a → Gets (f a) x post) (herror : ∀ e, r = .error e → post (.error (.failed e)) x) :
    Gets (Block.ofExcept r >>= f) x post := by
  cases r with
  | ok a => exact hok a rfl
  | error e =>
    rintro s t k hs rfl
    exact ⟨.error (.failed e), s, herror e rfl, hs, .refl _⟩

theorem Gets.bind {mid : Except (Stop ε) α → σ → Prop} {f : α → Block σ ε ρ β}
    {post : Except (Stop ε) β → σ → Prop} (h : Gets b x mid)
    (hok : ∀ a x', mid (.ok a) x' → Gets (f a) x' post)
    (herror : ∀ e x', mid (.error e) x' → post (.error e) x') : Gets (b >>= f) x post := by
  intro s t k hs hx
  obtain ⟨o, s', hmid, hs', hleads⟩ := h s t (fun a => f a k) hs hx
  cases o with
  | ok a =>
    obtain ⟨o', s'', hpost, hs'', hleads'⟩ := hok a _ hmid s' t k hs'.refl_right rfl
    exact ⟨o', s'', hpost, hs'.trans hs'', hleads.trans hleads'⟩
  | error e => exact ⟨.error e, s', herror e _ hmid, hs', hleads⟩

theorem Gets.look {f : σ → Block σ ε ρ α} (h : Gets (f x) x post) : Gets (look >>= f) x post := by
  rintro s t k hs rfl
  exact h s t k hs rfl

theorem Gets.change {g : σ → σ} {post : Except (Stop ε) Unit → σ → Prop} (h : post (.ok ()) (g x)) :
    Gets (change g : Block σ ε ρ Unit) x post := by
  rintro s t k hs rfl
  exact ⟨.ok (), { s with shared := g s.shared }, h, hs.changeShared _, .refl _⟩

theorem Gets.change_bind {g : σ → σ} {f : Unit → Block σ ε ρ α} (h : Gets (f ()) (g x) post) :
    Gets (Block.change g >>= f) x post := by
  rintro s t k hs rfl
  obtain ⟨o, s', hpost, hs', hleads⟩ := h { s with shared := g s.shared } t k (hs.changeShared _).refl_right rfl
  exact ⟨o, s', hpost, ⟨hs'.rest, hs'.own, hs'.others⟩, hleads⟩

theorem Gets.pause_bind {f : Unit → Block σ ε ρ α} (h : Gets (f ()) x post) :
    Gets (Block.pause >>= f) x post := by
  rintro s t k hs rfl
  obtain ⟨s', hs', hshared, hleads⟩ := hs.pause (f () k)
  obtain ⟨o, s'', hpost, hs'', hleads'⟩ := h s' t k hs'.refl_right hshared
  exact ⟨o, s'', hpost, hs'.trans hs'', hleads.trans hleads'⟩

theorem Gets.call {child : Routine σ ε ρ} {post : Except (Stop ε) ρ → σ → Prop}
    (h : Ends child x post) : Gets (do
      let u ← spawn child
      await u) x fun o x' => ∃ r, o = .ok r ∧ post r x' := by
  rintro s t k hs rfl
  obtain ⟨r, s', hpost, hs', hleads⟩ := hs.call h k
  exact ⟨.ok r, s', ⟨r, rfl, hpost⟩, hs', hleads⟩

theorem Gets.callNoted {child : Routine σ ε ρ} {g : Nat → σ → σ}
    {post : Except (Stop ε) ρ → σ → Prop} (h : ∀ u, Ends child (g u x) post) : Gets (do
      let u ← spawn child
      Block.change (g u)
      await u) x fun o x' => ∃ r, o = .ok r ∧ post r x' := by
  rintro s t k hs rfl
  obtain ⟨r, s', hpost, hs', hleads⟩ := hs.call (h s.tasks.length) k
  exact ⟨.ok r, s', ⟨r, rfl, hpost⟩, hs', hleads⟩

theorem Gets.ends {f : α → ρ} (h : Gets b x post) :
    Ends (b fun a => .finish (.ok (f a))) x fun o x' => ∃ o', post o' x' ∧ o = o'.map f := by
  intro s t hs hx
  obtain ⟨o, s', hpost, hs', hleads⟩ := h s t (fun a => .finish (.ok (f a))) hs hx
  refine ⟨o.map f, s', ⟨o, hpost, rfl⟩, hs', ?_⟩
  cases o with
  | ok a => exact hleads
  | error e => exact hleads

end Block

namespace Schedule

theorem Ends.start {r : Routine σ ε ρ} {x : σ} {post : Except (Stop ε) ρ → σ → Prop}
    (h : Ends r x post) : ∃ o n, ((Schedule.start x [r]).run n).outcome? 0 = some o ∧
      ((Schedule.start x [r]).run n).queue = [] ∧ post o ((Schedule.start x [r]).run n).shared := by
  have hsolo : Solo 0 { Schedule.start x [r] with queue := [] }
      { Schedule.start x [r] with queue := [] } :=
    ⟨rfl, ⟨_, _, _, rfl, rfl⟩, fun _ _ _ h => h⟩
  obtain ⟨o, s', hpost, hs', hleads⟩ := h _ 0 hsolo rfl
  obtain ⟨p, p', waiters, hfirst, htask⟩ := hs'.own
  have hnobody : some (⟨.ready r, [], false⟩ : Task σ ε ρ) = some ⟨p, waiters, false⟩ := hfirst
  obtain ⟨⟩ := Option.some.inj hnobody
  obtain ⟨n, hn⟩ := (leads_wake (s := Schedule.start x [r]) (t := 0) rfl rfl rfl).trans hleads
  refine ⟨o, n, ?_, ?_, ?_⟩
  · rw [hn, finish, outcome?_enqueue, outcome?, setPhase, tasks_updateTask, if_pos rfl, htask]
    rfl
  · rw [hn, finish, htask, queue_enqueue]
    exact congrArg (· ++ []) hs'.rest
  · rw [hn]
    exact hpost

end Schedule

end Polyglot.Loop
