import Polyglot.Proofs.Loop.Cancel

/-!
The operations of a task that runs keep the ticks in order, up to the one by which it ends or waits
again.
-/

namespace Polyglot.Loop.Schedule

variable {σ ε ρ : Type} {s s' : Schedule σ ε ρ} {busy : Option Nat}

theorem Tidy.changeShared (h : Tidy busy s) (x : σ) : Tidy busy { s with shared := x } := by
  apply h.mono
  · rfl
  · intro tick htick
    exact htick
  · intro g u
    rfl
  · intro u tick htick
    exact htick
  · intro g u v
    rfl
  · intro n c hc
    exact hc
  · rfl

theorem Tidy.enqueue (h : Tidy busy s) {ticks : List Tick}
    (hticks : ∀ g u, .member g u ∉ ticks) : Tidy busy (s.enqueue ticks) := by
  apply h.mono
  · rfl
  · intro tick htick
    exact List.mem_append_left _ htick
  · intro g u
    rw [queue_enqueue, List.count_append, List.count_eq_zero.mpr (hticks g u), Nat.add_zero]
  · intro u tick htick
    exact htick
  · intro g u v
    rfl
  · intro n c hc
    exact hc
  · rfl

theorem Tidy.wake (h : Tidy busy s) (t : Nat) : Tidy busy (s.enqueue [.wake t]) := by
  apply h.enqueue
  simp

@[simp]
theorem screens_listen (s : Schedule σ ε ρ) (u : Nat) (tick : Tick) :
    (s.listen u tick).screens = s.screens := by
  rw [listen]
  split <;> rfl

@[simp]
theorem groups_listen (s : Schedule σ ε ρ) (u : Nat) (tick : Tick) :
    (s.listen u tick).groups = s.groups := by
  rw [listen]
  split <;> rfl

@[simp]
theorem shared_listen (s : Schedule σ ε ρ) (u : Nat) (tick : Tick) :
    (s.listen u tick).shared = s.shared := by
  rw [listen]
  split <;> rfl

section Follow

variable (s : Schedule σ ε ρ) (u t : Nat) (tick : Tick) (p : Phase σ ε ρ)

theorem groups_follow :
    (((s.addScreen ⟨u, t, none⟩).listen u tick).setPhase t p).groups = s.groups :=
  groups_listen (s.addScreen ⟨u, t, none⟩) u tick

theorem screens_follow : (((s.addScreen ⟨u, t, none⟩).listen u tick).setPhase t p).screens =
    s.screens ++ [⟨u, t, none⟩] :=
  screens_listen (s.addScreen ⟨u, t, none⟩) u tick

theorem shared_await : ((s.listen u tick).setPhase t p).shared = s.shared :=
  shared_listen s u tick

theorem shared_follow :
    (((s.addScreen ⟨u, t, none⟩).listen u tick).setPhase t p).shared = s.shared :=
  shared_listen (s.addScreen ⟨u, t, none⟩) u tick

theorem phases_follow : (((s.addScreen ⟨u, t, none⟩).listen u tick).setPhase t p).phases =
    s.phases.set t p := by
  rw [phases_setPhase, phases_listen]
  rfl

end Follow

theorem Tidy.listen (h : Tidy busy s) (u : Nat) {tick : Tick} (htick : ∀ g v, tick ≠ .member g v) :
    Tidy busy (s.listen u tick) := by
  apply h.mono
  · exact phases_listen s u tick
  · intro other hother
    rw [queue_listen]
    split
    · exact List.mem_append_left _ hother
    · exact hother
  · intro g v
    rw [queue_listen]
    split
    · rw [List.count_append, List.count_singleton]
      simp [htick]
    · rfl
  · intro v other hother
    rw [listeners_listen]
    split
    · exact List.mem_append_left _ hother
    · exact hother
  · intro g w v
    rw [listeners_listen]
    split
    · rw [List.count_append, List.count_singleton]
      simp [htick]
    · rfl
  · intro n c hc
    rw [screens_listen]
    exact hc
  · exact groups_listen s u tick

theorem informed_listen {u : Nat} (hu : u < s.phases.length) (tick : Tick) :
    (s.listen u tick).Informed u tick := by
  rw [Informed, outcome?_listen, queue_listen, listeners_listen]
  cases ho : s.outcome? u <;> simp [hu]

theorem Tidy.cancels (h : Tidy busy s) (hc : Cancels s s') : Tidy busy s' := by
  obtain ⟨ts, hts⟩ := hc.queue
  have houtcome : s'.outcome? = s.outcome? := by
    funext t
    rw [outcome?_eq, outcome?_eq, hc.phases]
  have hcount (g u : Nat) : s'.queue.count (.member g u) = s.queue.count (.member g u) := by
    rw [hts, List.count_append, Nat.add_eq_left, List.count_eq_zero]
    simp
  have howed (g u : Nat) : s'.owed g u = s.owed g u := by
    rw [owed, owed, hcount, hc.listeners]
  have hinformed {u : Nat} {tick : Tick} (hu : s.Informed u tick) : s'.Informed u tick := by
    apply hu.mono houtcome hc.mem_queue
    rw [hc.listeners]
    exact id
  constructor
  · intro t p hp
    apply (h.owners t p (hc.phases ▸ hp)).mono
    · intro n c hn
      obtain ⟨c', hn', hlift⟩ := hc.screen_of_old hn
      refine ⟨c', hn', ?_⟩
      rcases hlift with rfl | ⟨_, rfl, _⟩ <;> rfl
    · intro g group hg
      obtain ⟨marked, hg'⟩ := hc.group_of_old hg
      exact ⟨_, hg', rfl, rfl⟩
  · intro t p ht hp
    have hr := h.roused t p ht (hc.phases ▸ hp)
    have hat (g : Nat) (h : ∃ group, s.groups[g]? = some group ∧
        (group.outcome.isSome → .wake t ∈ s.queue)) : ∃ group, s'.groups[g]? = some group ∧
        (group.outcome.isSome → .wake t ∈ s'.queue) := by
      obtain ⟨group, hg, hq⟩ := h
      obtain ⟨marked, hg'⟩ := hc.group_of_old hg
      exact ⟨_, hg', fun hsome => hc.mem_queue (hq hsome)⟩
    cases p with
    | ready next => exact hc.mem_queue hr
    | awaiting u next => exact hinformed hr
    | following n next =>
      obtain ⟨c, hn, hq⟩ := hr
      obtain ⟨c', hn', hlift⟩ := hc.screen_of_old hn
      refine ⟨c', hn', ?_⟩
      rcases hlift with rfl | ⟨_, rfl, v, next', hv, hwake⟩
      · split at hq
        · next hsome => simpa [hsome] using hc.mem_queue hq
        · next hnone => simpa [hnone] using hinformed hq
      -- a screen has one owner, so the task that was woken is this one
      · obtain ⟨c₁, hc₁, howner₁⟩ := h.owners t _ (hc.phases ▸ hp)
        obtain ⟨c₂, hc₂, howner₂⟩ := h.owners v _ hv
        obtain rfl : c₁ = c₂ := Option.some.inj (hc₁.symm.trans hc₂)
        obtain rfl : v = t := howner₂.symm.trans howner₁
        exact hwake
    | gathering g next => exact hat g hr
    | draining g next => exact hat g hr
    | ended r => trivial
  · intro g group' hg'
    obtain ⟨group, hg, heq⟩ := hc.group hg'
    obtain ⟨counted, hcounts⟩ := h.counts g group hg
    have hmono : Counts s' g group counted := by
      apply hcounts.mono (howed g)
      intro u r hr
      rw [houtcome, hr]
    rw [heq]
    exact ⟨counted, ⟨hmono.length, hmono.members, hmono.ended, hmono.fine, hmono.short⟩⟩
  · intro u g v hv
    exact h.homes u g v (hc.listeners ▸ hv)
  · intro g u hu
    rw [houtcome]
    apply h.arrived g u
    rw [← List.count_pos_iff, ← hcount, List.count_pos_iff]
    exact hu
  · intro g u hu
    have hlen : s'.groups.length = s.groups.length := by
      simpa using congrArg List.length hc.groups
    rw [hlen]
    exact h.known g u (howed g u ▸ hu)

theorem Tidy.spawn (h : Tidy busy s) (child : Routine σ ε ρ) :
    Tidy busy ((s.addTask ⟨.ready child, [], false⟩).enqueue [.wake s.tasks.length]) := by
  generalize hs' : (s.addTask ⟨.ready child, [], false⟩).enqueue [.wake s.tasks.length] = s'
  have hphases : s'.phases = s.phases ++ [.ready child] := by
    rw [← hs', phases_enqueue, phases_addTask]
  have houtcome : s'.outcome? = s.outcome? := by
    rw [← hs', outcome?_enqueue, outcome?_addTask]
    rfl
  have hlisteners : s'.listeners = s.listeners := by
    rw [← hs', listeners_enqueue, listeners_addTask]
    rfl
  have hqueue : s'.queue = s.queue ++ [.wake s.phases.length] := by
    rw [← hs', length_phases]
    rfl
  have hscreens : s'.screens = s.screens := by
    rw [← hs']
    rfl
  have hgroups : s'.groups = s.groups := by
    rw [← hs']
    rfl
  have hcount (g u : Nat) : s'.queue.count (.member g u) = s.queue.count (.member g u) := by
    rw [hqueue, List.count_append, Nat.add_eq_left, List.count_eq_zero]
    simp
  have howed (g u : Nat) : s'.owed g u = s.owed g u := by
    rw [owed, owed, hcount, hlisteners]
  have hphase {t : Nat} {p : Phase σ ε ρ} (hp : s'.phases[t]? = some p) :
      s.phases[t]? = some p ∨ (t = s.phases.length ∧ p = .ready child) := by
    rw [hphases, List.getElem?_append] at hp
    split at hp
    · exact .inl hp
    · next ht =>
      have hlt := (List.getElem?_eq_some_iff.mp hp).1
      simp only [List.length_singleton] at hlt
      obtain rfl : t = s.phases.length := by omega
      exact .inr ⟨rfl, by simpa using hp.symm⟩
  constructor
  · intro t p hp
    rcases hphase hp with hp | ⟨_, rfl⟩
    · apply (h.owners t p hp).mono
      · intro n c hc
        exact ⟨c, hscreens ▸ hc, rfl⟩
      · intro g group hg
        exact ⟨group, hgroups ▸ hg, rfl, rfl⟩
    · trivial
  · intro t p ht hp
    rcases hphase hp with hp | ⟨rfl, rfl⟩
    · apply (h.roused t p ht hp).mono
      · intro hwake
        rw [hqueue]
        exact List.mem_append_left _ hwake
      · intro u tick _ hu
        apply hu.mono houtcome
        · intro htick
          rw [hqueue]
          exact List.mem_append_left _ htick
        · rw [hlisteners]
          exact id
      · intro n c hc
        exact hscreens ▸ hc
      · intro g group hg
        exact ⟨group, hgroups ▸ hg, rfl⟩
    · rw [Roused, hqueue]
      simp
  · intro g group hg
    obtain ⟨counted, hcounts⟩ := h.counts g group (hgroups ▸ hg)
    refine ⟨counted, hcounts.mono (howed g) ?_⟩
    intro u r hr
    rw [houtcome, hr]
  · intro u g v hv
    exact h.homes u g v (hlisteners ▸ hv)
  · intro g u hu
    rw [houtcome]
    apply h.arrived g u
    rw [← List.count_pos_iff, ← hcount, List.count_pos_iff]
    exact hu
  · intro g u hu
    rw [hgroups]
    exact h.known g u (howed g u ▸ hu)

theorem Tidy.addScreen (h : Tidy busy s) (c : Screen ε ρ) : Tidy busy (s.addScreen c) := by
  apply h.mono
  · rfl
  · intro tick htick
    exact htick
  · intro g u
    rfl
  · intro u tick htick
    exact htick
  · intro g u v
    rfl
  · intro n c' hc'
    rw [Schedule.addScreen, List.getElem?_append_left (List.getElem?_eq_some_iff.mp hc').1]
    exact hc'
  · rfl

section Running

variable {t : Nat}

theorem Tidy.settle (h : Tidy (some t) s) (ht : s.Running t) {p : Phase σ ε ρ}
    (hp : p.isEnded = false) (howned : Owned s t p) (hroused : Roused s t p) :
    Tidy none (s.setPhase t p) := by
  have houtcome := outcome?_setPhase_of_running s t p ht hp
  have hlisteners := listeners_setPhase_of_running s t p ht hp
  have hphase {u : Nat} {q : Phase σ ε ρ} (hq : (s.setPhase t p).phases[u]? = some q) :
      (u = t ∧ q = p) ∨ (u ≠ t ∧ s.phases[u]? = some q) := by
    rw [phases_setPhase, List.getElem?_set] at hq
    by_cases hu : t = u
    · subst hu
      simp only [ht.1, ↓reduceIte, Option.some.injEq] at hq
      exact .inl ⟨rfl, hq.symm⟩
    · simp only [hu, ↓reduceIte] at hq
      exact .inr ⟨Ne.symm hu, hq⟩
  have howned' {u : Nat} {q : Phase σ ε ρ} (hq : Owned s u q) : Owned (s.setPhase t p) u q := by
    apply hq.mono
    · intro n c hc
      exact ⟨c, hc, rfl⟩
    · intro g group hg
      exact ⟨group, hg, rfl, rfl⟩
  have hroused' {u : Nat} {q : Phase σ ε ρ} (hq : Roused s u q) : Roused (s.setPhase t p) u q := by
    apply hq.mono
    · exact id
    · intro v tick _ hv
      apply hv.mono houtcome id
      rw [hlisteners]
      exact id
    · intro n c hc
      exact hc
    · intro g group hg
      exact ⟨group, hg, rfl⟩
  have howed (g u : Nat) : (s.setPhase t p).owed g u = s.owed g u := by
    rw [owed, owed, hlisteners]
    rfl
  constructor
  · intro u q hq
    rcases hphase hq with ⟨rfl, rfl⟩ | ⟨_, hq⟩
    · exact howned' howned
    · exact howned' (h.owners u q hq)
  · intro u q _ hq
    rcases hphase hq with ⟨rfl, rfl⟩ | ⟨hu, hq⟩
    · exact hroused' hroused
    · exact hroused' (h.roused u q (by simpa using Ne.symm hu) hq)
  · intro g group hg
    obtain ⟨counted, hcounts⟩ := h.counts g group hg
    refine ⟨counted, hcounts.mono (howed g) ?_⟩
    intro u r hr
    rw [houtcome, hr]
  · intro u g v hv
    exact h.homes u g v (hlisteners ▸ hv)
  · intro g u hu
    rw [houtcome]
    exact h.arrived g u hu
  · intro g u hu
    exact h.known g u (howed g u ▸ hu)

theorem Tidy.finish (h : Tidy (some t) s) (ht : s.Running t) (r : Except (Stop ε) ρ) :
    Tidy none (s.finish t r) := by
  have hphases : (s.finish t r).phases = s.phases.set t (.ended r) := phases_setPhase s t _
  have hqueue : (s.finish t r).queue = s.queue ++ s.listeners t := by
    obtain ⟨task, htask, hrun⟩ := ht.task
    simp [Schedule.finish, listeners, htask, Task.listeners, hrun]
    rfl
  have houtcome (u : Nat) :
      (s.finish t r).outcome? u = if t = u then some r else s.outcome? u := by
    rw [Schedule.finish, outcome?_enqueue, outcome?_setPhase]
    by_cases htu : t = u
    · subst htu
      simp [ht.1, Phase.outcome?]
    · simp [htu]
  have hlisteners (u : Nat) :
      (s.finish t r).listeners u = if t = u then [] else s.listeners u := by
    rw [Schedule.finish, listeners_enqueue, listeners_setPhase]
    rfl
  have howed (g u : Nat) : (s.finish t r).owed g u = s.owed g u := by
    rw [owed, owed, hqueue, hlisteners, List.count_append]
    split
    · next htu => simp [htu]
    · next htu =>
      have hno : (s.listeners t).count (.member g u) = 0 := by
        rw [List.count_eq_zero]
        intro hmem
        exact htu (h.homes t g u hmem).symm
      rw [hno, Nat.add_zero]
  have hkeep {u : Nat} {q : Except (Stop ε) ρ} (hu : s.outcome? u = some q) :
      (s.finish t r).outcome? u = some q := by
    have htu : t ≠ u := by
      intro htu
      rw [← htu, ht.2] at hu
      cases hu
    rw [houtcome, if_neg htu, hu]
  have hold {u : Nat} {p : Phase σ ε ρ} (htu : t ≠ u) (hp : (s.finish t r).phases[u]? = some p) :
      s.phases[u]? = some p := by
    rwa [hphases, List.getElem?_set_ne htu] at hp
  have hended {p : Phase σ ε ρ} (hp : (s.finish t r).phases[t]? = some p) : p = .ended r := by
    rw [hphases, List.getElem?_set_self ht.1] at hp
    exact (Option.some.inj hp).symm
  constructor
  · intro u p hp
    by_cases htu : t = u
    · subst htu
      rw [hended hp]
      trivial
    · apply (h.owners u p (hold htu hp)).mono
      · intro n c hc
        exact ⟨c, hc, rfl⟩
      · intro g group hg
        exact ⟨group, hg, rfl, rfl⟩
  · intro u p _ hp
    by_cases htu : t = u
    · subst htu
      rw [hended hp]
      trivial
    · apply (h.roused u p (by simpa using htu) (hold htu hp)).mono
      · intro hwake
        rw [hqueue]
        exact List.mem_append_left _ hwake
      · intro v tick _ hv
        rw [Informed, houtcome, hqueue, hlisteners]
        rw [Informed] at hv
        by_cases htv : t = v
        · subst htv
          simp only [ht.2, Option.isSome_none, Bool.false_eq_true, ↓reduceIte] at hv
          simp [hv]
        · simp only [htv, ↓reduceIte]
          split at hv
          · next hsome => simp [hsome, hv]
          · next hnone => simpa [hnone] using hv
      · intro n c hc
        exact hc
      · intro g group hg
        exact ⟨group, hg, rfl⟩
  · intro g group hg
    obtain ⟨counted, hcounts⟩ := h.counts g group hg
    exact ⟨counted, hcounts.mono (howed g) fun _ _ => hkeep⟩
  · intro u g v hv
    rw [hlisteners] at hv
    split at hv
    · cases hv
    · exact h.homes u g v hv
  · intro g u hu
    rw [hqueue, List.mem_append] at hu
    rw [houtcome]
    rcases hu with hu | hu
    · split
      · rfl
      · exact h.arrived g u hu
    · rw [if_pos (h.homes t g u hu).symm]
      rfl
  · intro g u hu
    exact h.known g u (howed g u ▸ hu)

theorem Tidy.await (h : Tidy (some t) s) (ht : s.Running t) {u : Nat} (hu : u < s.phases.length)
    (next : Except (Stop ε) ρ → Routine σ ε ρ) :
    Tidy none ((s.listen u (.wake t)).setPhase t (.awaiting u next)) := by
  apply (h.listen u (by simp)).settle
  · simpa [Running] using ht
  · rfl
  · trivial
  · exact informed_listen hu _

theorem Tidy.follow (h : Tidy (some t) s) (ht : s.Running t) {u : Nat} (hu : u < s.phases.length)
    (next : Except (Stop ε) ρ → Routine σ ε ρ) :
    Tidy none (((s.addScreen ⟨u, t, none⟩).listen u (.relay s.screens.length)).setPhase t
      (.following s.screens.length next)) := by
  have hn : ((s.addScreen ⟨u, t, none⟩).listen u (.relay s.screens.length)).screens[s.screens.length]?
      = some ⟨u, t, none⟩ := by
    simp [Schedule.addScreen]
  apply ((h.addScreen ⟨u, t, none⟩).listen u (by simp)).settle
  · rw [Running, phases_listen, outcome?_listen]
    exact ht
  · rfl
  · exact ⟨_, hn, rfl⟩
  · refine ⟨_, hn, ?_⟩
    exact informed_listen (s := s.addScreen ⟨u, t, none⟩) hu _

end Running

end Polyglot.Loop.Schedule
