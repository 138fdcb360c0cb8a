import Polyglot.Proofs.Loop.View

/-!
What cancelling does to a schedule: it leaves marks on tasks and groups, and lifts the screens before
tasks that follow others, which are woken. No task does anything meanwhile.
-/

namespace Polyglot.Loop

variable {σ ε ρ : Type}

def Group.unmarked (g : Group ε ρ) : Group ε ρ := { g with cancelled := false }

theorem Group.eq_of_unmarked_eq {g g' : Group ε ρ} (h : g'.unmarked = g.unmarked) :
    g' = { g with cancelled := g'.cancelled } := by
  cases g
  cases g'
  simp_all [unmarked]

namespace Schedule

def Lifts (s s' : Schedule σ ε ρ) (n : Nat) (c c' : Screen ε ρ) : Prop :=
  c' = c ∨
    (c.outcome = none ∧ c' = { c with outcome := some (.error .cancelled) } ∧
      ∃ t next, s.phases[t]? = some (.following n next) ∧ .wake t ∈ s'.queue)

/--
One schedule is another one after some of its tasks have been cancelled.
-/
structure Cancels (s s' : Schedule σ ε ρ) : Prop where
  shared : s'.shared = s.shared
  phases : s'.phases = s.phases
  listeners : s'.listeners = s.listeners
  groups : s'.groups.map Group.unmarked = s.groups.map Group.unmarked
  length : s'.screens.length = s.screens.length
  screens : ∀ n c', s'.screens[n]? = some c' → ∃ c, s.screens[n]? = some c ∧ Lifts s s' n c c'
  queue : ∃ ts : List Nat, s'.queue = s.queue ++ ts.map .wake

namespace Cancels

variable {s s' s'' : Schedule σ ε ρ}

theorem refl (s : Schedule σ ε ρ) : Cancels s s where
  shared := rfl
  phases := rfl
  listeners := rfl
  groups := rfl
  length := rfl
  screens := by
    intro n c h
    exact ⟨c, h, .inl rfl⟩
  queue := ⟨[], by simp⟩

theorem mem_queue (h : Cancels s s') {tick : Tick} (ht : tick ∈ s.queue) : tick ∈ s'.queue := by
  obtain ⟨ts, hts⟩ := h.queue
  rw [hts]
  exact List.mem_append_left _ ht

theorem trans (h : Cancels s s') (h' : Cancels s' s'') : Cancels s s'' where
  shared := h'.shared.trans h.shared
  phases := h'.phases.trans h.phases
  listeners := h'.listeners.trans h.listeners
  groups := h'.groups.trans h.groups
  length := h'.length.trans h.length
  screens := by
    intro n c'' hc''
    obtain ⟨c', hc', hlift'⟩ := h'.screens n c'' hc''
    obtain ⟨c, hc, hlift⟩ := h.screens n c' hc'
    refine ⟨c, hc, ?_⟩
    rcases hlift' with rfl | ⟨hnone, rfl, t, next, ht, hwake⟩
    · rcases hlift with rfl | ⟨hnone, rfl, t, next, ht, hwake⟩
      · exact .inl rfl
      · exact .inr ⟨hnone, rfl, t, next, ht, h'.mem_queue hwake⟩
    · rcases hlift with rfl | ⟨_, rfl, _⟩
      · exact .inr ⟨hnone, rfl, t, next, h.phases ▸ ht, hwake⟩
      · cases hnone
  queue := by
    obtain ⟨ts, hts⟩ := h.queue
    obtain ⟨ts', hts'⟩ := h'.queue
    exact ⟨ts ++ ts', by rw [hts', hts, List.map_append, List.append_assoc]⟩

theorem markCancelled (h : Cancels s s') (t : Nat) : Cancels s (s'.markCancelled t) := by
  apply h.trans
  exact {
    shared := rfl
    phases := phases_markCancelled s' t
    listeners := listeners_markCancelled s' t
    groups := rfl
    length := rfl
    screens := fun n c hc => ⟨c, hc, .inl rfl⟩
    queue := ⟨[], by simp [Schedule.markCancelled, updateTask]⟩ }

theorem clear (s : Schedule σ ε ρ) (t : Nat) :
    Cancels s (s.updateTask t fun task => { task with cancelled := false }) where
  shared := rfl
  phases := phases_updateTask s t _ fun _ => rfl
  listeners := listeners_updateTask s t _ (fun _ => rfl) fun _ => rfl
  groups := rfl
  length := rfl
  screens := fun n c hc => ⟨c, hc, .inl rfl⟩
  queue := ⟨[], by simp [updateTask]⟩

theorem running (h : Cancels s s') {t : Nat} (ht : s.Running t) : s'.Running t := by
  rw [Running, outcome?_eq, h.phases, ← outcome?_eq]
  exact ht

theorem markGroup (h : Cancels s s') (g : Nat) :
    Cancels s (s'.updateGroup g fun group => { group with cancelled := true }) := by
  apply h.trans
  refine {
    shared := rfl
    phases := rfl
    listeners := rfl
    groups := ?_
    length := rfl
    screens := fun n c hc => ⟨c, hc, .inl rfl⟩
    queue := ⟨[], by simp [updateGroup]⟩ }
  apply List.ext_getElem?
  intro i
  rw [updateGroup, List.getElem?_map, List.getElem?_map, List.getElem?_modify]
  split
  · cases s'.groups[i]? <;> rfl
  · cases s'.groups[i]? <;> rfl

theorem lift {t n u owner : Nat} {next : Except (Stop ε) ρ → Routine σ ε ρ}
    (ht : s.phases[t]? = some (.following n next)) (hn : s.screens[n]? = some ⟨u, owner, none⟩) :
    Cancels s ((s.setScreen n (.error .cancelled)).enqueue [.wake t]) where
  shared := rfl
  phases := rfl
  listeners := rfl
  groups := rfl
  length := by simp [enqueue, setScreen]
  screens := by
    intro i c' hc'
    simp only [enqueue, setScreen, List.getElem?_modify] at hc'
    by_cases hi : n = i
    · subst hi
      refine ⟨_, hn, .inr ⟨rfl, ?_, t, next, ht, ?_⟩⟩
      · simpa [hn] using hc'.symm
      · simp
    · exact ⟨c', by simpa [hi] using hc', .inl rfl⟩
  queue := ⟨[t], rfl⟩

theorem group (h : Cancels s s') {g : Nat} {group' : Group ε ρ} (hg : s'.groups[g]? = some group') :
    ∃ group, s.groups[g]? = some group ∧ group' = { group with cancelled := group'.cancelled } := by
  have hmap : (s'.groups[g]?).map Group.unmarked = (s.groups[g]?).map Group.unmarked := by
    rw [← List.getElem?_map, ← List.getElem?_map, h.groups]
  rw [hg] at hmap
  obtain ⟨group, hgroup, heq⟩ := Option.map_eq_some_iff.mp hmap.symm
  exact ⟨group, hgroup, Group.eq_of_unmarked_eq heq.symm⟩

theorem group_of_old (h : Cancels s s') {g : Nat} {group : Group ε ρ}
    (hg : s.groups[g]? = some group) :
    ∃ marked, s'.groups[g]? = some { group with cancelled := marked } := by
  have hlen : s'.groups.length = s.groups.length := by
    simpa using congrArg List.length h.groups
  have hlt : g < s'.groups.length := hlen ▸ (List.getElem?_eq_some_iff.mp hg).1
  obtain ⟨old, hold, heq⟩ := h.group (List.getElem?_eq_getElem hlt)
  obtain rfl : old = group := Option.some.inj (hold.symm.trans hg)
  exact ⟨_, heq ▸ List.getElem?_eq_getElem hlt⟩

theorem screen_of_old (h : Cancels s s') {n : Nat} {c : Screen ε ρ} (hn : s.screens[n]? = some c) :
    ∃ c', s'.screens[n]? = some c' ∧ Lifts s s' n c c' := by
  have hlt : n < s'.screens.length := h.length ▸ (List.getElem?_eq_some_iff.mp hn).1
  obtain ⟨old, hold, hlift⟩ := h.screens n _ (List.getElem?_eq_getElem hlt)
  obtain rfl : old = c := Option.some.inj (hold.symm.trans hn)
  exact ⟨_, List.getElem?_eq_getElem hlt, hlift⟩

theorem foldl {α : Type} (f : Schedule σ ε ρ → α → Schedule σ ε ρ)
    (hf : ∀ s a, Cancels s (f s a)) (as : List α) (s : Schedule σ ε ρ) :
    Cancels s (as.foldl f s) := by
  induction as generalizing s with
  | nil => exact refl s
  | cons a as ih => exact (hf s a).trans (ih (f s a))

end Cancels

theorem cancels_cancel (fuel : Nat) (s : Schedule σ ε ρ) (t : Nat) :
    Cancels s (cancel fuel s t).1 := by
  induction fuel generalizing s t with
  | zero => exact .refl s
  | succ fuel ih =>
    have hmark : Cancels s (s.markCancelled t) := (Cancels.refl s).markCancelled t
    have hmembers (us : List Nat) (any : Bool) : ∀ s : Schedule σ ε ρ, Cancels s
        (us.foldl (fun p u => ((cancel fuel p.1 u).1, p.2 || (cancel fuel p.1 u).2)) (s, any)).1 := by
      induction us generalizing any with
      | nil => exact Cancels.refl
      | cons u us ihu => exact fun s => (ih s u).trans (ihu _ _)
    rw [cancel]
    split
    · exact .refl s
    · next task htask =>
      have hphase : s.phases[t]? = some task.phase := by simp [phases_getElem?, htask]
      split
      · exact .refl s
      · exact hmark
      · next u _ _ =>
        have hu := ih s u
        generalize cancel fuel s u = cancelled at hu ⊢
        obtain ⟨s', done⟩ := cancelled
        cases done
        · exact hu.markCancelled t
        · exact hu
      · next n next hfollow =>
        split
        · next u owner hn => exact .lift (hfollow ▸ hphase) hn
        · exact hmark
      all_goals
        dsimp only
        split
        · next members _ _ _ _ _ =>
          have hm := hmembers members false s
          generalize members.foldl _ (s, false) = folded at hm ⊢
          obtain ⟨s', any⟩ := folded
          cases any
          · exact hm.markCancelled t
          · exact hm.markGroup _
        · exact hmark

theorem cancels_cancelAll (s : Schedule σ ε ρ) (ts : List Nat) : Cancels s (s.cancelAll ts) := by
  rw [cancelAll]
  exact Cancels.foldl _ (fun s t => cancels_cancel s.tasks.length s t) ts s

end Schedule

end Polyglot.Loop

/-!
The ticks of a schedule: whoever waits will be told. Every task that has not ended has its tick in
the queue, or one that leads to it among the listeners of what it waits for, and a group has as many
member ticks before it as it has members that it has not counted yet.
-/

namespace Polyglot.Loop

variable {σ ε ρ : Type}

namespace Schedule

/--
A tick that the end of a task sets off is in the queue if the task has ended, and is waiting for it
otherwise.
-/
def Informed (s : Schedule σ ε ρ) (u : Nat) (tick : Tick) : Prop :=
  if (s.outcome? u).isSome then tick ∈ s.queue else tick ∈ s.listeners u

def Owned (s : Schedule σ ε ρ) (t : Nat) : Phase σ ε ρ → Prop
  | .following n _ => ∃ screen, s.screens[n]? = some screen ∧ screen.owner = t
  | .gathering g _ => ∃ group, s.groups[g]? = some group ∧ group.owner = t ∧ group.drains = false
  | .draining g _ => ∃ group, s.groups[g]? = some group ∧ group.owner = t ∧ group.drains = true
  | _ => True

def Roused (s : Schedule σ ε ρ) (t : Nat) : Phase σ ε ρ → Prop
  | .ready _ => .wake t ∈ s.queue
  | .awaiting u _ => s.Informed u (.wake t)
  | .following n _ => ∃ screen, s.screens[n]? = some screen ∧
      if screen.outcome.isSome then .wake t ∈ s.queue else s.Informed screen.task (.relay n)
  | .gathering g _ => ∃ group, s.groups[g]? = some group ∧
      (group.outcome.isSome → .wake t ∈ s.queue)
  | .draining g _ => ∃ group, s.groups[g]? = some group ∧
      (group.outcome.isSome → .wake t ∈ s.queue)
  | .ended _ => True

def owed (s : Schedule σ ε ρ) (g u : Nat) : Nat :=
  s.queue.count (.member g u) + (s.listeners u).count (.member g u)

/--
A group has counted some of its members, which have ended, and is owed ticks by the others. One that
minds failures has met none among them as long as nothing is settled.
-/
structure Counts (s : Schedule σ ε ρ) (g : Nat) (group : Group ε ρ) (counted : List Nat) : Prop where
  length : counted.length = group.ended
  members : ∀ u, s.owed g u + counted.count u = group.members.count u
  ended : ∀ u ∈ counted, (s.outcome? u).isSome
  fine : group.outcome = none → group.drains = false →
    ∀ u ∈ counted, ∃ v, s.outcome? u = some (.ok v)
  short : group.outcome = none → group.ended < group.members.length

/--
All ticks are where they should be, but for those of a task that is just running.
-/
structure Tidy (busy : Option Nat) (s : Schedule σ ε ρ) : Prop where
  owners : ∀ t p, s.phases[t]? = some p → Owned s t p
  roused : ∀ t p, busy ≠ some t → s.phases[t]? = some p → Roused s t p
  counts : ∀ g group, s.groups[g]? = some group → ∃ counted, Counts s g group counted
  homes : ∀ u g v, .member g v ∈ s.listeners u → v = u
  arrived : ∀ g u, .member g u ∈ s.queue → (s.outcome? u).isSome
  known : ∀ g u, s.owed g u ≠ 0 → g < s.groups.length

section Frame

variable {s s' : Schedule σ ε ρ}

theorem Owned.mono {t : Nat} {p : Phase σ ε ρ} (h : Owned s t p)
    (hscreens : ∀ (n : Nat) (c : Screen ε ρ), s.screens[n]? = some c →
      ∃ c', s'.screens[n]? = some c' ∧ c'.owner = c.owner)
    (hgroups : ∀ (g : Nat) (group : Group ε ρ), s.groups[g]? = some group →
      ∃ group', s'.groups[g]? = some group' ∧ group'.owner = group.owner ∧
        group'.drains = group.drains) : Owned s' t p := by
  cases p with
  | following n next =>
    obtain ⟨c, hc, howner⟩ := h
    obtain ⟨c', hc', heq⟩ := hscreens n c hc
    exact ⟨c', hc', heq.trans howner⟩
  | gathering g next =>
    obtain ⟨group, hg, howner, hdrains⟩ := h
    obtain ⟨group', hg', heq, heq'⟩ := hgroups g group hg
    exact ⟨group', hg', heq.trans howner, heq'.trans hdrains⟩
  | draining g next =>
    obtain ⟨group, hg, howner, hdrains⟩ := h
    obtain ⟨group', hg', heq, heq'⟩ := hgroups g group hg
    exact ⟨group', hg', heq.trans howner, heq'.trans hdrains⟩
  | ready => trivial
  | awaiting => trivial
  | ended => trivial

theorem Roused.mono {t : Nat} {p : Phase σ ε ρ} (h : Roused s t p)
    (hwake : .wake t ∈ s.queue → .wake t ∈ s'.queue)
    (hinformed : ∀ u tick, (∀ g v, tick ≠ .member g v) → s.Informed u tick → s'.Informed u tick)
    (hscreens : ∀ (n : Nat) (c : Screen ε ρ), s.screens[n]? = some c → s'.screens[n]? = some c)
    (hgroups : ∀ (g : Nat) (group : Group ε ρ), s.groups[g]? = some group →
      ∃ group', s'.groups[g]? = some group' ∧ group'.outcome = group.outcome) : Roused s' t p := by
  have hat (g : Nat) (h : ∃ group, s.groups[g]? = some group ∧
      (group.outcome.isSome → .wake t ∈ s.queue)) : ∃ group, s'.groups[g]? = some group ∧
      (group.outcome.isSome → .wake t ∈ s'.queue) := by
    obtain ⟨group, hg, hq⟩ := h
    obtain ⟨group', hg', heq⟩ := hgroups g group hg
    refine ⟨group', hg', ?_⟩
    intro hsome
    exact hwake (hq (heq ▸ hsome))
  cases p with
  | ready next => exact hwake h
  | awaiting u next => exact hinformed u _ (by simp) h
  | following n next =>
    obtain ⟨c, hc, hc'⟩ := h
    refine ⟨c, hscreens n c hc, ?_⟩
    split at hc'
    · next hsome => simpa [hsome] using hwake hc'
    · next hnone => simpa [hnone] using hinformed _ _ (by simp) hc'
  | gathering g next => exact hat g h
  | draining g next => exact hat g h
  | ended r => trivial

theorem Informed.mono {u : Nat} {tick : Tick} (h : s.Informed u tick)
    (houtcome : s'.outcome? = s.outcome?) (hqueue : tick ∈ s.queue → tick ∈ s'.queue)
    (hlisteners : tick ∈ s.listeners u → tick ∈ s'.listeners u) : s'.Informed u tick := by
  rw [Informed, houtcome]
  rw [Informed] at h
  split
  · next hsome => exact hqueue (by simpa [hsome] using h)
  · next hnone => exact hlisteners (by simpa [hnone] using h)

theorem Counts.mono {g : Nat} {group : Group ε ρ} {counted : List Nat}
    (h : Counts s g group counted) (howed : ∀ u, s'.owed g u = s.owed g u)
    (houtcome : ∀ u r, s.outcome? u = some r → s'.outcome? u = some r) :
    Counts s' g group counted where
  length := h.length
  members := by
    intro u
    rw [howed, h.members]
  ended := by
    intro u hu
    obtain ⟨r, hr⟩ := Option.isSome_iff_exists.mp (h.ended u hu)
    rw [houtcome u r hr]
    rfl
  fine := by
    intro hnone hdrains u hu
    obtain ⟨v, hv⟩ := h.fine hnone hdrains u hu
    exact ⟨v, houtcome u _ hv⟩
  short := h.short

/--
What leaves the views alone and only adds ticks that are no member's keeps all in order.
-/
theorem Tidy.mono {busy : Option Nat} (h : Tidy busy s) (hphases : s'.phases = s.phases)
    (hqueue : ∀ tick, tick ∈ s.queue → tick ∈ s'.queue)
    (hcount : ∀ g u, s'.queue.count (.member g u) = s.queue.count (.member g u))
    (hlisteners : ∀ u tick, tick ∈ s.listeners u → tick ∈ s'.listeners u)
    (hmembers : ∀ g u v,
      (s'.listeners v).count (.member g u) = (s.listeners v).count (.member g u))
    (hscreens : ∀ (n : Nat) (c : Screen ε ρ), s.screens[n]? = some c → s'.screens[n]? = some c)
    (hgroups : s'.groups = s.groups) : Tidy busy s' := by
  have houtcome : s'.outcome? = s.outcome? := by
    funext t
    rw [outcome?_eq, outcome?_eq, hphases]
  have howed (g u : Nat) : s'.owed g u = s.owed g u := by
    rw [owed, owed, hcount, hmembers]
  constructor
  · intro t p hp
    apply (h.owners t p (hphases ▸ hp)).mono
    · intro n c hc
      exact ⟨c, hscreens n c hc, rfl⟩
    · intro g group hg
      exact ⟨group, hgroups ▸ hg, rfl, rfl⟩
  · intro t p ht hp
    apply (h.roused t p ht (hphases ▸ hp)).mono (hqueue _) _ hscreens
    · intro g group hg
      exact ⟨group, hgroups ▸ hg, rfl⟩
    · intro u tick _ hu
      exact hu.mono houtcome (hqueue tick) (hlisteners u tick)
  · intro g group hg
    obtain ⟨counted, hcounts⟩ := h.counts g group (hgroups ▸ hg)
    refine ⟨counted, hcounts.mono (howed g) ?_⟩
    intro u r hr
    rw [houtcome, hr]
  · intro u g v hv
    apply h.homes u g v
    rw [← List.count_pos_iff, ← hmembers, List.count_pos_iff]
    exact hv
  · intro g u hu
    rw [houtcome]
    apply h.arrived g u
    rw [← List.count_pos_iff, ← hcount, List.count_pos_iff]
    exact hu
  · intro g u hu
    rw [hgroups]
    exact h.known g u (howed g u ▸ hu)

end Frame

end Schedule

end Polyglot.Loop
