import Polyglot.Proofs.Loop.Tended

/-!
Turns: what one tick does to the task that it wakes, and that it leaves all other tasks where they are.
-/

namespace Polyglot.Loop.Schedule

variable {σ ε ρ κ π : Type} {s s' : Schedule σ ε ρ} {t u : Nat} {tick : Tick}

/--
A schedule in which at most one task has moved, apart from new ones.
-/
structure Moves (t : Nat) (s s' : Schedule σ ε ρ) : Prop extends Stands s s' where
  phases : ∀ u, u ≠ t → u < s.phases.length → s'.phases[u]? = s.phases[u]?

namespace Moves

theorem of_phases (hs : Stands s s') (hphases : s'.phases = s.phases) : Moves t s s' :=
  ⟨hs, fun _ _ _ => by rw [hphases]⟩

theorem refl (s : Schedule σ ε ρ) : Moves t s s := .of_phases (.refl s) rfl

theorem trans {s'' : Schedule σ ε ρ} (h : Moves t s s') (h' : Moves t s' s'') : Moves t s s'' where
  toStands := h.toStands.trans h'.toStands
  phases := by
    intro u hne hlt
    have hold := h.phases u hne hlt
    rw [h'.phases u hne, hold]
    rw [List.getElem?_eq_getElem hlt] at hold
    exact (List.getElem?_eq_some_iff.mp hold).1

theorem of_set {p : Phase σ ε ρ} (hs : Stands s s') (hphases : s'.phases = s.phases.set t p) :
    Moves t s s' :=
  ⟨hs, fun _ hne _ => by rw [hphases, List.getElem?_set_ne hne.symm]⟩

theorem setPhase (h : Moves t s s') (p : Phase σ ε ρ) : Moves t s (s'.setPhase t p) :=
  h.trans (.of_set (.of_eq rfl rfl) (phases_setPhase s' t p))

theorem enqueue (h : Moves t s s') (ticks : List Tick) : Moves t s (s'.enqueue ticks) :=
  h.trans (.of_phases (.of_eq rfl rfl) rfl)

theorem assemble (s : Schedule σ ε ρ) (t : Nat) (us : List Nat) (drains : Bool)
    (phase : Nat → Phase σ ε ρ) : Moves t s (s.assemble t us drains phase) := by
  apply of_set _ (phases_assemble s t us drains phase)
  refine ⟨fun g group hg => ⟨group, ?_, rfl⟩, fun n screen hn => ⟨screen, ?_, rfl⟩⟩
  · rw [groups_assemble, List.getElem?_append_left (List.getElem?_eq_some_iff.mp hg).1, hg]
  · rw [screens_assemble, hn]

theorem exec (r : Routine σ ε ρ) (s : Schedule σ ε ρ) (t : Nat) : Moves t s (s.exec t r) := by
  induction r generalizing s with
  | finish r => exact ((refl s).setPhase (.ended r)).enqueue _
  | pause next ih => exact ((refl s).setPhase (.ready next)).enqueue _
  | look next ih => exact ih s.shared s
  | change f next ih =>
    have hchange : Moves t s { s with shared := f s.shared } := .of_phases (.of_eq rfl rfl) rfl
    exact hchange.trans (ih _)
  | spawn child next _ ih =>
    have hphases : ((s.addTask ⟨.ready child, [], false⟩).enqueue [.wake s.tasks.length]).phases =
        s.phases ++ [.ready child] := by
      rw [phases_enqueue, phases_addTask]
    have hspawn : Moves t s ((s.addTask ⟨.ready child, [], false⟩).enqueue [.wake s.tasks.length]) := by
      refine ⟨.of_eq rfl rfl, ?_⟩
      intro u _ hlt
      rw [hphases, List.getElem?_append_left hlt]
    exact hspawn.trans (ih s.tasks.length _)
  | await v next ih =>
    simp only [Schedule.exec]
    split
    · next r _ => exact ih r s
    · exact (of_phases (.of_eq (groups_listen s v _) (screens_listen s v _)) (phases_listen s v _)).setPhase _
  | follow v next ih =>
    simp only [Schedule.exec]
    split
    · next r _ => exact ih r s
    · exact of_set (.follow s v t _ _) (phases_follow s v t _ _)
  | gather vs next ih =>
    simp only [Schedule.exec]
    split
    · exact ih _ s
    · exact assemble s t vs _ _
  | drain vs next ih =>
    simp only [Schedule.exec]
    split
    · exact ih _ s
    · have hc := cancels_cancelAll s vs
      exact (of_phases (.cancels hc) hc.phases).trans (assemble _ t vs _ _)

theorem wake (s : Schedule σ ε ρ) (t : Nat) : Moves t s (s.wake t) := by
  cases htask : s.tasks[t]? with
  | none =>
    have heq : s.wake t = s := by simp only [Schedule.wake, htask]
    rw [heq]
    exact .refl s
  | some task =>
    have hclear : Moves t s (s.updateTask t fun task => { task with cancelled := false }) :=
      .of_phases (.of_eq rfl rfl) (phases_updateTask s t _ fun _ => rfl)
    rw [wake_eq htask]
    dsimp only
    split
    · exact hclear.trans (.exec _ _ t)
    · exact hclear

theorem member (s : Schedule σ ε ρ) (g u : Nat) : Moves t s (s.member g u) := by
  cases hg : s.groups[g]? with
  | none =>
    have heq : s.member g u = s := by simp [Schedule.member, hg]
    rw [heq]
    exact .refl s
  | some group =>
    have htally (o : Option (Except (Stop ε) (List ρ))) (ts : List Nat) :
        Moves t s ((s.tally g o).enqueue (ts.map .wake)) := .of_phases (.tally s g o ts) rfl
    have hquiet (o : Option (Except (Stop ε) (List ρ))) : Moves t s (s.tally g o) :=
      (htally o []).trans (.of_phases (.of_eq rfl rfl) rfl)
    rcases member_cases hg with ⟨_, heq⟩ | ⟨_, _, _, heq⟩ | ⟨_, r, _, heq⟩
    · exact heq ▸ hquiet _
    · exact heq ▸ hquiet _
    · exact heq ▸ htally (some r) [group.owner]

theorem relay (s : Schedule σ ε ρ) (n : Nat) : Moves t s (s.relay n) := by
  rcases relay_cases s n with ⟨_, _, r, _, _, heq⟩ | ⟨heq, _⟩
  · rw [heq]
    refine .of_phases ⟨fun g group hg => ⟨group, hg, rfl⟩, ?_⟩ rfl
    intro i screen hi
    rw [Schedule.enqueue, screens_setScreen, hi]
    split
    · exact ⟨_, rfl, rfl⟩
    · exact ⟨_, rfl, rfl⟩
  · rw [heq]
    exact .refl s

theorem fireAt (s : Schedule σ ε ρ) (i : Nat) (h : ∀ u, s.queue[i]? = some (.wake u) → u = t) :
    Moves t s (s.fireAt i) := by
  rw [Schedule.fireAt]
  split
  · exact .refl s
  · next tick htick =>
    have hpop := Pops.eraseIdx htick
    have hold : Moves t s { s with queue := s.queue.eraseIdx i } :=
      .of_phases (.of_eq rfl rfl) hpop.phases
    cases tick with
    | wake u => exact hold.trans (h u htick ▸ .wake _ u)
    | member g u => exact hold.trans (.member _ g u)
    | relay n => exact hold.trans (.relay _ n)

end Moves

def GoesOn (s : Schedule σ ε ρ) (t : Nat) (next : Routine σ ε ρ) (s'' : Schedule σ ε ρ) : Prop :=
  ∃ s' : Schedule σ ε ρ, s'.shared = s.shared ∧ s'.phases = s.phases ∧ s'' = s'.exec t next

theorem fireAt_wake {i : Nat} {p : Phase σ ε ρ} (hi : s.queue[i]? = some (.wake t))
    (hp : s.phases[t]? = some p) : ∃ (s' : Schedule σ ε ρ) (cut : Bool),
      s'.shared = s.shared ∧ s'.phases = s.phases ∧
      (cut = true → s.marks[t]? = some true) ∧ (s.hears cut p = none → s.fireAt i = s') ∧
      ∀ next, s.hears cut p = some next → s.fireAt i = s'.exec t next := by
  have hpop := Pops.eraseIdx hi
  rw [fireAt, hi]
  dsimp only [fire]
  generalize hs' : ({ s with queue := s.queue.eraseIdx i } : Schedule σ ε ρ) = s' at hpop
  obtain ⟨task, htask, rfl⟩ : ∃ task, s'.tasks[t]? = some task ∧ task.phase = p := by
    rwa [← hpop.phases, phases_getElem?, Option.map_eq_some_iff] at hp
  have hhears : ({ s with queue := s.queue.eraseIdx i } : Schedule σ ε ρ).hears task.cancelled task.phase =
      s.hears task.cancelled task.phase := by
    cases task.phase <;> rfl
  have hphases := phases_updateTask s' t (fun task => { task with cancelled := false }) fun _ => rfl
  refine ⟨s'.updateTask t fun task => { task with cancelled := false }, task.cancelled,
    hpop.shared, hphases.trans hpop.phases, ?_, ?_⟩
  · intro hcut
    rw [marks, ← hpop.tasks, List.getElem?_map, htask, Option.map_some, hcut]
  · rw [wake_eq htask, ← hhears, hs', ← hears_updateTask (t := t) (fun task => { task with cancelled := false })
      (fun _ => rfl) task.cancelled task.phase]
    constructor
    · intro hnone
      simp only [hnone]
    · intro next hnext
      simp only [hnext]

section Tended

variable {c : Terms σ ε ρ κ π} {l : Ledger κ π ε ρ} {i : Nat}
variable {next : Except (Stop ε) ρ → Routine σ ε ρ}

/--
A task that waits for a ward stays as it is when it is woken without news. Else it goes on with the
ward's outcome, or with its own cancelling when it is doomed and the ward has ended.
-/
theorem Tended.fire_awaiting (h : Tended c none l s) (hi : s.queue[i]? = some (.wake t))
    (hp : s.phases[t]? = some (.awaiting u next)) :
    (s.outcome? u = none ∧ (s.fireAt i).shared = s.shared ∧ (s.fireAt i).phases = s.phases) ∨
      ∃ r, s.GoesOn t (next r) (s.fireAt i) ∧
        (s.outcome? u = some r ∨ (s.outcome? u).isSome ∧ r = .error .cancelled ∧ l.Doomed t) := by
  obtain ⟨s', cut, hshared, hphases, hcut, hquiet, hnews⟩ := fireAt_wake hi hp
  cases cut with
  | true =>
    obtain ⟨hdoom, hover⟩ := h.marks t _ hp (hcut rfl)
    obtain ⟨r, hr⟩ := hover u (List.mem_singleton_self u)
    refine .inr ⟨.error .cancelled, ⟨s', hshared, hphases, hnews _ rfl⟩, .inr ⟨?_, rfl, hdoom⟩⟩
    rw [(h.outcomes u r).mpr hr]
    rfl
  | false =>
    cases hr : s.outcome? u with
    | none =>
      rw [hquiet (congrArg (Option.map next) hr)]
      exact .inl ⟨rfl, hshared, hphases⟩
    | some r =>
      exact .inr ⟨r, ⟨s', hshared, hphases, hnews _ (congrArg (Option.map next) hr)⟩, .inl rfl⟩

/--
A task that follows another one stays as it is when it is woken without news. Else it goes on with the
outcome of the other one, or with its own cancelling when it is doomed.
-/
theorem Tended.fire_following {n : Nat} {screen : Screen ε ρ} (h : Tended c none l s)
    (hi : s.queue[i]? = some (.wake t)) (hp : s.phases[t]? = some (.following n next))
    (hn : s.screens[n]? = some screen) :
    ((s.fireAt i).shared = s.shared ∧ (s.fireAt i).phases = s.phases) ∨
      ∃ r, s.GoesOn t (next r) (s.fireAt i) ∧
        (s.outcome? screen.task = some r ∨ r = .error .cancelled ∧ l.Doomed t) := by
  obtain ⟨s', cut, hshared, hphases, hcut, hquiet, hnews⟩ := fireAt_wake hi hp
  cases cut with
  | true =>
    obtain ⟨hdoom, _⟩ := h.marks t _ hp (hcut rfl)
    exact .inr ⟨.error .cancelled, ⟨s', hshared, hphases, hnews _ rfl⟩, .inr ⟨rfl, hdoom⟩⟩
  | false =>
    obtain ⟨_, hn', howner⟩ := h.tidy.owners t _ hp
    obtain rfl := Option.some.inj (hn.symm.trans hn')
    have hhears : s.hears false (.following n next) = screen.outcome.map next := by
      simp only [Schedule.hears, hn]
      rfl
    rw [hhears] at hquiet hnews
    cases hr : screen.outcome with
    | none =>
      rw [hquiet (congrArg (Option.map next) hr)]
      exact .inl ⟨hshared, hphases⟩
    | some r =>
      refine .inr ⟨r, ⟨s', hshared, hphases, hnews _ (congrArg (Option.map next) hr)⟩, ?_⟩
      rcases h.screens n screen hn r hr with hended | ⟨rfl, hdoom⟩
      · exact .inl ((h.outcomes _ r).mpr hended)
      · exact .inr ⟨rfl, howner ▸ hdoom⟩

end Tended

end Polyglot.Loop.Schedule
