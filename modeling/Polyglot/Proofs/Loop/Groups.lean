import Polyglot.Proofs.Loop.Tidy

/-!
Groups: a task that waits for several others is told when all have ended or the first one has failed.
-/

namespace Polyglot.Loop.Schedule

variable {σ ε ρ : Type} {s s' s'' : Schedule σ ε ρ} {busy : Option Nat}

theorem owed_listen {u : Nat} (hu : u < s.phases.length) (g g' v : Nat) :
    (s.listen u (.member g u)).owed g' v = s.owed g' v + if g' = g then [u].count v else 0 := by
  rw [owed, owed, queue_listen, listeners_listen]
  by_cases huv : u = v
  · subst huv
    by_cases hg : g' = g
    · subst hg
      cases s.outcome? u <;> simp [hu] <;> omega
    · cases s.outcome? u <;> simp [hu, hg, Ne.symm hg]
  · cases s.outcome? u <;> simp [huv]

theorem foldl_listen {α : Type} (view : Schedule σ ε ρ → α)
    (hview : ∀ (s : Schedule σ ε ρ) u tick, view (s.listen u tick) = view s) (g : Nat) (us : List Nat)
    (s : Schedule σ ε ρ) : view (us.foldl (fun s u => s.listen u (.member g u)) s) = view s := by
  induction us generalizing s with
  | nil => rfl
  | cons u us ih => exact (ih _).trans (hview s u _)

section Assemble

variable (s : Schedule σ ε ρ) (t : Nat) (us : List Nat) (drains : Bool) (phase : Nat → Phase σ ε ρ)

@[simp]
theorem shared_assemble : (s.assemble t us drains phase).shared = s.shared :=
  foldl_listen (·.shared) shared_listen s.groups.length us _

@[simp]
theorem phases_assemble :
    (s.assemble t us drains phase).phases = s.phases.set t (phase s.groups.length) := by
  rw [assemble, phases_setPhase, foldl_listen (·.phases) phases_listen]
  rfl

@[simp]
theorem marks_assemble : (s.assemble t us drains phase).marks = s.marks := by
  rw [assemble, marks_setPhase, foldl_listen (·.marks) marks_listen]
  rfl

@[simp]
theorem groups_assemble :
    (s.assemble t us drains phase).groups = s.groups ++ [⟨us, t, drains, 0, false, none⟩] :=
  foldl_listen (·.groups) groups_listen s.groups.length us _

@[simp]
theorem screens_assemble : (s.assemble t us drains phase).screens = s.screens :=
  foldl_listen (·.screens) screens_listen s.groups.length us _

end Assemble

/--
A schedule after a group has been put before the ends of some tasks.
-/
structure Joins (g : Nat) (us : List Nat) (s s' : Schedule σ ε ρ) : Prop where
  shared : s'.shared = s.shared
  phases : s'.phases = s.phases
  screens : s'.screens = s.screens
  groups : s'.groups = s.groups
  queue : ∀ tick, tick ∈ s.queue → tick ∈ s'.queue
  listeners : ∀ u tick, tick ∈ s.listeners u → tick ∈ s'.listeners u
  owed : ∀ g' v, s'.owed g' v = s.owed g' v + if g' = g then us.count v else 0
  homes : (∀ u g v, .member g v ∈ s.listeners u → v = u) →
    ∀ u g v, .member g v ∈ s'.listeners u → v = u
  arrived : (∀ g u, .member g u ∈ s.queue → (s.outcome? u).isSome) →
    ∀ g u, .member g u ∈ s'.queue → (s'.outcome? u).isSome

namespace Joins

variable {g u : Nat} {us vs : List Nat}

theorem outcome? (h : Joins g us s s') : s'.outcome? = s.outcome? := by
  funext t
  rw [outcome?_eq, outcome?_eq, h.phases]

theorem nil (g : Nat) (s : Schedule σ ε ρ) : Joins g [] s s :=
  ⟨rfl, rfl, rfl, rfl, fun _ => id, fun _ _ => id, by simp, id, id⟩

theorem append (h : Joins g us s s') (h' : Joins g vs s' s'') : Joins g (us ++ vs) s s'' where
  shared := h'.shared.trans h.shared
  phases := h'.phases.trans h.phases
  screens := h'.screens.trans h.screens
  groups := h'.groups.trans h.groups
  queue := fun tick htick => h'.queue tick (h.queue tick htick)
  listeners := fun u tick htick => h'.listeners u tick (h.listeners u tick htick)
  owed := by
    intro g' v
    rw [h'.owed, h.owed, List.count_append]
    split <;> omega
  homes := fun hs => h'.homes (h.homes hs)
  arrived := fun hs => h'.arrived (h.arrived hs)

theorem listen (hu : u < s.phases.length) (g : Nat) :
    Joins g [u] s (s.listen u (.member g u)) where
  shared := shared_listen s u _
  phases := phases_listen s u _
  screens := screens_listen s u _
  groups := groups_listen s u _
  queue := by
    intro tick htick
    rw [queue_listen]
    split
    · exact List.mem_append_left _ htick
    · exact htick
  listeners := by
    intro v tick htick
    rw [listeners_listen]
    split
    · exact List.mem_append_left _ htick
    · exact htick
  owed := owed_listen hu g
  homes := by
    intro hs v g' w hw
    rw [listeners_listen] at hw
    split at hw
    · next h =>
      rw [List.mem_append, List.mem_singleton] at hw
      rcases hw with hw | hw
      · exact hs v g' w hw
      · cases hw
        exact h.1
    · exact hs v g' w hw
  arrived := by
    intro hs g' v hv
    rw [outcome?_listen]
    rw [queue_listen] at hv
    split at hv
    · next hsome =>
      rw [List.mem_append, List.mem_singleton] at hv
      rcases hv with hv | hv
      · exact hs g' v hv
      · cases hv
        exact hsome
    · exact hs g' v hv

theorem foldl (g : Nat) (us : List Nat) (s : Schedule σ ε ρ) (hus : ∀ u ∈ us, u < s.phases.length) :
    Joins g us s (us.foldl (fun s u => s.listen u (.member g u)) s) := by
  induction us generalizing s with
  | nil => exact nil g s
  | cons u us ih =>
    have hhead := listen (hus u List.mem_cons_self) g
    have htail := ih (s.listen u (.member g u)) <| by
      intro v hv
      rw [hhead.phases]
      exact hus v (List.mem_cons_of_mem _ hv)
    exact hhead.append htail

end Joins

theorem Tidy.join (h : Tidy busy s) {us : List Nat} (hne : us ≠ []) (owner : Nat) (drains : Bool)
    (hs' : Joins s.groups.length us (s.addGroup ⟨us, owner, drains, 0, false, none⟩) s') :
    Tidy busy s' := by
  have houtcome : s'.outcome? = s.outcome? := hs'.outcome?
  have hgroups {g : Nat} {group : Group ε ρ} (hg : s.groups[g]? = some group) :
      s'.groups[g]? = some group := by
    rw [hs'.groups, Schedule.addGroup, List.getElem?_append_left (List.getElem?_eq_some_iff.mp hg).1]
    exact hg
  have howed (g u : Nat) :
      s'.owed g u = s.owed g u + if g = s.groups.length then us.count u else 0 := hs'.owed g u
  constructor
  · intro t p hp
    apply (h.owners t p (hs'.phases ▸ hp)).mono
    · intro n c hc
      exact ⟨c, hs'.screens ▸ hc, rfl⟩
    · intro g group hg
      exact ⟨group, hgroups hg, rfl, rfl⟩
  · intro t p ht hp
    apply (h.roused t p ht (hs'.phases ▸ hp)).mono (hs'.queue _)
    · intro u tick _ hu
      exact hu.mono houtcome (hs'.queue tick) (hs'.listeners u tick)
    · intro n c hc
      exact hs'.screens ▸ hc
    · intro g group hg
      exact ⟨group, hgroups hg, rfl⟩
  · intro g group hg
    rw [hs'.groups, Schedule.addGroup, List.getElem?_append] at hg
    split at hg
    · next hlt =>
      obtain ⟨counted, hcounts⟩ := h.counts g group hg
      refine ⟨counted, hcounts.mono ?_ ?_⟩
      · intro u
        rw [howed, if_neg (by omega), Nat.add_zero]
      · intro u r hr
        rw [houtcome, hr]
    · next hge =>
      have hlt := (List.getElem?_eq_some_iff.mp hg).1
      simp only [List.length_singleton] at hlt
      obtain rfl : g = s.groups.length := by omega
      simp only [Nat.sub_self, List.getElem?_cons_zero, Option.some.injEq] at hg
      subst hg
      refine ⟨[], rfl, ?_, by simp, by simp, fun _ => List.length_pos_iff.mpr hne⟩
      intro u
      have hnew : s.owed s.groups.length u = 0 := by
        by_cases hz : s.owed s.groups.length u = 0
        · exact hz
        · exact absurd (h.known _ _ hz) (Nat.lt_irrefl _)
      simp [howed, hnew]
  · exact hs'.homes h.homes
  · exact hs'.arrived h.arrived
  · intro g u hu
    rw [hs'.groups, Schedule.addGroup, List.length_append, List.length_singleton]
    rw [howed] at hu
    by_cases hz : s.owed g u = 0
    · have hg : g = s.groups.length := by
        by_cases hg : g = s.groups.length
        · exact hg
        · simp [hz, hg] at hu
      omega
    · have := h.known g u hz
      omega

section Running

variable {t : Nat} {us : List Nat}

theorem Tidy.assemble (h : Tidy (some t) s) (ht : s.Running t) (hne : us ≠ [])
    (hus : ∀ u ∈ us, u < s.phases.length) (drains : Bool) (phase : Nat → Phase σ ε ρ)
    (hphase : (∃ next, phase = (.gathering · next) ∧ drains = false) ∨
      ∃ next, phase = (.draining · next) ∧ drains = true) :
    Tidy none (s.assemble t us drains phase) := by
  have hjoins : Joins s.groups.length us (s.addGroup ⟨us, t, drains, 0, false, none⟩) _ :=
    .foldl s.groups.length us (s.addGroup ⟨us, t, drains, 0, false, none⟩) hus
  have hgroup : (us.foldl (fun s' u => s'.listen u (.member s.groups.length u))
      (s.addGroup ⟨us, t, drains, 0, false, none⟩)).groups[s.groups.length]? =
      some ⟨us, t, drains, 0, false, none⟩ := by
    rw [hjoins.groups]
    simp [Schedule.addGroup]
  rw [Schedule.assemble]
  apply (h.join hne t drains hjoins).settle
  · rw [Running, hjoins.phases, hjoins.outcome?]
    exact ht
  · rcases hphase with ⟨next, rfl, _⟩ | ⟨next, rfl, _⟩ <;> rfl
  · rcases hphase with ⟨next, rfl, rfl⟩ | ⟨next, rfl, rfl⟩
    · exact ⟨_, hgroup, rfl, rfl⟩
    · exact ⟨_, hgroup, rfl, rfl⟩
  · rcases hphase with ⟨next, rfl, _⟩ | ⟨next, rfl, _⟩
    · exact ⟨_, hgroup, by simp⟩
    · exact ⟨_, hgroup, by simp⟩

end Running

end Polyglot.Loop.Schedule
