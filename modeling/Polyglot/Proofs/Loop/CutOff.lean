import Polyglot.Proofs.Loop.Tends

/-!
What cancelling does to tasks that are tended: it reaches only the tasks that are cut off and those in
their care, and it leaves a mark on a task only where none of those is left that the task waits for.
-/

namespace Polyglot.Loop.Schedule

variable {σ ε ρ κ π : Type} {c : Terms σ ε ρ κ π} {l : Ledger κ π ε ρ} {us : List Nat}
variable {s s' : Schedule σ ε ρ} {t u : Nat}

/--
One schedule is another one after tasks have been cancelled that are among some tasks or in their care.
-/
structure Spares (l : Ledger κ π ε ρ) (us : List Nat) (s s' : Schedule σ ε ρ) : Prop where
  cancels : Cancels s s'
  marks : ∀ t p, s.phases[t]? = some p → s'.marks[t]? = some true →
    s.marks[t]? = some true ∨ (Dooms l.wards us t ∧ Over l s p)
  groups : ∀ (g : Nat) (group' : Group ε ρ), s'.groups[g]? = some group' → group'.cancelled →
    (∃ group, s.groups[g]? = some group ∧ group.cancelled) ∨ Dooms l.wards us group'.owner
  screens : ∀ (n : Nat) (screen' : Screen ε ρ), s'.screens[n]? = some screen' →
    s.screens[n]? = some screen' ∨
      (screen'.outcome = some (.error .cancelled) ∧ Dooms l.wards us screen'.owner)

theorem Spares.refl (s : Schedule σ ε ρ) : Spares l us s s where
  cancels := .refl s
  marks := fun _ _ _ => .inl
  groups := fun _ group hg hmark => .inl ⟨group, hg, hmark⟩
  screens := fun _ _ => .inl

theorem marks_markCancelled (s : Schedule σ ε ρ) {t u : Nat} (h : t ≠ u) :
    (s.markCancelled t).marks[u]? = s.marks[u]? := by
  rw [Schedule.marks, Schedule.marks, List.getElem?_map, List.getElem?_map, markCancelled,
    tasks_updateTask, if_neg h]

theorem Spares.mark (h : Spares l us s s') (hu : Dooms l.wards us u)
    (hover : ∀ p, s.phases[u]? = some p → Over l s p) : Spares l us s (s'.markCancelled u) where
  cancels := h.cancels.markCancelled u
  marks := by
    intro t p hp hmark
    by_cases htu : u = t
    · subst htu
      exact .inr ⟨hu, hover p hp⟩
    · rw [marks_markCancelled s' htu] at hmark
      exact h.marks t p hp hmark
  groups := h.groups
  screens := h.screens

theorem Spares.markGroup (h : Spares l us s s') {g : Nat} {group : Group ε ρ}
    (hg : s.groups[g]? = some group) (hdoom : Dooms l.wards us group.owner) :
    Spares l us s (s'.updateGroup g fun group => { group with cancelled := true }) where
  cancels := h.cancels.markGroup g
  marks := h.marks
  groups := by
    intro i new hi hmark
    rw [updateGroup, List.getElem?_modify] at hi
    obtain ⟨old, hold, rfl⟩ := Option.map_eq_some_iff.mp hi
    split at hmark
    · next heq =>
      subst heq
      obtain ⟨group', hg', heq⟩ := h.cancels.group hold
      obtain rfl := Option.some.inj (hg.symm.trans hg')
      rw [if_pos rfl, heq]
      exact .inr hdoom
    · next heq =>
      rw [if_neg heq]
      exact h.groups i old hold hmark
  screens := h.screens

theorem Spares.lift (h : Spares l us s s') {n v : Nat} {next : Except (Stop ε) ρ → Routine σ ε ρ}
    (hp : s.phases[u]? = some (.following n next)) (hn : s'.screens[n]? = some ⟨v, u, none⟩)
    (hu : Dooms l.wards us u) :
    Spares l us s ((s'.setScreen n (.error .cancelled)).enqueue [.wake u]) where
  cancels := h.cancels.trans (.lift (h.cancels.phases ▸ hp) hn)
  marks := h.marks
  groups := h.groups
  screens := by
    intro i screen' hi
    rw [enqueue, screens_setScreen] at hi
    split at hi
    · next heq =>
      subst heq
      rw [hn] at hi
      obtain rfl := Option.some.inj hi
      exact .inr ⟨rfl, hu⟩
    · exact h.screens i screen' hi

theorem Spares.markOver (h : Spares l us s s') (hu : Dooms l.wards us u) {p : Phase σ ε ρ}
    (hp : s.phases[u]? = some p) (hover : Over l s p) : Spares l us s (s'.markCancelled u) :=
  h.mark hu fun _ hq => Option.some.inj (hp.symm.trans hq) ▸ hover

theorem Spares.liftOwn (h : Spares l us s s') (hu : Dooms l.wards us u) {n v owner : Nat}
    {next : Except (Stop ε) ρ → Routine σ ε ρ} (hp : s.phases[u]? = some (.following n next))
    (howned : Owned s u (.following n next)) (hn : s'.screens[n]? = some ⟨v, owner, none⟩) :
    Spares l us s ((s'.setScreen n (.error .cancelled)).enqueue [.wake u]) := by
  obtain ⟨screen, hold, howner⟩ := howned
  obtain ⟨screen', hn', hlift⟩ := h.cancels.screen_of_old hold
  obtain rfl := Option.some.inj (hn.symm.trans hn')
  obtain rfl : owner = u := by
    rcases hlift with rfl | ⟨_, heq, _⟩
    · exact howner
    · cases heq
  exact h.lift hp hn hu

def CancelSpares (l : Ledger κ π ε ρ) (us : List Nat) (s : Schedule σ ε ρ) (fuel : Nat) : Prop :=
  ∀ (s' : Schedule σ ε ρ) (u : Nat), Spares l us s s' → Dooms l.wards us u →
    s.phases.length < fuel + u → Spares l us s (cancel fuel s' u).1 ∧
      ((cancel fuel s' u).2 = false → u < s.phases.length → l.Ended u)

theorem Tended.doomed_of_watched (h : Tended c (some t) l s) {p : Phase σ ε ρ}
    (habides : Abides c l s u p) (hu : Dooms l.wards us u) {fuel : Nat}
    (hfuel : s.phases.length < fuel + 1 + u) {v : Nat} (hv : v ∈ s.watched p) :
    Dooms l.wards us v ∧ s.phases.length < fuel + v ∧ v < s.phases.length := by
  have hraise := habides.minds.own v hv
  have := h.older u v hraise
  refine ⟨.ward hraise hu, by omega, ?_⟩
  rw [← h.length]
  exact hraise.lt

theorem CancelSpares.foldl {fuel : Nat} (h : CancelSpares l us s fuel) (vs : List Nat) (any : Bool)
    (hvs : ∀ v ∈ vs, Dooms l.wards us v ∧ s.phases.length < fuel + v ∧ v < s.phases.length)
    (hspares : Spares l us s s') :
    let folded := vs.foldl (fun p v => ((cancel fuel p.1 v).1, p.2 || (cancel fuel p.1 v).2)) (s', any)
    Spares l us s folded.1 ∧ (folded.2 = false → any = false ∧ ∀ v ∈ vs, l.Ended v) := by
  induction vs generalizing any s' with
  | nil => exact ⟨hspares, fun h => ⟨h, by simp⟩⟩
  | cons v vs ih =>
    obtain ⟨hdoom, hless, hlt⟩ := hvs v List.mem_cons_self
    obtain ⟨hnext, hv⟩ := h s' v hspares hdoom hless
    obtain ⟨hrest, hall⟩ := ih (any || (cancel fuel s' v).2)
      (fun w hw => hvs w (List.mem_cons_of_mem _ hw)) hnext
    refine ⟨hrest, fun hfalse => ?_⟩
    obtain ⟨hany, hvs⟩ := hall hfalse
    rw [Bool.or_eq_false_iff] at hany
    refine ⟨hany.1, ?_⟩
    rintro w (_ | ⟨_, hw⟩)
    · exact hv hany.2 hlt
    · exact hvs w hw

theorem CancelSpares.group {fuel : Nat} (h : CancelSpares l us s fuel) (hspares : Spares l us s s')
    (hu : Dooms l.wards us u) {p : Phase σ ε ρ} (hp : s.phases[u]? = some p) {g : Nat} {group : Group ε ρ}
    (hg : s.groups[g]? = some group) (howner : group.owner = u)
    (hvs : ∀ v ∈ group.members,
      Dooms l.wards us v ∧ s.phases.length < fuel + v ∧ v < s.phases.length)
    (hover : (∀ v ∈ group.members, l.Ended v) → Over l s p)
    {members : List Nat} {owner ended : Nat} {drains cancelled : Bool}
    (hg' : s'.groups[g]? = some ⟨members, owner, drains, ended, cancelled, none⟩) :
    let folded := members.foldl (fun p v =>
      ((cancel fuel p.1 v).1, p.2 || (cancel fuel p.1 v).2)) (s', false)
    Spares l us s (if folded.2 then folded.1.updateGroup g fun g => { g with cancelled := true }
      else folded.1.markCancelled u) := by
  obtain ⟨marked, hmarked⟩ := hspares.cancels.group_of_old hg
  obtain rfl : group.members = members :=
    congrArg Group.members (Option.some.inj (hmarked.symm.trans hg'))
  obtain ⟨hm, hnone⟩ := h.foldl group.members false hvs hspares
  generalize group.members.foldl _ (s', false) = folded at hm hnone ⊢
  obtain ⟨s'', any⟩ := folded
  cases any with
  | false => exact hm.markOver hu hp (hover (hnone rfl).2)
  | true =>
    obtain rfl := howner
    exact hm.markGroup hg hu

theorem Tended.ended_of_closed {busy : Option Nat} (h : Tended c busy l s) (hspares : Spares l us s s')
    {g : Nat} {group : Group ε ρ} (hg : s.groups[g]? = some group) (hdrains : group.drains)
    (hclosed : ∀ members owner drains ended cancelled,
      s'.groups[g]? = some ⟨members, owner, drains, ended, cancelled, none⟩ → False) :
    ∀ v ∈ group.members, l.Ended v := by
  apply (h.groups g group hg).ended hdrains
  obtain ⟨marked, hmarked⟩ := hspares.cancels.group_of_old hg
  obtain ⟨members, owner, drains, ended, cancelled, outcome⟩ := group
  cases outcome with
  | some r => rfl
  | none => exact absurd hmarked (hclosed _ _ _ _ _)

theorem spares_cancel (h : Tended c (some t) l s) (hus : ∀ u ∈ us, l.Raise t u) (fuel : Nat) :
    CancelSpares l us s fuel := by
  induction fuel with
  | zero => exact fun s' u hspares _ hfuel => ⟨hspares, fun _ hlt => by omega⟩
  | succ fuel ih =>
    intro s' u hspares hu hfuel
    rw [cancel]
    split
    · next hnone =>
      refine ⟨hspares, fun _ hlt => ?_⟩
      rw [← hspares.cancels.phases, length_phases] at hlt
      rw [List.getElem?_eq_getElem hlt] at hnone
      cases hnone
    · next task htask =>
      have hphase : s.phases[u]? = some task.phase := by
        rw [← hspares.cancels.phases, phases_getElem?, htask, Option.map_some]
      have hnot : t < u := hu.lt h.older fun u hu => h.older t u (hus u hu)
      have habides := h.tasks u _ (by simpa using Nat.ne_of_lt hnot) hphase
      have hward {v : Nat} (hv : v ∈ s.watched task.phase) :=
        h.doomed_of_watched habides hu hfuel hv
      have howned := h.tidy.owners u _ hphase
      clear habides
      generalize task.phase = p at *
      dsimp only
      cases p with
      | ended r =>
        refine ⟨hspares, fun _ _ => ⟨r, (h.outcomes u r).mp ?_⟩⟩
        rw [outcome?_eq, hphase]
        rfl
      | ready next => exact ⟨hspares.markOver hu hphase (by rintro v ⟨⟩), by simp⟩
      | awaiting v next =>
        obtain ⟨hdoom, hless, hlt⟩ := hward (List.mem_singleton_self v)
        obtain ⟨hspares', hv⟩ := ih s' v hspares hdoom hless
        dsimp only
        generalize cancel fuel s' v = cancelled at hspares' hv ⊢
        obtain ⟨s'', done⟩ := cancelled
        cases done with
        | true => exact ⟨hspares', by simp⟩
        | false =>
          refine ⟨hspares'.markOver hu hphase ?_, by simp⟩
          intro w hw
          rw [List.mem_singleton.mp hw]
          exact hv rfl hlt
      | following n next =>
        dsimp only
        split
        · next v owner hn => exact ⟨hspares.liftOwn hu hphase howned hn, by simp⟩
        · exact ⟨hspares.markOver hu hphase (by rintro v ⟨⟩), by simp⟩
      | gathering g next =>
        obtain ⟨group, hg, howner, _⟩ := howned
        rw [watched, members_of_groups hg] at hward
        dsimp only
        split
        · next hg' => exact ⟨ih.group hspares hu hphase hg howner @hward (fun _ => trivial) hg', by simp⟩
        · exact ⟨hspares.markOver hu hphase trivial, by simp⟩
      | draining g next =>
        obtain ⟨group, hg, howner, hdrains⟩ := howned
        rw [watched, members_of_groups hg] at hward
        have hover (hall : ∀ v ∈ group.members, l.Ended v) : Over l s (.draining g next) := by
          intro v hv
          rw [watched, members_of_groups hg] at hv
          exact hall v hv
        dsimp only
        split
        · next hg' => exact ⟨ih.group hspares hu hphase hg howner @hward hover hg', by simp⟩
        · next hclosed =>
          exact ⟨hspares.markOver hu hphase (hover (h.ended_of_closed hspares hg hdrains hclosed)), by simp⟩

theorem spares_cancelAll (h : Tended c (some t) l s) (hus : ∀ u ∈ us, l.Raise t u) :
    Spares l us s (s.cancelAll us) := by
  have hfold (vs : List Nat) (hvs : vs ⊆ us) {s' : Schedule σ ε ρ} (hspares : Spares l us s s') :
      Spares l us s (vs.foldl (fun s t => (cancel s.tasks.length s t).1) s') := by
    induction vs generalizing s' with
    | nil => exact hspares
    | cons v vs ih =>
      have hv : v ∈ us := hvs List.mem_cons_self
      apply ih fun w hw => hvs (List.mem_cons_of_mem _ hw)
      refine (spares_cancel h hus _ _ v hspares (.cut (hus v hv) hv) ?_).1
      have := h.older t v (hus v hv)
      rw [← length_phases, hspares.cancels.phases]
      omega
  exact hfold us (List.Subset.refl _) (.refl s)

theorem Tended.cutOff (h : Tended c (some t) l s) (hus : ∀ u ∈ us, l.Raise t u) :
    Tended c (some t) (l.cutOff us) (s.cancelAll us) := by
  have hspares := spares_cancelAll h hus
  have hc := hspares.cancels
  have hs : Stands s (s.cancelAll us) := .cancels hc
  have hl : l.Extends (l.cutOff us) := .cutOff l us
  have hdoom {u : Nat} (hu : Dooms l.wards us u) : (l.cutOff us).Doomed u :=
    hu.mono List.prefix_rfl (List.subset_append_right _ _)
  refine ⟨h.tidy.cancels hc, by rw [hc.phases, ← h.length]; rfl, h.older, h.fresh, ?_, ?_, ?_, ?_, ?_,
    ?_, ?_⟩
  · intro u hu
    rcases List.mem_append.mp hu with hu | hu
    · exact h.known u hu
    · exact (hus u hu).lt
  · intro u r
    rw [outcome?_eq, hc.phases, ← outcome?_eq, h.outcomes]
    rfl
  · intro u p hu hp
    rw [hc.phases] at hp
    refine (h.tasks u p hu hp).frame (h.tidy.owners u p hp) hs (.cutOff u l us) (fun _ => id) ?_
    intro v hv hdoom
    cases hdoom with
    | cut hraise hv' =>
      rcases List.mem_append.mp hv' with hv' | hv'
      · exact .inl (.cut hraise hv')
      · exact absurd (congrArg some ((hus v hv').unique hv)) hu
    | ward hraise hdoom => exact .inr (hraise.unique hv ▸ hdoom)
  · intro u p hp hmark
    rw [hc.phases] at hp
    have howned := h.tidy.owners u p hp
    rcases hspares.marks u p hp hmark with hmark' | ⟨hu, hover⟩
    · obtain ⟨hu, hover⟩ := h.marks u p hp hmark'
      exact ⟨hl.doomed hu, hover.mono howned hl hs⟩
    · exact ⟨hdoom hu, hover.mono howned hl hs⟩
  · rintro u hmark ⟨⟩
    have hlt : t < s.phases.length := by
      have := (List.getElem?_eq_some_iff.mp hmark).1
      rwa [Schedule.marks, List.length_map, ← length_phases, hc.phases] at this
    rcases hspares.marks t _ (List.getElem?_eq_getElem hlt) hmark with hmark' | ⟨ht, _⟩
    · exact h.unmarked t hmark' rfl
    · exact absurd (ht.lt h.older fun u hu => h.older t u (hus u hu)) (Nat.lt_irrefl t)
  · intro g group' hg'
    obtain ⟨group, hg, heq⟩ := hc.group hg'
    have hhonest := (h.groups g group hg).mono hl
    have hmarked := hspares.groups g group' hg'
    rw [heq] at hmarked ⊢
    refine ⟨?_, hhonest.results, hhonest.failure, hhonest.ended, hhonest.drained⟩
    intro hmark
    rcases hmarked hmark with ⟨group'', hg'', hmark''⟩ | hu
    · obtain rfl := Option.some.inj (hg.symm.trans hg'')
      exact hhonest.marked hmark''
    · exact hdoom hu
  · intro n screen' hn'
    rcases hspares.screens n screen' hn' with hn | ⟨hout, hu⟩
    · exact (h.screens n screen' hn).mono hl
    · intro r hr
      rw [hout] at hr
      obtain rfl := Option.some.inj hr
      exact .inr ⟨rfl, hdoom hu⟩

end Polyglot.Loop.Schedule
