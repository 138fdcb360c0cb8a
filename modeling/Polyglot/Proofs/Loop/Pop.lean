import Mathlib.Data.List.Perm.Subperm
import Polyglot.Proofs.Loop.Groups

/-!
Taking a tick out of the queue: whatever it was to set off is done at once, so that all ticks are in
order again.
-/

namespace Polyglot.Loop.Schedule

variable {σ ε ρ : Type} {s s' : Schedule σ ε ρ} {tick : Tick}

/--
A schedule without one of the ticks in its queue.
-/
structure Pops (tick : Tick) (s s' : Schedule σ ε ρ) : Prop where
  shared : s'.shared = s.shared
  tasks : s'.tasks = s.tasks
  groups : s'.groups = s.groups
  screens : s'.screens = s.screens
  queue : (tick :: s'.queue).Perm s.queue

namespace Pops

theorem eraseIdx {i : Nat} (h : s.queue[i]? = some tick) :
    Pops tick s { s with queue := s.queue.eraseIdx i } where
  shared := rfl
  tasks := rfl
  groups := rfl
  screens := rfl
  queue := by
    obtain ⟨hi, rfl⟩ := List.getElem?_eq_some_iff.mp h
    exact List.getElem_cons_eraseIdx_perm hi

theorem phases (h : Pops tick s s') : s'.phases = s.phases := by
  rw [Schedule.phases, h.tasks, Schedule.phases]

theorem outcome? (h : Pops tick s s') : s'.outcome? = s.outcome? := by
  funext t
  rw [outcome?_eq, outcome?_eq, h.phases]

theorem listeners (h : Pops tick s s') : s'.listeners = s.listeners := by
  funext u
  rw [Schedule.listeners, Schedule.listeners, h.tasks]

theorem mem_queue (h : Pops tick s s') {other : Tick} (hne : other ≠ tick)
    (hmem : other ∈ s.queue) : other ∈ s'.queue := by
  rcases List.mem_cons.mp (h.queue.mem_iff.mpr hmem) with heq | hmem
  · exact absurd heq hne
  · exact hmem

theorem mem_queue_old (h : Pops tick s s') {other : Tick} (hmem : other ∈ s'.queue) :
    other ∈ s.queue :=
  h.queue.mem_iff.mp (List.mem_cons_of_mem _ hmem)

theorem count_queue (h : Pops tick s s') (other : Tick) :
    s.queue.count other = s'.queue.count other + if tick = other then 1 else 0 := by
  rw [← h.queue.count_eq, List.count_cons]
  simp

theorem informed (h : Pops tick s s') {u : Nat} {other : Tick} (hne : other ≠ tick)
    (hinformed : s.Informed u other) : s'.Informed u other := by
  apply hinformed.mono h.outcome? (h.mem_queue hne)
  rw [h.listeners]
  exact id

theorem owned (h : Pops tick s s') {t : Nat} {p : Phase σ ε ρ} (howned : Owned s t p) :
    Owned s' t p := by
  apply howned.mono
  · intro n c hc
    exact ⟨c, h.screens ▸ hc, rfl⟩
  · intro g group hg
    exact ⟨group, h.groups ▸ hg, rfl, rfl⟩

theorem roused (h : Pops tick s s') {t : Nat} {p : Phase σ ε ρ} (hroused : Roused s t p)
    (hwake : tick ≠ .wake t) (hrelay : ∀ n next, p = .following n next → tick ≠ .relay n) :
    Roused s' t p := by
  cases p with
  | ready next => exact h.mem_queue hwake.symm hroused
  | awaiting u next => exact h.informed hwake.symm hroused
  | following n next =>
    obtain ⟨c, hc, hq⟩ := hroused
    refine ⟨c, h.screens ▸ hc, ?_⟩
    split at hq
    · next hsome => simpa [hsome] using h.mem_queue hwake.symm hq
    · next hnone => simpa [hnone] using h.informed (hrelay n next rfl).symm hq
  | gathering g next =>
    obtain ⟨group, hg, hq⟩ := hroused
    exact ⟨group, h.groups ▸ hg, fun hsome => h.mem_queue hwake.symm (hq hsome)⟩
  | draining g next =>
    obtain ⟨group, hg, hq⟩ := hroused
    exact ⟨group, h.groups ▸ hg, fun hsome => h.mem_queue hwake.symm (hq hsome)⟩
  | ended r => trivial

theorem homes (h : Pops tick s s') (htidy : Tidy none s) (u g v : Nat)
    (hmem : .member g v ∈ s'.listeners u) : v = u :=
  htidy.homes u g v (h.listeners ▸ hmem)

theorem arrived (h : Pops tick s s') (htidy : Tidy none s) (g u : Nat)
    (hmem : .member g u ∈ s'.queue) : (s'.outcome? u).isSome := by
  rw [h.outcome?]
  exact htidy.arrived g u (h.mem_queue_old hmem)

theorem owed (h : Pops tick s s') (g u : Nat) :
    s.owed g u = s'.owed g u + if tick = .member g u then 1 else 0 := by
  rw [Schedule.owed, Schedule.owed, h.count_queue, h.listeners]
  omega

theorem owed_of_ne (h : Pops tick s s') (hne : ∀ g u, tick ≠ .member g u) (g u : Nat) :
    s'.owed g u = s.owed g u := by
  rw [h.owed, if_neg (hne g u), Nat.add_zero]

theorem counts (h : Pops tick s s') (hne : ∀ g u, tick ≠ .member g u) (htidy : Tidy none s)
    (g : Nat) (group : Group ε ρ) (hg : s'.groups[g]? = some group) :
    ∃ counted, Counts s' g group counted := by
  obtain ⟨counted, hcounts⟩ := htidy.counts g group (h.groups ▸ hg)
  refine ⟨counted, hcounts.mono (h.owed_of_ne hne g) ?_⟩
  intro u r hr
  rw [h.outcome?, hr]

theorem known (h : Pops tick s s') (htidy : Tidy none s) (g u : Nat) (hu : s'.owed g u ≠ 0) :
    g < s'.groups.length := by
  rw [h.groups]
  apply htidy.known g u
  rw [h.owed]
  omega

end Pops

theorem Tidy.wakes {t : Nat} (h : Tidy none s) (hpop : Pops (.wake t) s s') :
    Tidy (some t) s' where
  owners := fun u p hp => hpop.owned (h.owners u p (hpop.phases ▸ hp))
  roused := by
    intro u p hu hp
    apply hpop.roused (h.roused u p (by simp) (hpop.phases ▸ hp))
    · simpa using hu
    · simp
  counts := hpop.counts (by simp) h
  homes := hpop.homes h
  arrived := hpop.arrived h
  known := hpop.known h

theorem Tidy.rest {t : Nat} (h : Tidy (some t) s)
    (hroused : ∀ p, s.phases[t]? = some p → Roused s t p) : Tidy none s where
  owners := h.owners
  roused := by
    intro u p _ hp
    by_cases hu : t = u
    · subst hu
      exact hroused p hp
    · exact h.roused u p (by simpa using hu) hp
  counts := h.counts
  homes := h.homes
  arrived := h.arrived
  known := h.known

section Member

variable {g t : Nat} {group : Group ε ρ}

def tally (s : Schedule σ ε ρ) (g : Nat) (outcome : Option (Except (Stop ε) (List ρ))) :
    Schedule σ ε ρ :=
  s.updateGroup g fun group => { group with ended := group.ended + 1, outcome }

/--
What a group of tasks may come to once one more member has ended. Results are those of all members; a
failure is that of the member, unless the group has been cancelled and all members have ended.
-/
structure Settles (s : Schedule σ ε ρ) (group : Group ε ρ) (t : Nat) (r : Except (Stop ε) (List ρ)) :
    Prop where
  ok : ∀ vs, r = .ok vs → group.members.length ≤ group.ended + 1 ∧ vs = s.results group.members ∧
    (group.drains = false → ∀ e, s.outcome? t ≠ some (.error e))
  error : ∀ e, r = .error e → (group.drains = false ∧ s.outcome? t = some (.error e)) ∨
    (group.members.length ≤ group.ended + 1 ∧ group.cancelled ∧ e = .cancelled)

theorem member_cases (hg : s.groups[g]? = some group) :
    (group.outcome.isSome ∧ s.member g t = s.tally g group.outcome) ∨
    (group.outcome = none ∧ group.ended + 1 < group.members.length ∧
      (group.drains = false → ∀ e, s.outcome? t ≠ some (.error e)) ∧ s.member g t = s.tally g none) ∨
    (group.outcome = none ∧ ∃ r, Settles s group t r ∧
      s.member g t = (s.tally g (some r)).enqueue [.wake group.owner]) := by
  have htally (o : Option (Except (Stop ε) (List ρ))) (h : group.outcome = o) :
      s.updateGroup g (fun group => { group with ended := group.ended + 1 }) = s.tally g o := by
    rw [tally, updateGroup, updateGroup]
    congr 1
    apply List.ext_getElem?
    intro i
    rw [List.getElem?_modify, List.getElem?_modify]
    by_cases hi : g = i
    · subst hi
      simp [hg, ← h]
    · simp [hi]
  have hsettle (r : Except (Stop ε) (List ρ)) :
      (s.updateGroup g fun group => { group with ended := group.ended + 1 }).updateGroup g
        (fun group => { group with outcome := some r }) = s.tally g (some r) := by
    simp only [tally, updateGroup]
    congr 1
    apply List.ext_getElem?
    intro i
    simp only [List.getElem?_modify]
    by_cases hi : g = i
    · subst hi
      simp [hg]
    · simp [hi]
  have hout : (s.updateGroup g fun group => { group with ended := group.ended + 1 }).outcome? =
      s.outcome? := rfl
  cases ho : group.outcome with
  | some r =>
    refine .inl ⟨rfl, ?_⟩
    simp [member, hg, ho, htally]
  | none =>
    right
    simp only [member, hg, ho, hout, hsettle, Option.isSome_none, Bool.false_eq_true, ↓reduceIte]
    split
    · next e he =>
      refine .inr ⟨trivial, _, ⟨by rintro vs ⟨⟩, ?_⟩, rfl⟩
      rintro _ ⟨⟩
      left
      cases hdrains : group.drains with
      | true => simp [hdrains] at he
      | false => exact ⟨rfl, by simpa [hdrains] using he⟩
    · next hfine =>
      have hfine' : group.drains = false → ∀ e, s.outcome? t ≠ some (.error e) := by
        intro hdrains e
        simpa [hdrains] using hfine e
      split
      · next hlt => exact .inl ⟨trivial, hlt, hfine', htally none ho⟩
      · next hge =>
        split
        · next hmark =>
          refine .inr ⟨trivial, _, ⟨by rintro vs ⟨⟩, ?_⟩, rfl⟩
          rintro _ ⟨⟩
          exact .inr ⟨Nat.le_of_not_lt hge, hmark, rfl⟩
        · refine .inr ⟨trivial, _, ⟨?_, by rintro e ⟨⟩⟩, rfl⟩
          rintro vs ⟨⟩
          exact ⟨Nat.le_of_not_lt hge, rfl, hfine'⟩

theorem groups_tally (s : Schedule σ ε ρ) (g i : Nat) (o : Option (Except (Stop ε) (List ρ))) :
    (s.tally g o).groups[i]? =
      if g = i then (s.groups[i]?).map fun group => { group with ended := group.ended + 1, outcome := o }
      else s.groups[i]? := by
  rw [tally, updateGroup, List.getElem?_modify]
  split <;> simp_all

/--
The members that a group has counted once the tick of one more is taken out of the queue.
-/
theorem Tidy.counted (h : Tidy none s) (hpop : Pops (.member g t) s s')
    (hg : s.groups[g]? = some group) :
    ∃ counted, counted.length = group.ended ∧
      (∀ u, s'.owed g u + (t :: counted).count u = group.members.count u) ∧
      (∀ u ∈ t :: counted, (s'.outcome? u).isSome) ∧
      (group.outcome = none → group.drains = false →
        ∀ u ∈ counted, ∃ v, s'.outcome? u = some (.ok v)) := by
  obtain ⟨counted, hcounts⟩ := h.counts g group hg
  rw [hpop.outcome?]
  refine ⟨counted, hcounts.length, ?_, ?_, hcounts.fine⟩
  · intro u
    rw [← hcounts.members u, hpop.owed, List.count_cons]
    by_cases hu : t = u
    · subst hu
      simp
      omega
    · simp [hu]
  · intro u hu
    rcases List.mem_cons.mp hu with rfl | hu
    · exact h.arrived g u (hpop.queue.mem_iff.mp List.mem_cons_self)
    · exact hcounts.ended u hu

/--
With the tick of one more member a group that has been told of all others has been told of all.
-/
theorem Tidy.perm_counted (h : Tidy none s) (hpop : Pops (.member g t) s s')
    (hg : s.groups[g]? = some group) (hlen : group.members.length ≤ group.ended + 1) :
    ∃ counted, (t :: counted).Perm group.members ∧ (∀ u ∈ t :: counted, (s'.outcome? u).isSome) ∧
      (group.outcome = none → group.drains = false →
        ∀ u ∈ counted, ∃ v, s'.outcome? u = some (.ok v)) := by
  obtain ⟨counted, hlength, hmembers, hended, hfine⟩ := h.counted hpop hg
  have hsub : (t :: counted).Subperm group.members := by
    apply List.subperm_ext_iff.mpr
    intro u _
    have := hmembers u
    omega
  refine ⟨counted, hsub.perm_of_length_le ?_, hended, hfine⟩
  rw [List.length_cons, hlength]
  exact hlen

theorem Tidy.all_ended (h : Tidy none s) (hpop : Pops (.member g t) s s')
    (hg : s.groups[g]? = some group) (hopen : group.outcome = none) (hdrains : group.drains = false)
    (hlen : group.members.length ≤ group.ended + 1) (hlast : ∀ e, s'.outcome? t ≠ some (.error e)) :
    ∀ u ∈ group.members, ∃ v, s'.outcome? u = some (.ok v) := by
  obtain ⟨counted, hperm, hended, hfine⟩ := h.perm_counted hpop hg hlen
  intro u hu
  have hmem := hperm.mem_iff.mpr hu
  rcases List.mem_cons.mp hmem with rfl | hcounted
  · obtain ⟨r, hr⟩ := Option.isSome_iff_exists.mp (hended u hmem)
    cases r with
    | ok v => exact ⟨v, hr⟩
    | error e => exact absurd hr (hlast e)
  · exact hfine hopen hdrains u hcounted

theorem forall₂_results (s : Schedule σ ε ρ) {us : List Nat}
    (h : ∀ u ∈ us, ∃ v, s.outcome? u = some (.ok v)) :
    List.Forall₂ (fun u v => s.outcome? u = some (.ok v)) us (s.results us) := by
  induction us with
  | nil => exact .nil
  | cons u us ih =>
    obtain ⟨v, hv⟩ := h u List.mem_cons_self
    have hrest := ih fun w hw => h w (List.mem_cons_of_mem _ hw)
    rw [results] at hrest ⊢
    rw [List.filterMap_cons]
    simp only [hv]
    exact .cons hv hrest

theorem owed_tally (s : Schedule σ ε ρ) (g : Nat) (o : Option (Except (Stop ε) (List ρ))) (ts : List Nat)
    (i u : Nat) : ((s.tally g o).enqueue (ts.map .wake)).owed i u = s.owed i u := by
  have hno : (ts.map Tick.wake).count (.member i u) = 0 := by
    rw [List.count_eq_zero]
    simp
  rw [owed, owed, queue_enqueue, List.count_append, hno, Nat.add_zero]
  rfl

theorem Tidy.counts_tally (h : Tidy none s) (hpop : Pops (.member g t) s s')
    (hg : s'.groups[g]? = some group) {o : Option (Except (Stop ε) (List ρ))} (ts : List Nat)
    (hopen : o = none → group.outcome = none ∧ group.ended + 1 < group.members.length ∧
      (group.drains = false → ∀ e, s'.outcome? t ≠ some (.error e))) :
    ∃ counted, Counts ((s'.tally g o).enqueue (ts.map .wake)) g
      { group with ended := group.ended + 1, outcome := o } counted := by
  obtain ⟨counted, hlength, hmembers, hended, hfine⟩ := h.counted hpop (hpop.groups ▸ hg)
  refine ⟨t :: counted, ?_, ?_, hended, ?_, ?_⟩
  · rw [List.length_cons, hlength]
  · intro u
    rw [owed_tally, hmembers]
  · intro hnone hdrains u hu
    obtain ⟨hnone', -, hbad⟩ := hopen hnone
    rcases List.mem_cons.mp hu with rfl | hmem
    · obtain ⟨r, hr⟩ := Option.isSome_iff_exists.mp (hended u hu)
      cases r with
      | ok v => exact ⟨v, hr⟩
      | error e => exact absurd hr (hbad hdrains e)
    · exact hfine hnone' hdrains u hmem
  · intro hnone
    exact (hopen hnone).2.1

theorem Tidy.tally (h : Tidy none s) (hpop : Pops (.member g t) s s') (hg : s'.groups[g]? = some group)
    {o : Option (Except (Stop ε) (List ρ))} (ts : List Nat)
    (hopen : o = none → group.outcome = none ∧ group.ended + 1 < group.members.length ∧
      (group.drains = false → ∀ e, s'.outcome? t ≠ some (.error e)))
    (hnews : o.isSome → group.outcome.isSome ∨ group.owner ∈ ts) :
    Tidy none ((s'.tally g o).enqueue (ts.map .wake)) := by
  have hgroup : s.groups[g]? = some group := hpop.groups ▸ hg
  have hqueue {u : Nat} (hu : .wake u ∈ s.queue) : .wake u ∈ s'.queue ++ ts.map .wake :=
    List.mem_append_left _ (hpop.mem_queue (by simp) hu)
  have hinformed {v : Nat} {tick : Tick} (hne : tick ≠ .member g t) (hv : s.Informed v tick) :
      ((s'.tally g o).enqueue (ts.map .wake)).Informed v tick :=
    (hpop.informed hne hv).mono rfl (List.mem_append_left _) id
  -- the owner of the group is told, the owners of others wait as before
  have hat {u i : Nat} (howner : ∃ group, s.groups[i]? = some group ∧ group.owner = u)
      (hr : ∃ group, s.groups[i]? = some group ∧ (group.outcome.isSome → .wake u ∈ s.queue)) :
      ∃ group, ((s'.tally g o).enqueue (ts.map .wake)).groups[i]? = some group ∧
        (group.outcome.isSome → .wake u ∈ ((s'.tally g o).enqueue (ts.map .wake)).queue) := by
    obtain ⟨old, hi, rfl⟩ := howner
    obtain ⟨_, hi', hq⟩ := hr
    obtain rfl := Option.some.inj (hi.symm.trans hi')
    by_cases hgi : g = i
    · subst hgi
      obtain rfl := Option.some.inj (hi.symm.trans hgroup)
      refine ⟨_, (groups_tally s' g g o).trans (by rw [if_pos rfl, hg]; rfl), ?_⟩
      intro hsome
      rcases hnews hsome with hold | hts
      · exact hqueue (hq hold)
      · exact List.mem_append_right _ (List.mem_map_of_mem hts)
    · refine ⟨old, (groups_tally s' g i o).trans (by rw [if_neg hgi, hpop.groups, hi]), ?_⟩
      exact fun hsome => hqueue (hq hsome)
  constructor
  · intro u p hp
    apply (hpop.owned (h.owners u p (hpop.phases ▸ hp))).mono
    · intro n c hc
      exact ⟨c, hc, rfl⟩
    · intro i old hi
      rw [Schedule.enqueue, groups_tally, hi]
      split
      · exact ⟨_, rfl, rfl, rfl⟩
      · exact ⟨_, rfl, rfl, rfl⟩
  · intro u p _ hp
    have howned := h.owners u p (hpop.phases ▸ hp)
    have hr := h.roused u p (by simp) (hpop.phases ▸ hp)
    cases p with
    | ready next => exact hqueue hr
    | awaiting v next => exact hinformed (by simp) hr
    | following n next =>
      obtain ⟨c, hc, hq⟩ := hr
      refine ⟨c, hpop.screens ▸ hc, ?_⟩
      split at hq
      · next hsome =>
        rw [if_pos hsome]
        exact hqueue hq
      · next hnone =>
        rw [if_neg hnone]
        exact hinformed (by simp) hq
    | gathering i next =>
      obtain ⟨group, hi, howner, _⟩ := howned
      exact hat ⟨group, hi, howner⟩ hr
    | draining i next =>
      obtain ⟨group, hi, howner, _⟩ := howned
      exact hat ⟨group, hi, howner⟩ hr
    | ended r => trivial
  · intro i new hi
    replace hi : (s'.tally g o).groups[i]? = some new := hi
    rw [groups_tally] at hi
    split at hi
    · next hgi =>
      subst hgi
      rw [hg, Option.map_some] at hi
      obtain rfl := Option.some.inj hi
      exact h.counts_tally hpop hg ts hopen
    · next hgi =>
      obtain ⟨counted, hcounts⟩ := h.counts i new (hpop.groups ▸ hi)
      refine ⟨counted, hcounts.mono ?_ ?_⟩
      · intro u
        rw [owed_tally, hpop.owed, if_neg (by simp [hgi]), Nat.add_zero]
      · intro u r hr
        exact (congrFun hpop.outcome? u).trans hr
  · exact hpop.homes h
  · intro i u hu
    apply hpop.arrived h i u
    simpa [Schedule.tally, updateGroup] using hu
  · intro i u hu
    have hlen : ((s'.tally g o).enqueue (ts.map .wake)).groups.length = s'.groups.length := by
      simp [Schedule.enqueue, Schedule.tally, updateGroup]
    rw [hlen]
    rw [owed_tally] at hu
    exact hpop.known h i u hu

theorem Tidy.member (h : Tidy none s) (hpop : Pops (.member g t) s s') :
    Tidy none (s'.member g t) := by
  cases hg : s'.groups[g]? with
  | none =>
    have heq : s'.member g t = s' := by simp [Schedule.member, hg]
    rw [heq]
    refine ⟨?_, ?_, ?_, hpop.homes h, hpop.arrived h, hpop.known h⟩
    · intro u p hp
      exact hpop.owned (h.owners u p (hpop.phases ▸ hp))
    · intro u p _ hp
      exact hpop.roused (h.roused u p (by simp) (hpop.phases ▸ hp)) (by simp) (by simp)
    · intro i group hi
      obtain ⟨counted, hcounts⟩ := h.counts i group (hpop.groups ▸ hi)
      have hne : g ≠ i := by
        rintro rfl
        rw [hg] at hi
        cases hi
      refine ⟨counted, hcounts.mono ?_ ?_⟩
      · intro u
        rw [hpop.owed, if_neg (by simp [hne]), Nat.add_zero]
      · intro u r hr
        rw [hpop.outcome?, hr]
  | some group =>
    have hquiet (o : Option (Except (Stop ε) (List ρ))) :
        s'.tally g o = (s'.tally g o).enqueue (([] : List Nat).map .wake) := by
      simp [Schedule.enqueue]
    rcases member_cases hg with ⟨hsome, heq⟩ | ⟨hnone, hshort, hbad, heq⟩ | ⟨hnone, r, _, heq⟩
    · rw [heq, hquiet]
      apply h.tally hpop hg _
      · intro hnone
        simp [hnone] at hsome
      · exact fun hsome => .inl hsome
    · rw [heq, hquiet]
      apply h.tally hpop hg _
      · exact fun _ => ⟨hnone, hshort, hbad⟩
      · intro hsome
        cases hsome
    · rw [heq]
      apply h.tally hpop hg [group.owner]
      · intro hopen
        cases hopen
      · exact fun _ => .inr (List.mem_singleton_self _)

end Member

section Relay

variable {n : Nat}

theorem relay_cases (s : Schedule σ ε ρ) (n : Nat) :
    (∃ u owner r, s.screens[n]? = some ⟨u, owner, none⟩ ∧ s.outcome? u = some r ∧
      s.relay n = (s.setScreen n r).enqueue [.wake owner]) ∨
    (s.relay n = s ∧ ∀ c, s.screens[n]? = some c → c.outcome = none → s.outcome? c.task = none) := by
  rw [relay]
  split
  · next u owner hn =>
    split
    · next r hr => exact .inl ⟨u, owner, r, hn, hr, rfl⟩
    · next hr =>
      refine .inr ⟨rfl, ?_⟩
      intro c hc _
      obtain rfl := Option.some.inj (hn.symm.trans hc)
      exact hr
  · next hother =>
    refine .inr ⟨rfl, ?_⟩
    intro c hc hnone
    obtain ⟨u, owner, outcome⟩ := c
    cases hnone
    exact absurd hc (hother u owner)

theorem screens_setScreen (s : Schedule σ ε ρ) (n i : Nat) (r : Except (Stop ε) ρ) :
    (s.setScreen n r).screens[i]? =
      if n = i then (s.screens[i]?).map fun c => { c with outcome := some r } else s.screens[i]? := by
  rw [setScreen, List.getElem?_modify]
  split <;> simp_all

theorem Tidy.relay (h : Tidy none s) (hpop : Pops (.relay n) s s') : Tidy none (s'.relay n) := by
  rcases relay_cases s' n with ⟨u, owner, r, hn, _, heq⟩ | ⟨heq, hnone⟩
  · rw [heq]
    have howed (g u : Nat) : ((s'.setScreen n r).enqueue [.wake owner]).owed g u = s'.owed g u := by
      rw [owed, owed, queue_enqueue, List.count_append]
      simp
      rfl
    have hinformed {v : Nat} {tick : Tick} (hne : tick ≠ .relay n) (hv : s.Informed v tick) :
        ((s'.setScreen n r).enqueue [.wake owner]).Informed v tick :=
      (hpop.informed hne hv).mono rfl (List.mem_append_left _) id
    have hqueue {v : Nat} (hv : .wake v ∈ s.queue) : .wake v ∈ s'.queue ++ [.wake owner] :=
      List.mem_append_left _ (hpop.mem_queue (by simp) hv)
    constructor
    · intro t p hp
      apply (hpop.owned (h.owners t p (hpop.phases ▸ hp))).mono
      · intro i c hc
        rw [Schedule.enqueue, screens_setScreen, hc]
        split
        · exact ⟨_, rfl, rfl⟩
        · exact ⟨_, rfl, rfl⟩
      · intro g group hg
        exact ⟨group, hg, rfl, rfl⟩
    · intro t p _ hp
      have howned := h.owners t p (hpop.phases ▸ hp)
      have hr := h.roused t p (by simp) (hpop.phases ▸ hp)
      cases p with
      | ready next => exact hqueue hr
      | awaiting v next => exact hinformed (by simp) hr
      | following i next =>
        obtain ⟨c, hc, hq⟩ := hr
        rw [Roused, Schedule.enqueue, screens_setScreen, hpop.screens, hc]
        by_cases hi : n = i
        · subst hi
          obtain ⟨_, hc', rfl⟩ := howned
          obtain rfl := Option.some.inj (hc.symm.trans hc')
          obtain rfl := Option.some.inj (hc.symm.trans (hpop.screens ▸ hn))
          refine ⟨_, by rw [if_pos rfl]; rfl, ?_⟩
          exact List.mem_append_right _ (List.mem_singleton_self _)
        · refine ⟨c, by rw [if_neg hi], ?_⟩
          split at hq
          · next hsome =>
            rw [if_pos hsome]
            exact hqueue hq
          · next hopen =>
            rw [if_neg hopen]
            exact hinformed (by simpa using Ne.symm hi) hq
      | gathering g next =>
        obtain ⟨group, hg, hq⟩ := hr
        exact ⟨group, hpop.groups ▸ hg, fun hsome => hqueue (hq hsome)⟩
      | draining g next =>
        obtain ⟨group, hg, hq⟩ := hr
        exact ⟨group, hpop.groups ▸ hg, fun hsome => hqueue (hq hsome)⟩
      | ended _ => trivial
    · intro g group hg
      obtain ⟨counted, hcounts⟩ := hpop.counts (by simp) h g group hg
      exact ⟨counted, hcounts.mono (howed g) fun _ _ => id⟩
    · exact hpop.homes h
    · intro g v hv
      apply hpop.arrived h g v
      simpa [setScreen] using hv
    · intro g v hv
      exact hpop.known h g v (howed g v ▸ hv)
  · rw [heq]
    refine ⟨?_, ?_, hpop.counts (by simp) h, hpop.homes h, hpop.arrived h, hpop.known h⟩
    · intro t p hp
      exact hpop.owned (h.owners t p (hpop.phases ▸ hp))
    · intro t p _ hp
      have hr := h.roused t p (by simp) (hpop.phases ▸ hp)
      by_cases hi : ∃ next, p = .following n next
      · obtain ⟨next, rfl⟩ := hi
        obtain ⟨c, hc, hq⟩ := hr
        refine ⟨c, hpop.screens ▸ hc, ?_⟩
        split at hq
        · next hsome =>
          rw [if_pos hsome]
          exact hpop.mem_queue (by simp) hq
        · next hopen =>
          have hrun := hnone c (hpop.screens ▸ hc) (by simpa using hopen)
          rw [Informed, ← hpop.outcome?, hrun] at hq
          rw [if_neg hopen, Informed, hrun, hpop.listeners]
          exact hq
      · apply hpop.roused hr (by simp)
        intro i next hp heq
        cases heq
        exact hi ⟨next, hp⟩

end Relay

end Polyglot.Loop.Schedule
