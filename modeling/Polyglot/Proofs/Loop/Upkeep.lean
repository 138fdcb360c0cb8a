import Polyglot.Proofs.Loop.Contract

/-!
A loop whose tasks keep a contract keeps it, whatever tick is fired next: the shared state is in order
whenever no task runs, and every result is one that its task has promised.
-/

namespace Polyglot.Loop.Schedule

variable {σ ε ρ : Type} {s s' : Schedule σ ε ρ} {c : Contract σ ρ} {ps : Promises ρ}
variable {busy : Option Nat} {t : Nat} {q : ρ → Prop}

section Running

theorem Upholds.changeShared (h : Upholds c busy ps s) (x : σ) :
    Upholds c busy ps { s with shared := x } where
  tidy := h.tidy.changeShared x
  length := h.length
  phases := by
    intro u p q hu hp hq
    exact (h.phases u p q hu hp hq).mono List.prefix_rfl (Stands.of_eq rfl rfl)
  backed := h.backed.of_eq rfl rfl

theorem Upholds.cancels (h : Upholds c busy ps s) (hc : Cancels s s') : Upholds c busy ps s' where
  tidy := h.tidy.cancels hc
  length := by rw [hc.phases, h.length]
  phases := by
    intro u p q hu hp hq
    rw [hc.phases] at hp
    exact (h.phases u p q hu hp hq).mono List.prefix_rfl (Stands.cancels hc)
  backed := h.backed.cancels hc

theorem Upholds.spawn (h : Upholds c busy ps s) (child : Routine σ ε ρ) {q : ρ → Prop}
    (hchild : ∀ ps' x, ps ++ [q] <+: ps' → c.inv ps' x → child.Keeps c ps.length q ps' x) :
    Upholds c busy (ps ++ [q])
      ((s.addTask ⟨.ready child, [], false⟩).enqueue [.wake s.tasks.length]) where
  tidy := h.tidy.spawn child
  length := by
    rw [phases_enqueue, phases_addTask, List.length_append, List.length_append, h.length]
    rfl
  phases := by
    intro u p q' hu hp hq'
    rw [phases_enqueue, phases_addTask, List.getElem?_append] at hp
    split at hp
    · next hlt =>
      rw [List.getElem?_append_left (h.length ▸ hlt)] at hq'
      exact (h.phases u p q' hu hp hq').mono (List.prefix_append _ _) (Stands.of_eq rfl rfl)
    · next hge =>
      have hlt := (List.getElem?_eq_some_iff.mp hp).1
      simp only [List.length_singleton] at hlt
      obtain rfl : u = ps.length := by
        rw [h.length]
        omega
      rw [List.getElem?_concat_length] at hq'
      obtain rfl := Option.some.inj hq'
      obtain rfl : p = .ready child := List.mem_singleton.mp (List.mem_of_getElem? hp)
      exact hchild
  backed := (h.backed.mono (List.prefix_append _ _)).of_eq rfl rfl

theorem Upholds.settle (h : Upholds c (some t) ps s) (hq : ps[t]? = some q) {p : Phase σ ε ρ}
    (htidy : Tidy none s') (hphases : s'.phases = s.phases.set t p) (hs : Stands s s')
    (hbacked : Backed ps s') (hp : PhaseKeeps c ps s' t q p) : Upholds c none ps s' where
  tidy := htidy
  length := by rw [hphases, List.length_set, h.length]
  phases := by
    intro u p' q' _ hp' hq'
    rw [hphases, List.getElem?_set] at hp'
    split at hp'
    · next htu =>
      subst htu
      split at hp'
      · obtain rfl := Option.some.inj hp'
        obtain rfl := Option.some.inj (hq.symm.trans hq')
        exact hp
      · cases hp'
    · next htu =>
      exact (h.phases u p' q' (by simpa using htu) hp' hq').mono List.prefix_rfl hs
  backed := hbacked

theorem Upholds.assemble (h : Upholds c (some t) ps s) (ht : s.Running t) (hq : ps[t]? = some q)
    {us : List Nat} (hne : us ≠ []) (hus : ∀ u ∈ us, u < ps.length) (drains : Bool)
    (phase : Nat → Phase σ ε ρ)
    (hphase : (∃ next, phase = (.gathering · next) ∧ drains = false) ∨
      ∃ next, phase = (.draining · next) ∧ drains = true)
    (hp : ∀ s', s'.groups[s.groups.length]? = some ⟨us, t, drains, 0, false, none⟩ →
      PhaseKeeps c ps s' t q (phase s.groups.length)) :
    Upholds c none ps (s.assemble t us drains phase) := by
  have hgroups := groups_assemble s t us drains phase
  have hscreens := screens_assemble s t us drains phase
  apply h.settle hq (h.tidy.assemble ht hne (h.length ▸ hus) drains phase hphase)
  · exact phases_assemble s t us drains phase
  · refine ⟨?_, ?_⟩
    · intro g group hg
      refine ⟨group, ?_, rfl⟩
      rw [hgroups, List.getElem?_append_left (List.getElem?_eq_some_iff.mp hg).1, hg]
    · intro n screen hn
      exact ⟨screen, hscreens ▸ hn, rfl⟩
  · exact (h.backed.addGroup hus).of_eq hgroups hscreens
  · apply hp
    rw [hgroups, List.getElem?_concat_length]

theorem Upholds.finish (h : Upholds c (some t) ps s) (ht : s.Running t) (hq : ps[t]? = some q)
    {r : Except (Stop ε) ρ} (hr : ∀ v, r = .ok v → q v) : Upholds c none ps (s.finish t r) := by
  apply h.settle hq (h.tidy.finish ht r)
  · exact phases_setPhase s t _
  · exact Stands.of_eq rfl rfl
  · exact h.backed.of_eq rfl rfl
  · exact hr

theorem Upholds.pause (h : Upholds c (some t) ps s) (ht : s.Running t) (hq : ps[t]? = some q)
    {next : Routine σ ε ρ} (hnext : PhaseKeeps c ps s t q (.ready next)) :
    Upholds c none ps ((s.setPhase t (.ready next)).enqueue [.wake t]) := by
  apply h.settle hq (p := .ready next)
  · exact (h.tidy.wake t).settle ht rfl trivial (List.mem_append_right _ (by simp))
  · exact phases_setPhase s t _
  · exact Stands.of_eq rfl rfl
  · exact h.backed.of_eq rfl rfl
  · exact hnext

theorem Upholds.await (h : Upholds c (some t) ps s) (ht : s.Running t) (hq : ps[t]? = some q) {u : Nat}
    (hu : u < ps.length) {next : Except (Stop ε) ρ → Routine σ ε ρ}
    (hnext : PhaseKeeps c ps s t q (.awaiting u next)) :
    Upholds c none ps ((s.listen u (.wake t)).setPhase t (.awaiting u next)) := by
  apply h.settle hq (h.tidy.await ht (h.length ▸ hu) next)
  · rw [phases_setPhase, phases_listen]
  · exact Stands.of_eq (groups_listen s u _) (screens_listen s u _)
  · exact h.backed.of_eq (groups_listen s u _) (screens_listen s u _)
  · exact hnext

theorem Upholds.follow (h : Upholds c (some t) ps s) (ht : s.Running t) (hq : ps[t]? = some q) {u : Nat}
    (hu : u < ps.length) (hwaits : c.waits t u) {next : Except (Stop ε) ρ → Routine σ ε ρ}
    (hnext : ∀ ps' x r, ps <+: ps' → c.inv ps' x → (∀ v, r = .ok v → Fits ps' u v) →
      (next r).Keeps c t q ps' x) :
    Upholds c none ps (((s.addScreen ⟨u, t, none⟩).listen u (.relay s.screens.length)).setPhase t
      (.following s.screens.length next)) := by
  apply h.settle hq (h.tidy.follow ht (h.length ▸ hu) next)
  · exact phases_follow s u t _ _
  · exact .follow s u t _ _
  · exact (h.backed.addScreen hu).of_eq (groups_follow s u t _ _) (screens_follow s u t _ _)
  · refine ⟨⟨u, t, none⟩, ?_, hwaits, hnext⟩
    rw [screens_follow, List.getElem?_concat_length]

theorem Upholds.exec (r : Routine σ ε ρ) (h : Upholds c (some t) ps s) (ht : s.Running t)
    (hq : ps[t]? = some q) (hr : r.Keeps c t q ps s.shared) :
    ∃ ps', ps <+: ps' ∧ Upholds c none ps' (s.exec t r) ∧ c.inv ps' (s.exec t r).shared ∧
      c.step s.shared (s.exec t r).shared := by
  induction r generalizing s ps with
  | finish r => exact ⟨ps, List.prefix_rfl, h.finish ht hq hr.2, hr.1, c.refl _⟩
  | pause next ih => exact ⟨ps, List.prefix_rfl, h.pause ht hq hr.2, hr.1, c.refl _⟩
  | look next ih => exact ih s.shared h ht hq hr
  | change f next ih =>
    obtain ⟨ps', hps, hup, hinv, hstep⟩ := ih (h.changeShared (f s.shared)) ht hq hr.2
    exact ⟨ps', hps, hup, hinv, c.trans hr.1 hstep⟩
  | spawn child next _ ih =>
    obtain ⟨q', hchild, hnext⟩ := hr
    have hlen : ps.length = s.tasks.length := by rw [h.length, length_phases]
    rw [hlen] at hnext
    obtain ⟨ps', hps, hrest⟩ := ih s.tasks.length (h.spawn child hchild) (ht.spawn child _)
      (by rw [List.getElem?_append_left (h.length ▸ ht.1), hq]) hnext
    exact ⟨ps', (List.prefix_append _ _).trans hps, hrest⟩
  | await u next ih =>
    obtain ⟨hinv, hu, hwaits, hnext⟩ := hr
    simp only [Schedule.exec]
    split
    · next r ho =>
      apply ih r h ht hq
      apply hnext ps s.shared r List.prefix_rfl hinv
      rintro v rfl
      exact h.fit_of_running ht ho
    · rw [shared_await]
      exact ⟨ps, List.prefix_rfl, h.await ht hq hu ⟨hwaits, hnext⟩, hinv, c.refl _⟩
  | follow u next ih =>
    obtain ⟨hinv, hu, hwaits, hnext⟩ := hr
    simp only [Schedule.exec]
    split
    · next r ho =>
      apply ih r h ht hq
      apply hnext ps s.shared r List.prefix_rfl hinv
      rintro v rfl
      exact h.fit_of_running ht ho
    · rw [shared_follow]
      exact ⟨ps, List.prefix_rfl, h.follow ht hq hu hwaits hnext, hinv, c.refl _⟩
  | gather us next ih =>
    obtain ⟨hinv, hus, hnext⟩ := hr
    simp only [Schedule.exec]
    split
    · next hnil =>
      obtain rfl := List.isEmpty_iff.mp hnil
      apply ih (.ok []) h ht hq
      apply hnext ps s.shared _ List.prefix_rfl hinv
      rintro vs ⟨⟩
      exact .nil
    · next hne =>
      rw [shared_assemble]
      refine ⟨ps, List.prefix_rfl, ?_, hinv, c.refl _⟩
      apply h.assemble ht hq (by simpa using hne) fun u hu => (hus u hu).1
      · exact .inl ⟨next, rfl, rfl⟩
      · exact fun s' hs' => ⟨_, hs', fun u hu => (hus u hu).2, hnext⟩
  | drain us next ih =>
    obtain ⟨hinv, hus, hnext⟩ := hr
    simp only [Schedule.exec]
    split
    · exact ih (.ok ()) h ht hq (hnext ps s.shared _ List.prefix_rfl hinv)
    · next hne =>
      have hc := cancels_cancelAll s us
      rw [shared_assemble, hc.shared]
      refine ⟨ps, List.prefix_rfl, ?_, hinv, c.refl _⟩
      apply (h.cancels hc).assemble (hc.running ht) hq (by simpa using hne) fun u hu => (hus u hu).1
      · exact .inr ⟨next, rfl, rfl⟩
      · exact fun s' hs' => ⟨_, hs', fun u hu => (hus u hu).2, hnext⟩

end Running

section Pops

variable {tick : Tick}

theorem Upholds.pop (h : Upholds c none ps s) (hpop : Pops tick s s') {busy : Option Nat}
    (htidy : Tidy busy s') : Upholds c busy ps s' where
  tidy := htidy
  length := by rw [hpop.phases, h.length]
  phases := by
    intro u p q _ hp hq
    rw [hpop.phases] at hp
    exact (h.phases u p q (by simp) hp hq).mono List.prefix_rfl
      (Stands.of_eq hpop.groups hpop.screens)
  backed := h.backed.of_eq hpop.groups hpop.screens

theorem Upholds.rest (h : Upholds c (some t) ps s)
    (hroused : ∀ p, s.phases[t]? = some p → Roused s t p)
    (hkeeps : ∀ p q, s.phases[t]? = some p → ps[t]? = some q → PhaseKeeps c ps s t q p) :
    Upholds c none ps s where
  tidy := h.tidy.rest hroused
  length := h.length
  phases := by
    intro u p q _ hp hq
    by_cases hu : t = u
    · subst hu
      exact hkeeps p q hp hq
    · exact h.phases u p q (by simpa using hu) hp hq
  backed := h.backed

/--
What a task hears when it is woken, if there is any news. A task that is about to start or to go on
needs none.
-/
def hears (s : Schedule σ ε ρ) (cut : Bool) : Phase σ ε ρ → Option (Routine σ ε ρ)
  | .ready next => some (if cut then .finish (.error .cancelled) else next)
  | .awaiting u next =>
    (if cut then some (.error .cancelled) else s.outcome? u).map next
  | .following n next =>
    (if cut then some (.error .cancelled) else (s.screens[n]?).bind (·.outcome)).map next
  | .gathering g next =>
    (if cut then some (.error .cancelled) else (s.groups[g]?).bind (·.outcome)).map next
  | .draining g next =>
    (if cut then some (.error .cancelled)
      else ((s.groups[g]?).bind (·.outcome)).map fun r => r.map fun _ => ()).map next
  | .ended _ => none

theorem wake_eq {task : Task σ ε ρ} (htask : s.tasks[t]? = some task) :
    s.wake t =
      let s' := s.updateTask t fun task => { task with cancelled := false }
      match s'.hears task.cancelled task.phase with
      | some next => s'.exec t next
      | none => s' := by
  simp only [wake, htask]
  generalize s.updateTask t (fun task => { task with cancelled := false }) = s'
  cases task.phase with
  | ready next => cases task.cancelled <;> rfl
  | ended r => rfl
  | awaiting u next =>
    cases task.cancelled
    · simp only [hears, Bool.false_eq_true, ↓reduceIte]
      cases s'.outcome? u <;> rfl
    · rfl
  | following n next =>
    cases task.cancelled
    · simp only [hears, Bool.false_eq_true, ↓reduceIte]
      cases (s'.screens[n]?).bind (·.outcome) <;> rfl
    · rfl
  | gathering g next =>
    cases task.cancelled
    · simp only [hears, Bool.false_eq_true, ↓reduceIte]
      cases (s'.groups[g]?).bind (·.outcome) <;> rfl
    · rfl
  | draining g next =>
    cases task.cancelled
    · simp only [hears, Bool.false_eq_true, ↓reduceIte]
      cases (s'.groups[g]?).bind (·.outcome) <;> rfl
    · rfl

theorem hears_false {cut : Bool} {p : Phase σ ε ρ} (h : s.hears cut p = none) :
    s.hears false p = none := by
  cases cut
  · exact h
  · cases p with
    | ended r => rfl
    | ready next => cases h
    | awaiting u next => cases h
    | following n next => cases h
    | gathering g next => cases h
    | draining g next => cases h

theorem not_ended_of_hears {cut : Bool} {p : Phase σ ε ρ} {next : Routine σ ε ρ}
    (h : s.hears cut p = some next) : p.isEnded = false := by
  cases p with
  | ended r => cases h
  | ready next => rfl
  | awaiting u next => rfl
  | following n next => rfl
  | gathering g next => rfl
  | draining g next => rfl

theorem hears_updateTask (f : Task σ ε ρ → Task σ ε ρ) (hf : ∀ task, (f task).phase = task.phase)
    (cut : Bool) (p : Phase σ ε ρ) : (s.updateTask t f).hears cut p = s.hears cut p := by
  have houtcome : (s.updateTask t f).outcome? = s.outcome? := by
    funext u
    rw [outcome?_eq, outcome?_eq, phases_updateTask s t f hf]
  cases p with
  | awaiting u next => rw [hears, hears, houtcome]
  | ended r => rfl
  | ready next => rfl
  | following n next => rfl
  | gathering g next => rfl
  | draining g next => rfl

theorem Roused.unheard {p : Phase σ ε ρ} (hroused : Roused s t p) (hpop : Pops (.wake t) s s')
    (hnone : s'.hears false p = none) : Roused s' t p := by
  cases p with
  | ready next => cases hnone
  | ended r => trivial
  | awaiting u next =>
    have ho : s'.outcome? u = none := by simpa [hears] using hnone
    rw [Roused, Informed, ← hpop.outcome?, ho] at hroused
    rw [Roused, Informed, ho, hpop.listeners]
    exact hroused
  | following n next =>
    obtain ⟨screen, hn, hq⟩ := hroused
    have ho : screen.outcome = none := by simpa [hears, hpop.screens, hn] using hnone
    simp only [ho, Option.isSome_none, Bool.false_eq_true, ↓reduceIte] at hq
    refine ⟨screen, hpop.screens ▸ hn, ?_⟩
    simp only [ho, Option.isSome_none, Bool.false_eq_true, ↓reduceIte]
    exact hpop.informed (by simp) hq
  | gathering g next =>
    obtain ⟨group, hg, _⟩ := hroused
    have ho : group.outcome = none := by simpa [hears, hpop.groups, hg] using hnone
    exact ⟨group, hpop.groups ▸ hg, by simp [ho]⟩
  | draining g next =>
    obtain ⟨group, hg, _⟩ := hroused
    have ho : group.outcome = none := by simpa [hears, hpop.groups, hg] using hnone
    exact ⟨group, hpop.groups ▸ hg, by simp [ho]⟩

theorem Upholds.hears (h : Upholds c (some t) ps s) {cut : Bool} {p : Phase σ ε ρ}
    (ht : s.Running t) (howned : Owned s t p) (hp : PhaseKeeps c ps s t q p)
    (hinv : c.inv ps s.shared) {next : Routine σ ε ρ} (hnext : s.hears cut p = some next) :
    next.Keeps c t q ps s.shared := by
  cases p with
  | ready next =>
    cases cut
    · obtain rfl := Option.some.inj hnext
      exact hp ps s.shared List.prefix_rfl hinv
    · obtain rfl := Option.some.inj hnext
      exact ⟨hinv, by rintro v ⟨⟩⟩
  | ended r => cases hnext
  | awaiting u next =>
    obtain ⟨r, hr, rfl⟩ := Option.map_eq_some_iff.mp hnext
    apply hp.2 ps s.shared r List.prefix_rfl hinv
    rintro v rfl
    cases cut
    · exact h.fit_of_running ht hr
    · cases hr
  | following n next =>
    obtain ⟨screen, hn, _, hkeeps⟩ := hp
    obtain ⟨r, hr, rfl⟩ := Option.map_eq_some_iff.mp hnext
    apply hkeeps ps s.shared r List.prefix_rfl hinv
    rintro v rfl
    cases cut
    · exact h.backed.news n screen v hn (by simpa [hn] using hr)
    · cases hr
  | gathering g next =>
    obtain ⟨group, hg, _, hkeeps⟩ := hp
    obtain ⟨r, hr, rfl⟩ := Option.map_eq_some_iff.mp hnext
    apply hkeeps ps s.shared r List.prefix_rfl hinv
    rintro vs rfl
    obtain ⟨_, hg', _, hdrains⟩ := howned
    obtain rfl := Option.some.inj (hg.symm.trans hg')
    cases cut
    · exact h.backed.results g group vs hg hdrains (by simpa [hg] using hr)
    · cases hr
  | draining g next =>
    obtain ⟨group, hg, _, hkeeps⟩ := hp
    obtain ⟨r, hr, rfl⟩ := Option.map_eq_some_iff.mp hnext
    exact hkeeps ps s.shared r List.prefix_rfl hinv

theorem Upholds.wake (h : Upholds c none ps s) (hpop : Pops (.wake t) s s')
    (hinv : c.inv ps s.shared) :
    ∃ ps', ps <+: ps' ∧ Upholds c none ps' (s'.wake t) ∧ c.inv ps' (s'.wake t).shared ∧
      c.step s.shared (s'.wake t).shared := by
  have hup := h.pop hpop (h.tidy.wakes hpop)
  have hold : c.inv ps s'.shared := hpop.shared ▸ hinv
  cases htask : s'.tasks[t]? with
  | none =>
    have hphase : s'.phases[t]? = none := by rw [phases_getElem?, htask, Option.map_none]
    have heq : s'.wake t = s' := by simp only [Schedule.wake, htask]
    rw [heq, ← hpop.shared]
    refine ⟨ps, List.prefix_rfl, hup.rest ?_ ?_, hold, c.refl _⟩
    · intro p hp
      rw [hphase] at hp
      cases hp
    · intro p q hp
      rw [hphase] at hp
      cases hp
  | some task =>
    have hc := Cancels.clear s' t
    have hp : s'.phases[t]? = some task.phase := by rw [phases_getElem?, htask, Option.map_some]
    have hphase {p : Phase σ ε ρ} (hp' : s'.phases[t]? = some p) : p = task.phase :=
      Option.some.inj (hp'.symm.trans hp)
    have hold' := hpop.phases ▸ hp
    have hkeeps {q : ρ → Prop} (hq : ps[t]? = some q) : PhaseKeeps c ps s' t q task.phase :=
      (h.phases t _ q (by simp) hold' hq).mono List.prefix_rfl
        (Stands.of_eq hpop.groups hpop.screens)
    have hsame := hears_updateTask (s := s') (t := t)
      (fun task => { task with cancelled := false }) fun _ => rfl
    rw [wake_eq htask]
    simp only [hsame]
    split
    · next next hnext =>
      have hlt := (List.getElem?_eq_some_iff.mp hp).1
      have ht := running_of_not_ended hp (not_ended_of_hears hnext)
      have hq := List.getElem?_eq_getElem (hup.length ▸ hlt)
      have hnext' := hup.hears ht (hup.tidy.owners t _ hp) (hkeeps hq) hold hnext
      rw [← hpop.shared]
      exact (hup.cancels hc).exec next (hc.running ht) hq hnext'
    · next hnone =>
      rw [← hpop.shared]
      refine ⟨ps, List.prefix_rfl, (hup.rest ?_ ?_).cancels hc, hold, c.refl _⟩
      · intro p hp'
        rw [hphase hp']
        exact (h.tidy.roused t _ (by simp) hold').unheard hpop (hears_false hnone)
      · intro p q hp' hq
        rw [hphase hp']
        exact hkeeps hq

theorem Stands.tally (s : Schedule σ ε ρ) (g : Nat) (o : Option (Except (Stop ε) (List ρ)))
    (ts : List Nat) : Stands s ((s.tally g o).enqueue (ts.map .wake)) where
  groups := by
    intro i group hi
    rw [enqueue, groups_tally, hi]
    split
    · exact ⟨_, rfl, rfl⟩
    · exact ⟨_, rfl, rfl⟩
  screens := fun n screen hn => ⟨screen, hn, rfl⟩

theorem Upholds.still (h : Upholds c none ps s) (htidy : Tidy none s') (hphases : s'.phases = s.phases)
    (hs : Stands s s') (hbacked : Backed ps s') : Upholds c none ps s' where
  tidy := htidy
  length := by rw [hphases, h.length]
  phases := by
    intro u p q hu hp hq
    rw [hphases] at hp
    exact (h.phases u p q hu hp hq).mono List.prefix_rfl hs
  backed := hbacked

theorem Upholds.member {g : Nat} (h : Upholds c none ps s) (hpop : Pops (.member g t) s s') :
    Upholds c none ps (s'.member g t) := by
  have hbacked : Backed ps s' := h.backed.of_eq hpop.groups hpop.screens
  cases hg : s'.groups[g]? with
  | none =>
    have heq : s'.member g t = s' := by simp [Schedule.member, hg]
    rw [heq]
    exact h.pop hpop (heq ▸ h.tidy.member hpop)
  | some group =>
    have hup (o : Option (Except (Stop ε) (List ρ))) (ts : List Nat)
        (heq : s'.member g t = (s'.tally g o).enqueue (ts.map .wake))
        (ho : group.drains = false → ∀ vs, o = some (.ok vs) →
          List.Forall₂ (Fits ps) group.members vs) : Upholds c none ps (s'.member g t) := by
      have hstands : Stands s (s'.member g t) := by
        rw [heq]
        have := Stands.tally s' g o ts
        exact ⟨fun i group hi => this.groups i group (hpop.groups ▸ hi),
          fun n screen hn => this.screens n screen (hpop.screens ▸ hn)⟩
      apply h.still (h.tidy.member hpop) _ hstands
      · rw [heq]
        refine ⟨?_, ?_, hbacked.behind, hbacked.news⟩
        · intro i new hi
          rw [enqueue, groups_tally] at hi
          split at hi
          · obtain ⟨old, hold, rfl⟩ := Option.map_eq_some_iff.mp hi
            exact hbacked.members i old hold
          · exact hbacked.members i new hi
        · intro i new vs hi hdrains hvs
          rw [enqueue, groups_tally] at hi
          split at hi
          · next hgi =>
            subst hgi
            rw [hg] at hi
            obtain rfl := Option.some.inj hi
            exact ho hdrains vs hvs
          · exact hbacked.results i new vs hi hdrains hvs
      · rw [heq]
        exact hpop.phases
    have hquiet (o : Option (Except (Stop ε) (List ρ))) :
        s'.tally g o = (s'.tally g o).enqueue (([] : List Nat).map .wake) := by
      simp [Schedule.enqueue]
    rcases member_cases hg with ⟨_, heq⟩ | ⟨_, _, _, heq⟩ | ⟨hopen, r, hsettles, heq⟩
    · apply hup group.outcome [] (heq.trans (hquiet _))
      exact fun hdrains vs hvs => hbacked.results g group vs hg hdrains hvs
    · apply hup none [] (heq.trans (hquiet _))
      rintro _ vs ⟨⟩
    · apply hup (some r) [group.owner] heq
      rintro hdrains vs ⟨⟩
      obtain ⟨hlen, rfl, hfine⟩ := hsettles.ok vs rfl
      have hended := h.tidy.all_ended hpop (hpop.groups ▸ hg) hopen hdrains hlen (hfine hdrains)
      apply (forall₂_results s' hended).imp
      intro u v hv
      exact h.fit (by simp) (hpop.outcome? ▸ hv)

theorem Upholds.relay {n : Nat} (h : Upholds c none ps s) (hpop : Pops (.relay n) s s') :
    Upholds c none ps (s'.relay n) := by
  have hbacked : Backed ps s' := h.backed.of_eq hpop.groups hpop.screens
  have htidy := h.tidy.relay hpop
  rcases relay_cases s' n with ⟨u, owner, r, hn, hr, heq⟩ | ⟨heq, _⟩
  · rw [heq] at htidy ⊢
    apply h.still htidy hpop.phases
    · refine ⟨fun g group hg => ⟨group, hpop.groups ▸ hg, rfl⟩, ?_⟩
      intro i screen hi
      rw [enqueue, screens_setScreen, hpop.screens, hi]
      split
      · exact ⟨_, rfl, rfl⟩
      · exact ⟨_, rfl, rfl⟩
    · refine ⟨hbacked.members, hbacked.results, ?_, ?_⟩
      · intro i new hi
        rw [enqueue, screens_setScreen] at hi
        split at hi
        · obtain ⟨old, hold, rfl⟩ := Option.map_eq_some_iff.mp hi
          exact hbacked.behind i old hold
        · exact hbacked.behind i new hi
      · intro i new v hi hv
        rw [enqueue, screens_setScreen] at hi
        split at hi
        · next hni =>
          subst hni
          rw [hn] at hi
          obtain rfl := Option.some.inj hi
          obtain rfl := Option.some.inj hv
          exact h.fit (by simp) (hpop.outcome? ▸ hr)
        · exact hbacked.news i new v hi hv
  · rw [heq] at htidy ⊢
    exact h.pop hpop htidy

theorem shared_member (s : Schedule σ ε ρ) (g t : Nat) : (s.member g t).shared = s.shared := by
  cases hg : s.groups[g]? with
  | none => simp [member, hg]
  | some group =>
    rcases member_cases hg with ⟨_, heq⟩ | ⟨_, _, _, heq⟩ | ⟨_, r, _, heq⟩
    · rw [heq]
      rfl
    · rw [heq]
      rfl
    · rw [heq]
      rfl

theorem shared_relay (s : Schedule σ ε ρ) (n : Nat) : (s.relay n).shared = s.shared := by
  rcases relay_cases s n with ⟨_, _, r, _, _, heq⟩ | ⟨heq, _⟩
  · rw [heq]
    rfl
  · rw [heq]

theorem Upholds.fireAt (h : Upholds c none ps s) (hinv : c.inv ps s.shared) (i : Nat) :
    ∃ ps', ps <+: ps' ∧ Upholds c none ps' (s.fireAt i) ∧ c.inv ps' (s.fireAt i).shared ∧
      c.step s.shared (s.fireAt i).shared := by
  rw [Schedule.fireAt]
  split
  · exact ⟨ps, List.prefix_rfl, h, hinv, c.refl _⟩
  · next tick htick =>
    have hpop := Pops.eraseIdx htick
    cases tick with
    | wake t => exact h.wake hpop hinv
    | member g t =>
      rw [fire, shared_member]
      exact ⟨ps, List.prefix_rfl, h.member hpop, hinv, c.refl _⟩
    | relay n =>
      rw [fire, shared_relay]
      exact ⟨ps, List.prefix_rfl, h.relay hpop, hinv, c.refl _⟩

end Pops

theorem tidy_of_empty (x : σ) : Tidy none ({ shared := x } : Schedule σ ε ρ) := by
  refine ⟨?_, ?_, ?_, ?_, ?_, ?_⟩
  · intro t p hp
    cases hp
  · intro t p _ hp
    cases hp
  · intro g group hg
    cases hg
  · intro u g v hv
    cases hv
  · intro g u hu
    cases hu
  · intro g u hu
    exact absurd rfl hu

theorem upholds_of_empty (c : Contract σ ρ) (x : σ) :
    Upholds c none [] ({ shared := x } : Schedule σ ε ρ) where
  tidy := tidy_of_empty x
  length := rfl
  phases := by
    intro t p q _ hp
    cases hp
  backed := by
    refine ⟨?_, ?_, ?_, ?_⟩
    · intro g group hg
      cases hg
    · intro g group vs hg
      cases hg
    · intro n screen hn
      cases hn
    · intro n screen v hn
      cases hn

end Polyglot.Loop.Schedule
