import Polyglot.Proofs.Loop.Pop

/-!
Contracts: what tasks may count on from each other, and what each of them promises.

A task owns the shared state while it runs, so what holds of that state has to hold only where a task
pauses, waits or ends. A task that waits for another one may count on what that one has promised.
-/

namespace Polyglot.Loop

variable {σ ε ρ : Type}

abbrev Promises (ρ : Type) := List (ρ → Prop)

def Fits (ps : Promises ρ) (u : Nat) (v : ρ) : Prop := ∃ q, ps[u]? = some q ∧ q v

/--
The terms on which tasks share a state: what holds of it whenever no task runs, how a task may change
it from one such moment to the next, and who may wait for whom. A task may wait for any that started
after it.
-/
structure Contract (σ ρ : Type) where
  inv : Promises ρ → σ → Prop
  step : σ → σ → Prop
  waits : Nat → Nat → Prop
  mono : ∀ {ps ps' x}, ps <+: ps' → inv ps x → inv ps' x
  refl : ∀ x, step x x
  trans : ∀ {x y z}, step x y → step y z → step x z
  later : ∀ {t u}, t < u → waits t u

def Routine.Keeps (c : Contract σ ρ) (t : Nat) (p : ρ → Prop) :
    Routine σ ε ρ → Promises ρ → σ → Prop
  | .finish r, ps, x => c.inv ps x ∧ ∀ v, r = .ok v → p v
  | .pause next, ps, x =>
    c.inv ps x ∧ ∀ ps' x', ps <+: ps' → c.inv ps' x' → next.Keeps c t p ps' x'
  | .look next, ps, x => (next x).Keeps c t p ps x
  | .change f next, ps, x => c.step x (f x) ∧ next.Keeps c t p ps (f x)
  | .spawn child next, ps, x =>
    ∃ q, (∀ ps' x', ps ++ [q] <+: ps' → c.inv ps' x' → child.Keeps c ps.length q ps' x') ∧
      (next ps.length).Keeps c t p (ps ++ [q]) x
  | .await u next, ps, x =>
    c.inv ps x ∧ u < ps.length ∧ c.waits t u ∧ ∀ ps' x' r, ps <+: ps' → c.inv ps' x' →
      (∀ v, r = .ok v → Fits ps' u v) → (next r).Keeps c t p ps' x'
  | .follow u next, ps, x =>
    c.inv ps x ∧ u < ps.length ∧ c.waits t u ∧ ∀ ps' x' r, ps <+: ps' → c.inv ps' x' →
      (∀ v, r = .ok v → Fits ps' u v) → (next r).Keeps c t p ps' x'
  | .gather us next, ps, x =>
    c.inv ps x ∧ (∀ u ∈ us, u < ps.length ∧ c.waits t u) ∧ ∀ ps' x' r, ps <+: ps' →
      c.inv ps' x' → (∀ vs, r = .ok vs → List.Forall₂ (Fits ps') us vs) →
      (next r).Keeps c t p ps' x'
  | .drain us next, ps, x =>
    c.inv ps x ∧ (∀ u ∈ us, u < ps.length ∧ c.waits t u) ∧ ∀ ps' x' r, ps <+: ps' →
      c.inv ps' x' → (next r).Keeps c t p ps' x'

theorem Fits.mono {ps ps' : Promises ρ} {u : Nat} {v : ρ} (h : Fits ps u v)
    (hps : ps <+: ps') : Fits ps' u v := by
  obtain ⟨q, hq, hv⟩ := h
  obtain ⟨more, rfl⟩ := hps
  rw [Fits, List.getElem?_append_left (List.getElem?_eq_some_iff.mp hq).1]
  exact ⟨q, hq, hv⟩

namespace Schedule

variable {s s' : Schedule σ ε ρ} {c : Contract σ ρ} {ps ps' : Promises ρ} {busy : Option Nat}

def PhaseKeeps (c : Contract σ ρ) (ps : Promises ρ) (s : Schedule σ ε ρ) (t : Nat) (p : ρ → Prop) :
    Phase σ ε ρ → Prop
  | .ready next => ∀ ps' x, ps <+: ps' → c.inv ps' x → next.Keeps c t p ps' x
  | .awaiting u next => c.waits t u ∧ ∀ ps' x r, ps <+: ps' → c.inv ps' x →
      (∀ v, r = .ok v → Fits ps' u v) → (next r).Keeps c t p ps' x
  | .following n next => ∃ screen, s.screens[n]? = some screen ∧ c.waits t screen.task ∧
      ∀ ps' x r, ps <+: ps' → c.inv ps' x → (∀ v, r = .ok v → Fits ps' screen.task v) →
      (next r).Keeps c t p ps' x
  | .gathering g next => ∃ group, s.groups[g]? = some group ∧ (∀ u ∈ group.members, c.waits t u) ∧
      ∀ ps' x r, ps <+: ps' → c.inv ps' x →
      (∀ vs, r = .ok vs → List.Forall₂ (Fits ps') group.members vs) → (next r).Keeps c t p ps' x
  | .draining g next => ∃ group, s.groups[g]? = some group ∧ (∀ u ∈ group.members, c.waits t u) ∧
      ∀ ps' x r, ps <+: ps' → c.inv ps' x → (next r).Keeps c t p ps' x
  | .ended r => ∀ v, r = .ok v → p v

/--
Groups and screens stand before tasks that there are, and what they pass on was promised.
-/
structure Backed (ps : Promises ρ) (s : Schedule σ ε ρ) : Prop where
  members : ∀ (g : Nat) (group : Group ε ρ), s.groups[g]? = some group →
    ∀ u ∈ group.members, u < ps.length
  results : ∀ (g : Nat) (group : Group ε ρ) vs, s.groups[g]? = some group →
    group.drains = false → group.outcome = some (.ok vs) →
    List.Forall₂ (Fits ps) group.members vs
  behind : ∀ (n : Nat) (screen : Screen ε ρ), s.screens[n]? = some screen →
    screen.task < ps.length
  news : ∀ (n : Nat) (screen : Screen ε ρ) v, s.screens[n]? = some screen →
    screen.outcome = some (.ok v) → Fits ps screen.task v

/--
The groups and screens of a schedule are still there in another one.
-/
structure Stands (s s' : Schedule σ ε ρ) : Prop where
  groups : ∀ (g : Nat) (group : Group ε ρ), s.groups[g]? = some group →
    ∃ group', s'.groups[g]? = some group' ∧ group'.members = group.members
  screens : ∀ (n : Nat) (screen : Screen ε ρ), s.screens[n]? = some screen →
    ∃ screen', s'.screens[n]? = some screen' ∧ screen'.task = screen.task

/--
All tasks keep a contract.
-/
structure Upholds (c : Contract σ ρ) (busy : Option Nat) (ps : Promises ρ) (s : Schedule σ ε ρ) :
    Prop where
  tidy : Tidy busy s
  length : ps.length = s.phases.length
  phases : ∀ t p q, busy ≠ some t → s.phases[t]? = some p → ps[t]? = some q →
    PhaseKeeps c ps s t q p
  backed : Backed ps s

section Boards

theorem Stands.of_eq (hgroups : s'.groups = s.groups) (hscreens : s'.screens = s.screens) :
    Stands s s' where
  groups := fun _ group hg => ⟨group, hgroups ▸ hg, rfl⟩
  screens := fun _ screen hn => ⟨screen, hscreens ▸ hn, rfl⟩

theorem Stands.follow (s : Schedule σ ε ρ) (u t : Nat) (tick : Tick) (p : Phase σ ε ρ) :
    Stands s (((s.addScreen ⟨u, t, none⟩).listen u tick).setPhase t p) where
  groups := fun _ group hg => ⟨group, groups_follow s u t tick p ▸ hg, rfl⟩
  screens := by
    intro n screen hn
    refine ⟨screen, ?_, rfl⟩
    rw [screens_follow, List.getElem?_append_left (List.getElem?_eq_some_iff.mp hn).1, hn]

theorem Stands.cancels (h : Cancels s s') : Stands s s' where
  groups := by
    intro g group hg
    obtain ⟨marked, hg'⟩ := h.group_of_old hg
    exact ⟨_, hg', rfl⟩
  screens := by
    intro n screen hn
    obtain ⟨screen', hn', hlift⟩ := h.screen_of_old hn
    refine ⟨screen', hn', ?_⟩
    rcases hlift with rfl | ⟨_, rfl, _⟩ <;> rfl

theorem Backed.of_eq (h : Backed ps s) (hgroups : s'.groups = s.groups)
    (hscreens : s'.screens = s.screens) : Backed ps s' where
  members := fun g group hg => h.members g group (hgroups ▸ hg)
  results := fun g group vs hg => h.results g group vs (hgroups ▸ hg)
  behind := fun n screen hn => h.behind n screen (hscreens ▸ hn)
  news := fun n screen v hn => h.news n screen v (hscreens ▸ hn)

theorem Backed.mono (h : Backed ps s) (hps : ps <+: ps') : Backed ps' s where
  members := fun g group hg u hu => Nat.lt_of_lt_of_le (h.members g group hg u hu) hps.length_le
  results := fun g group vs hg hdrains hvs =>
    (h.results g group vs hg hdrains hvs).imp fun _ _ hfit => hfit.mono hps
  behind := fun n screen hn => Nat.lt_of_lt_of_le (h.behind n screen hn) hps.length_le
  news := fun n screen v hn hv => (h.news n screen v hn hv).mono hps

theorem Backed.cancels (h : Backed ps s) (hc : Cancels s s') : Backed ps s' where
  members := by
    intro g group' hg'
    obtain ⟨group, hg, heq⟩ := hc.group hg'
    rw [heq]
    exact h.members g group hg
  results := by
    intro g group' vs hg'
    obtain ⟨group, hg, heq⟩ := hc.group hg'
    rw [heq]
    exact h.results g group vs hg
  behind := by
    intro n screen' hn'
    obtain ⟨screen, hn, hlift⟩ := hc.screens n screen' hn'
    rcases hlift with rfl | ⟨_, rfl, _⟩
    · exact h.behind n _ hn
    · exact h.behind n screen hn
  news := by
    intro n screen' v hn' hv
    obtain ⟨screen, hn, hlift⟩ := hc.screens n screen' hn'
    rcases hlift with rfl | ⟨_, rfl, _⟩
    · exact h.news n _ v hn hv
    · cases hv

theorem Backed.addScreen (h : Backed ps s) {u t : Nat} (hu : u < ps.length) :
    Backed ps (s.addScreen ⟨u, t, none⟩) := by
  have hcases {n : Nat} {screen : Screen ε ρ}
      (hn : (s.addScreen ⟨u, t, none⟩).screens[n]? = some screen) :
      s.screens[n]? = some screen ∨ screen = ⟨u, t, none⟩ := by
    rw [Schedule.addScreen, List.getElem?_append] at hn
    split at hn
    · exact .inl hn
    · exact .inr (List.mem_singleton.mp (List.mem_of_getElem? hn))
  refine ⟨h.members, h.results, ?_, ?_⟩
  · intro n screen hn
    rcases hcases hn with hn | rfl
    · exact h.behind n screen hn
    · exact hu
  · intro n screen v hn hv
    rcases hcases hn with hn | rfl
    · exact h.news n screen v hn hv
    · cases hv

theorem Backed.addGroup (h : Backed ps s) {us : List Nat} {t : Nat} {drains : Bool}
    (hus : ∀ u ∈ us, u < ps.length) : Backed ps (s.addGroup ⟨us, t, drains, 0, false, none⟩) := by
  have hcases {g : Nat} {group : Group ε ρ}
      (hg : (s.addGroup ⟨us, t, drains, 0, false, none⟩).groups[g]? = some group) :
      s.groups[g]? = some group ∨ group = ⟨us, t, drains, 0, false, none⟩ := by
    rw [Schedule.addGroup, List.getElem?_append] at hg
    split at hg
    · exact .inl hg
    · exact .inr (List.mem_singleton.mp (List.mem_of_getElem? hg))
  refine ⟨?_, ?_, h.behind, h.news⟩
  · intro g group hg
    rcases hcases hg with hg | rfl
    · exact h.members g group hg
    · exact hus
  · intro g group vs hg hdrains hvs
    rcases hcases hg with hg | rfl
    · exact h.results g group vs hg hdrains hvs
    · cases hvs

end Boards

theorem PhaseKeeps.mono {t : Nat} {q : ρ → Prop} {p : Phase σ ε ρ} (h : PhaseKeeps c ps s t q p)
    (hps : ps <+: ps') (hs : Stands s s') : PhaseKeeps c ps' s' t q p := by
  cases p with
  | ready next => exact fun ps'' x hps' => h ps'' x (hps.trans hps')
  | awaiting u next => exact ⟨h.1, fun ps'' x r hps' => h.2 ps'' x r (hps.trans hps')⟩
  | following n next =>
    obtain ⟨screen, hn, hwaits, hnext⟩ := h
    obtain ⟨screen', hn', htask⟩ := hs.screens n screen hn
    refine ⟨screen', hn', htask ▸ hwaits, ?_⟩
    rw [htask]
    exact fun ps'' x r hps' => hnext ps'' x r (hps.trans hps')
  | gathering g next =>
    obtain ⟨group, hg, hwaits, hnext⟩ := h
    obtain ⟨group', hg', hmembers⟩ := hs.groups g group hg
    refine ⟨group', hg', hmembers ▸ hwaits, ?_⟩
    rw [hmembers]
    exact fun ps'' x r hps' => hnext ps'' x r (hps.trans hps')
  | draining g next =>
    obtain ⟨group, hg, hwaits, hnext⟩ := h
    obtain ⟨group', hg', hmembers⟩ := hs.groups g group hg
    exact ⟨group', hg', hmembers ▸ hwaits, fun ps'' x r hps' => hnext ps'' x r (hps.trans hps')⟩
  | ended r => exact h

theorem Upholds.fit (h : Upholds c busy ps s) {u : Nat} {v : ρ} (hbusy : busy ≠ some u)
    (hu : s.outcome? u = some (.ok v)) : Fits ps u v := by
  have hlt := s.lt_of_outcome? hu
  have hp := List.getElem?_eq_getElem hlt
  have hq := List.getElem?_eq_getElem (h.length ▸ hlt)
  rw [outcome?_eq, hp] at hu
  have hkeeps := h.phases u _ _ hbusy hp hq
  generalize s.phases[u] = p at hu hkeeps
  cases p with
  | ended r =>
    obtain rfl : r = .ok v := Option.some.inj hu
    exact ⟨_, hq, hkeeps v rfl⟩
  | ready _ => cases hu
  | awaiting _ _ => cases hu
  | following _ _ => cases hu
  | gathering _ _ => cases hu
  | draining _ _ => cases hu

theorem Upholds.fit_of_running {t u : Nat} {v : ρ} (h : Upholds c (some t) ps s)
    (ht : s.Running t) (hu : s.outcome? u = some (.ok v)) : Fits ps u v := by
  apply h.fit _ hu
  rintro ⟨⟩
  rw [ht.2] at hu
  cases hu

end Schedule

end Polyglot.Loop
