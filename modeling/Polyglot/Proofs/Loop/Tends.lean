import Polyglot.Proofs.Loop.Ledger

/-!
Routines that tend their wards: a task waits for all that it has started before it pauses or ends, and
goes on with what has become of them. Only what is doomed may be cancelled.
-/

namespace Polyglot.Loop

variable {σ ε ρ κ π : Type}

/--
The terms on which tasks share a state: what holds whenever no task runs, and what a task that plays
some part may be about to do at some point.
-/
structure Terms (σ ε ρ κ π : Type) where
  inv : Ledger κ π ε ρ → σ → Prop
  fits : κ → π → Routine σ ε ρ → Prop

namespace Terms

variable (c : Terms σ ε ρ κ π) (t : Nat)

def Fits (l : Ledger κ π ε ρ) (p : π) (r : Routine σ ε ρ) : Prop :=
  ∃ w, l.wards[t]? = some w ∧ c.fits w.role p r

def Stops (l : Ledger κ π ε ρ) (p : π) (r : Routine σ ε ρ) (x : σ) : Prop :=
  c.Fits t l p r ∧ c.inv (l.reach t (.pending p)) x

def Resumes (l : Ledger κ π ε ρ) (p : Ledger κ π ε ρ → σ → Prop) : Prop :=
  ∀ l' x', l.Later t l' → c.inv l' x' → p l' x'

def Ready (next : Ledger κ π ε ρ → σ → Prop) (l : Ledger κ π ε ρ) : Prop :=
  c.Resumes t l fun l' x' =>
    next l' x' ∧ (l'.Doomed t → c.inv (l'.reach t (.ended (.error .cancelled))) x')

def Awaits (u : Nat) (next : Except (Stop ε) ρ → Ledger κ π ε ρ → σ → Prop)
    (l : Ledger κ π ε ρ) : Prop :=
  c.Resumes t l fun l' x' =>
    (∀ r, l'.stage u = .ended r → (l'.Doomed u → l'.Doomed t) → next r l' x') ∧
      (l'.Doomed t → l'.Ended u → next (.error .cancelled) l' x')

def Follows (u : Nat) (next : Except (Stop ε) ρ → Ledger κ π ε ρ → σ → Prop)
    (l : Ledger κ π ε ρ) : Prop :=
  c.Resumes t l fun l' x' =>
    (∀ r, l'.stage u = .ended r → next r l' x') ∧ (l'.Doomed t → next (.error .cancelled) l' x')

/--
What a task counts on that waits for the results of several wards. After a failure some of them may
not have ended.
-/
def Gathers (us : List Nat) (next : Except (Stop ε) (List ρ) → List Nat → Ledger κ π ε ρ → σ → Prop)
    (l : Ledger κ π ε ρ) : Prop :=
  c.Resumes t l fun l' x' =>
    (∀ vs, List.Forall₂ (fun u v => l'.stage u = .ended (.ok v)) us vs → next (.ok vs) [] l' x') ∧
      (∀ u e, u ∈ us → l'.stage u = .ended (.error e) → (l'.Doomed u → l'.Doomed t) →
        next (.error e) us l' x') ∧
      (l'.Doomed t → next (.error .cancelled) us l' x')

def Drains (us : List Nat) (next : Except (Stop ε) Unit → Ledger κ π ε ρ → σ → Prop)
    (l : Ledger κ π ε ρ) : Prop :=
  c.Resumes t l fun l' x' => (∀ u ∈ us, l'.Ended u) →
    next (.ok ()) l' x' ∧ (l'.Doomed t → next (.error .cancelled) l' x')

section Mono

variable {c t} {l l' : Ledger κ π ε ρ}

theorem Fits.mono {p : π} {r : Routine σ ε ρ} (h : c.Fits t l p r) (hl : l.Extends l') :
    c.Fits t l' p r := by
  obtain ⟨w, hw, hfits⟩ := h
  exact ⟨w, hl.ward hw, hfits⟩

theorem Resumes.mono {p : Ledger κ π ε ρ → σ → Prop} (h : c.Resumes t l p) (hl : l.Later t l') :
    c.Resumes t l' p :=
  fun l'' x' hl' => h l'' x' (hl.trans hl')

end Mono

end Terms

def Routine.Tends (c : Terms σ ε ρ κ π) (t : Nat) :
    Routine σ ε ρ → List Nat → Ledger κ π ε ρ → σ → Prop
  | .finish r, us, l, x => us = [] ∧ c.inv (l.reach t (.ended r)) x
  | .pause next, us, l, x =>
    us = [] ∧ ∃ p, c.Stops t l p (.pause next) x ∧
      c.Ready t (next.Tends c t []) (l.reach t (.pending p))
  | .look next, us, l, x => (next x).Tends c t us l x
  | .change f next, us, l, x => next.Tends c t us l (f x)
  | .spawn child next, us, l, x =>
    ∃ role p, c.fits role p (.pause child) ∧
      c.Ready l.wards.length (child.Tends c l.wards.length []) (l.start ⟨some t, role⟩ p) ∧
      (next l.wards.length).Tends c t (us ++ [l.wards.length]) (l.start ⟨some t, role⟩ p) x
  | .await u next, us, l, x =>
    us = [u] ∧ ¬ l.Ended u ∧ ∃ p, c.Stops t l p (.await u next) x ∧
      c.Awaits t u (fun r => (next r).Tends c t []) (l.reach t (.pending p))
  | .follow u next, us, l, x =>
    us = [] ∧ u < l.wards.length ∧ (∀ r, l.stage u = .ended r → (next r).Tends c t [] l x) ∧
      (¬ l.Ended u → ∃ p, c.Stops t l p (.follow u next) x ∧
        c.Follows t u (fun r => (next r).Tends c t []) (l.reach t (.pending p)))
  | .gather vs next, us, l, x =>
    us = vs ∧ (vs = [] → (next (.ok [])).Tends c t [] l x) ∧
      (vs ≠ [] → ∃ p, c.Stops t l p (.gather vs next) x ∧
        c.Gathers t vs (fun r us => (next r).Tends c t us) (l.reach t (.pending p)))
  | .drain vs next, us, l, x =>
    us = vs ∧ (vs = [] → (next (.ok ())).Tends c t [] l x) ∧
      (vs ≠ [] → ∃ p, c.Stops t (l.cutOff vs) p (.drain vs next) x ∧
        c.Drains t vs (fun r => (next r).Tends c t []) ((l.cutOff vs).reach t (.pending p)))

def Phase.drains : Phase σ ε ρ → Bool
  | .draining .. => true
  | _ => false

namespace Schedule

def members (s : Schedule σ ε ρ) (g : Nat) : List Nat := ((s.groups[g]?).map (·.members)).getD []

def behind (s : Schedule σ ε ρ) (n : Nat) : Nat := ((s.screens[n]?).map (·.task)).getD 0

def watched (s : Schedule σ ε ρ) : Phase σ ε ρ → List Nat
  | .awaiting u _ => [u]
  | .gathering g _ => s.members g
  | .draining g _ => s.members g
  | _ => []

def stance (s : Schedule σ ε ρ) : Phase σ ε ρ → Routine σ ε ρ
  | .ready next => .pause next
  | .awaiting u next => .await u next
  | .following n next => .follow (s.behind n) next
  | .gathering g next => .gather (s.members g) next
  | .draining g next => .drain (s.members g) next
  | .ended r => .finish r

def PhaseTends (c : Terms σ ε ρ κ π) (s : Schedule σ ε ρ) (t : Nat) (l : Ledger κ π ε ρ) :
    Phase σ ε ρ → Prop
  | .ready next => c.Ready t (next.Tends c t []) l
  | .awaiting u next => c.Awaits t u (fun r => (next r).Tends c t []) l
  | .following n next => c.Follows t (s.behind n) (fun r => (next r).Tends c t []) l
  | .gathering g next => c.Gathers t (s.members g) (fun r us => (next r).Tends c t us) l
  | .draining g next => c.Drains t (s.members g) (fun r => (next r).Tends c t []) l
  | .ended _ => True

def Over (l : Ledger κ π ε ρ) (s : Schedule σ ε ρ) : Phase σ ε ρ → Prop
  | .gathering _ _ => True
  | p => ∀ u ∈ s.watched p, l.Ended u

/--
A task that does not run minds all of its wards, and will tend them when it goes on.
-/
structure Abides (c : Terms σ ε ρ κ π) (l : Ledger κ π ε ρ) (s : Schedule σ ε ρ) (t : Nat)
    (p : Phase σ ε ρ) : Prop where
  point : p.isEnded = false → ∃ point, l.stage t = .pending point ∧ c.Fits t l point (s.stance p)
  minds : l.Minds t (s.watched p)
  attached : p.drains = false → l.Attached t (s.watched p)
  tends : PhaseTends c s t l p

/--
A group passes on what has become of its members, or that its owner is doomed. One that drains passes
on nothing before all members have ended.
-/
structure Honest (l : Ledger κ π ε ρ) (group : Group ε ρ) : Prop where
  marked : group.cancelled → l.Doomed group.owner
  results : ∀ vs, group.drains = false → group.outcome = some (.ok vs) →
    List.Forall₂ (fun u v => l.stage u = .ended (.ok v)) group.members vs
  failure : ∀ e, group.drains = false → group.outcome = some (.error e) →
    (∃ u ∈ group.members, l.stage u = .ended (.error e)) ∨ (e = .cancelled ∧ l.Doomed group.owner)
  ended : group.drains → group.outcome.isSome → ∀ u ∈ group.members, l.Ended u
  drained : ∀ e, group.drains → group.outcome = some (.error e) →
    e = .cancelled ∧ l.Doomed group.owner

def Upright (l : Ledger κ π ε ρ) (screen : Screen ε ρ) : Prop :=
  ∀ r, screen.outcome = some r →
    l.stage screen.task = .ended r ∨ (r = .error .cancelled ∧ l.Doomed screen.owner)

/--
All tasks tend their wards.
-/
structure Tended (c : Terms σ ε ρ κ π) (busy : Option Nat) (l : Ledger κ π ε ρ)
    (s : Schedule σ ε ρ) : Prop where
  tidy : Tidy busy s
  length : l.wards.length = s.phases.length
  older : ∀ t u, l.Raise t u → t < u
  fresh : ∀ t, l.wards.length ≤ t → l.stage t = .new
  known : ∀ t ∈ l.cut, t < l.wards.length
  outcomes : ∀ t r, s.outcome? t = some r ↔ l.stage t = .ended r
  tasks : ∀ t p, busy ≠ some t → s.phases[t]? = some p → Abides c l s t p
  marks : ∀ t p, s.phases[t]? = some p → s.marks[t]? = some true → l.Doomed t ∧ Over l s p
  unmarked : ∀ t, s.marks[t]? = some true → busy ≠ some t
  groups : ∀ (g : Nat) (group : Group ε ρ), s.groups[g]? = some group → Honest l group
  screens : ∀ (n : Nat) (screen : Screen ε ρ), s.screens[n]? = some screen → Upright l screen

section Stands

variable {s s' s'' : Schedule σ ε ρ} {t : Nat} {p : Phase σ ε ρ}

theorem members_of_groups {g : Nat} {group : Group ε ρ} (hg : s.groups[g]? = some group) :
    s.members g = group.members := by
  rw [members, hg]
  rfl

theorem behind_of_screens {n : Nat} {screen : Screen ε ρ} (hn : s.screens[n]? = some screen) :
    s.behind n = screen.task := by
  rw [behind, hn]
  rfl

theorem Stands.members {g : Nat} {group : Group ε ρ} (h : Stands s s')
    (hg : s.groups[g]? = some group) : s'.members g = s.members g := by
  obtain ⟨group', hg', hmembers⟩ := h.groups g group hg
  rw [members_of_groups hg, members_of_groups hg', hmembers]

theorem Stands.behind {n : Nat} {screen : Screen ε ρ} (h : Stands s s')
    (hn : s.screens[n]? = some screen) : s'.behind n = s.behind n := by
  obtain ⟨screen', hn', htask⟩ := h.screens n screen hn
  rw [behind_of_screens hn, behind_of_screens hn', htask]

theorem Stands.watched (h : Stands s s') (howned : Owned s t p) : s'.watched p = s.watched p := by
  cases p with
  | gathering g next =>
    obtain ⟨group, hg, _⟩ := howned
    exact h.members hg
  | draining g next =>
    obtain ⟨group, hg, _⟩ := howned
    exact h.members hg
  | ready next => rfl
  | awaiting u next => rfl
  | following n next => rfl
  | ended r => rfl

theorem Stands.stance (h : Stands s s') (howned : Owned s t p) : s'.stance p = s.stance p := by
  cases p with
  | gathering g next =>
    obtain ⟨group, hg, _⟩ := howned
    rw [Schedule.stance, Schedule.stance, h.members hg]
  | draining g next =>
    obtain ⟨group, hg, _⟩ := howned
    rw [Schedule.stance, Schedule.stance, h.members hg]
  | following n next =>
    obtain ⟨screen, hn, _⟩ := howned
    rw [Schedule.stance, Schedule.stance, h.behind hn]
  | ready next => rfl
  | awaiting u next => rfl
  | ended r => rfl

theorem Stands.refl (s : Schedule σ ε ρ) : Stands s s := .of_eq rfl rfl

theorem Stands.trans (h : Stands s s') (h' : Stands s' s'') : Stands s s'' where
  groups := by
    intro g group hg
    obtain ⟨group', hg', hmembers⟩ := h.groups g group hg
    obtain ⟨group'', hg'', hmembers'⟩ := h'.groups g group' hg'
    exact ⟨group'', hg'', hmembers'.trans hmembers⟩
  screens := by
    intro n screen hn
    obtain ⟨screen', hn', htask⟩ := h.screens n screen hn
    obtain ⟨screen'', hn'', htask'⟩ := h'.screens n screen' hn'
    exact ⟨screen'', hn'', htask'.trans htask⟩

end Stands

section Frame

variable {c : Terms σ ε ρ κ π} {l l' : Ledger κ π ε ρ} {s s' : Schedule σ ε ρ} {t : Nat}
variable {p : Phase σ ε ρ} {busy : Option Nat}

theorem PhaseTends.mono (h : PhaseTends c s t l p) (howned : Owned s t p) (hl : l.Later t l')
    (hs : Stands s s') : PhaseTends c s' t l' p := by
  cases p with
  | ready next => exact Terms.Resumes.mono h hl
  | awaiting u next => exact Terms.Resumes.mono h hl
  | following n next =>
    obtain ⟨screen, hn, _⟩ := howned
    rw [PhaseTends, hs.behind hn]
    exact Terms.Resumes.mono h hl
  | gathering g next =>
    obtain ⟨group, hg, _⟩ := howned
    rw [PhaseTends, hs.members hg]
    exact Terms.Resumes.mono h hl
  | draining g next =>
    obtain ⟨group, hg, _⟩ := howned
    rw [PhaseTends, hs.members hg]
    exact Terms.Resumes.mono h hl
  | ended r => trivial

/--
A task that waits does so as before, if it has no more wards than before and none of them is cut off
but together with it.
-/
theorem Abides.frame (h : Abides c l s t p) (howned : Owned s t p) (hs : Stands s s')
    (hl : l.Later t l') (hraise : ∀ u, l'.Raise t u → l.Raise t u)
    (hdoomed : ∀ u, l.Raise t u → l'.Doomed u → l.Doomed u ∨ l'.Doomed t) :
    Abides c l' s' t p := by
  have hwatched := hs.watched howned
  refine ⟨?_, ⟨?_, ?_⟩, ?_, h.tends.mono howned hl hs⟩
  · intro hrun
    obtain ⟨point, hpoint, hfits⟩ := h.point hrun
    refine ⟨point, hl.stage.trans hpoint, ?_⟩
    rw [hs.stance howned]
    exact hfits.mono hl.toExtends
  · intro u hu
    rw [hwatched] at hu
    exact hl.raise (h.minds.own u hu)
  · intro u hu hrun
    rw [hwatched]
    exact h.minds.all u (hraise u hu) fun hended => hrun (hl.hasEnded hended)
  · intro hdrains u hu hdoom
    rw [hwatched] at hu
    rcases hdoomed u (h.minds.own u hu) hdoom with hold | hnew
    · exact hl.doomed (h.attached hdrains u hu hold)
    · exact hnew

theorem Honest.mono {group : Group ε ρ} (h : Honest l group) (hl : l.Extends l') :
    Honest l' group where
  marked := fun hmark => hl.doomed (h.marked hmark)
  results := fun vs hdrains hvs => (h.results vs hdrains hvs).imp fun u _ => hl.ended u _
  failure := by
    intro e hdrains he
    rcases h.failure e hdrains he with ⟨u, hu, hr⟩ | ⟨rfl, hdoom⟩
    · exact .inl ⟨u, hu, hl.ended u _ hr⟩
    · exact .inr ⟨rfl, hl.doomed hdoom⟩
  ended := fun hdrains hsome u hu => hl.hasEnded (h.ended hdrains hsome u hu)
  drained := by
    intro e hdrains he
    obtain ⟨rfl, hdoom⟩ := h.drained e hdrains he
    exact ⟨rfl, hl.doomed hdoom⟩

theorem Upright.mono {screen : Screen ε ρ} (h : Upright l screen) (hl : l.Extends l') :
    Upright l' screen := by
  intro r hr
  rcases h r hr with hended | ⟨rfl, hdoom⟩
  · exact .inl (hl.ended _ _ hended)
  · exact .inr ⟨rfl, hl.doomed hdoom⟩

theorem Over.mono (h : Over l s p) (howned : Owned s t p) (hl : l.Extends l') (hs : Stands s s') :
    Over l' s' p := by
  have hended (h : ∀ u ∈ s.watched p, l.Ended u) : ∀ u ∈ s'.watched p, l'.Ended u := by
    intro u hu
    rw [hs.watched howned] at hu
    exact hl.hasEnded (h u hu)
  cases p with
  | gathering g next => trivial
  | ready next => exact hended h
  | awaiting u next => exact hended h
  | following n next => exact hended h
  | draining g next => exact hended h
  | ended r => exact hended h

theorem Tended.not_ended_of_running (h : Tended c busy l s) (ht : s.Running t) : ¬ l.Ended t := by
  rintro ⟨r, hr⟩
  rw [← h.outcomes, ht.2] at hr
  cases hr

theorem Tended.running (h : Tended c busy l s) (hlt : t < l.wards.length) (ht : ¬ l.Ended t) :
    s.Running t := by
  refine ⟨h.length ▸ hlt, ?_⟩
  cases ho : s.outcome? t with
  | none => rfl
  | some r => exact absurd ⟨r, (h.outcomes t r).mp ho⟩ ht

theorem Tended.new (h : Tended c busy l s) : l.stage l.wards.length = .new :=
  h.fresh _ (Nat.le_refl _)

theorem Tended.still {busy' : Option Nat} (h : Tended c busy l s) (htidy : Tidy busy' s')
    (hbusy : ∀ t, busy' ≠ some t → busy ≠ some t) (hphases : s'.phases = s.phases)
    (hs : Stands s s')
    (hmarks : ∀ t, s'.marks[t]? = some true → busy' ≠ some t ∧ s.marks[t]? = some true)
    (hgroups : ∀ (g : Nat) (group : Group ε ρ), s'.groups[g]? = some group → Honest l group)
    (hscreens : ∀ (n : Nat) (screen : Screen ε ρ), s'.screens[n]? = some screen →
      Upright l screen) : Tended c busy' l s' where
  tidy := htidy
  length := by rw [hphases, h.length]
  older := h.older
  fresh := h.fresh
  known := h.known
  outcomes := by
    intro t r
    rw [outcome?_eq, hphases, ← outcome?_eq, h.outcomes]
  tasks := by
    intro t p ht hp
    rw [hphases] at hp
    exact (h.tasks t p (hbusy t ht) hp).frame (h.tidy.owners t p hp) hs (.refl t l) (fun _ => id)
      fun _ _ => .inl
  marks := by
    intro t p hp hmark
    rw [hphases] at hp
    obtain ⟨hdoom, hover⟩ := h.marks t p hp (hmarks t hmark).2
    exact ⟨hdoom, hover.mono (h.tidy.owners t p hp) (.refl l) hs⟩
  unmarked := fun t ht => (hmarks t ht).1
  groups := hgroups
  screens := hscreens

end Frame

end Schedule

end Polyglot.Loop
