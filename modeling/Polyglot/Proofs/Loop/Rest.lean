import Mathlib.Logic.Hydra
import Mathlib.Logic.Relation
import Mathlib.SetTheory.Ordinal.Family
import Mathlib.Tactic.Abel
import Polyglot.Proofs.Loop.Tended
import Polyglot.Proofs.Loop.Upkeep

/-!
A loop comes to rest whatever the order in which its ticks are fired.

What is left to do of a task has a rank, and a task that goes on puts finitely many things of a lower
rank in the place of what it did. Ticks that let no task go on settle a group or a screen, or are just
used up.
-/

namespace Polyglot.Loop

variable {σ ε ρ : Type}

noncomputable def Routine.rank : Routine σ ε ρ → Ordinal.{0}
  | .finish _ => 0
  | .pause next => next.rank + 1
  | .look next => ⨆ x, (next x).rank
  | .change _ next => next.rank
  | .spawn child next => max (child.rank + 1) (⨆ u, (next u).rank)
  | .await _ next => (⨆ r, (next r).rank) + 1
  | .follow _ next => (⨆ r, (next r).rank) + 1
  | .gather _ next => (⨆ r, (next r).rank) + 1
  | .drain _ next => (⨆ r, (next r).rank) + 1

noncomputable def Phase.rank : Phase σ ε ρ → Ordinal.{0}
  | .ready next => next.rank + 1
  | .awaiting _ next => (⨆ r, (next r).rank) + 1
  | .following _ next => (⨆ r, (next r).rank) + 1
  | .gathering _ next => (⨆ r, (next r).rank) + 1
  | .draining _ next => (⨆ r, (next r).rank) + 1
  | .ended _ => 0

namespace Schedule

variable {s s' : Schedule σ ε ρ} {t : Nat} {p : Phase σ ε ρ}

noncomputable def ranks (s : Schedule σ ε ρ) : Multiset Ordinal.{0} :=
  (s.phases.map Phase.rank : List Ordinal)

theorem ranks_of_phases (h : s'.phases = s.phases) : s'.ranks = s.ranks := by
  rw [ranks, ranks, h]

theorem ranks_of_set (hp : s.phases[t]? = some p) {p' : Phase σ ε ρ}
    (h : s'.phases = s.phases.set t p') : s'.ranks + {p.rank} = s.ranks + {p'.rank} := by
  obtain ⟨hlt, rfl⟩ := List.getElem?_eq_some_iff.mp hp
  have hnew := (List.set_perm_cons_eraseIdx hlt p').map Phase.rank
  have hold := (List.getElem_cons_eraseIdx_perm hlt).map Phase.rank
  rw [ranks, ranks, h, Multiset.coe_eq_coe.mpr hnew, ← Multiset.coe_eq_coe.mpr hold, List.map_cons,
    List.map_cons, ← Multiset.cons_coe, ← Multiset.cons_coe, ← Multiset.singleton_add,
    ← Multiset.singleton_add]
  abel

theorem ranks_spawn (s : Schedule σ ε ρ) (child : Routine σ ε ρ) :
    ((s.addTask ⟨.ready child, [], false⟩).enqueue [.wake s.tasks.length]).ranks =
      s.ranks + {child.rank + 1} := by
  rw [ranks, phases_enqueue, phases_addTask, List.map_append, ← Multiset.coe_add]
  rfl

/--
A task of some rank has given way to tasks whose ranks are no higher than a bound.
-/
def Yields (x bound : Ordinal.{0}) (s s' : Schedule σ ε ρ) : Prop :=
  ∃ left : Multiset Ordinal, (∀ y ∈ left, y ≤ bound) ∧ s'.ranks + {x} = s.ranks + left

theorem Yields.of_set (p' : Phase σ ε ρ) (hp : s.phases[t]? = some p) {bound : Ordinal}
    (hle : p'.rank ≤ bound) (h : s'.phases = s.phases.set t p') : Yields p.rank bound s s' := by
  refine ⟨{p'.rank}, ?_, ranks_of_set hp h⟩
  intro x hx
  rw [Multiset.mem_singleton.mp hx]
  exact hle

theorem Yields.raise {x bound bound' : Ordinal} (h : Yields x bound s s') (hle : bound ≤ bound') :
    Yields x bound' s s' := by
  obtain ⟨left, hleft, heq⟩ := h
  exact ⟨left, fun y hy => (hleft y hy).trans hle, heq⟩

theorem rank_le_iSup {α : Type} (f : α → Routine σ ε ρ) (a : α) :
    (f a).rank ≤ ⨆ a, (f a).rank :=
  Ordinal.le_iSup (fun a => (f a).rank) a

theorem rank_le_await {α : Type} (f : α → Routine σ ε ρ) (a : α) :
    (f a).rank ≤ (⨆ a, (f a).rank) + 1 :=
  (rank_le_iSup f a).trans le_self_add

theorem yields_exec (r : Routine σ ε ρ) (hp : s.phases[t]? = some p) :
    Yields p.rank r.rank s (s.exec t r) := by
  induction r generalizing s with
  | finish r => exact .of_set _ hp le_rfl (phases_setPhase s t _)
  | pause next ih => exact .of_set _ hp le_rfl (phases_setPhase s t _)
  | look next ih => exact (ih s.shared hp).raise (rank_le_iSup next s.shared)
  | change f next ih => exact ih (s := { s with shared := f s.shared }) hp
  | spawn child next _ ih =>
    have hp' : ((s.addTask ⟨.ready child, [], false⟩).enqueue [.wake s.tasks.length]).phases[t]? =
        some p := by
      rw [phases_enqueue, phases_addTask,
        List.getElem?_append_left (List.getElem?_eq_some_iff.mp hp).1, hp]
    obtain ⟨left, hleft, heq⟩ := ih s.tasks.length hp'
    rw [ranks_spawn] at heq
    refine ⟨{child.rank + 1} + left, ?_, by rw [Schedule.exec, heq, add_assoc]⟩
    intro x hx
    rw [Multiset.mem_add, Multiset.mem_singleton] at hx
    rcases hx with rfl | hx
    · exact le_max_left _ _
    · exact (hleft x hx).trans ((rank_le_iSup next _).trans (le_max_right _ _))
  | await u next ih =>
    simp only [Schedule.exec]
    split
    · exact (ih _ hp).raise (rank_le_await next _)
    · apply Yields.of_set (.awaiting u next) hp le_rfl
      rw [phases_setPhase, phases_listen]
  | follow u next ih =>
    simp only [Schedule.exec]
    split
    · exact (ih _ hp).raise (rank_le_await next _)
    · apply Yields.of_set (.following s.screens.length next) hp le_rfl
      rw [phases_setPhase, phases_listen]
      rfl
  | gather us next ih =>
    simp only [Schedule.exec]
    split
    · exact (ih _ hp).raise (rank_le_await next _)
    · exact .of_set (.gathering s.groups.length next) hp le_rfl (phases_assemble s t us _ _)
  | drain us next ih =>
    simp only [Schedule.exec]
    split
    · exact (ih _ hp).raise (rank_le_await next _)
    · apply Yields.of_set (.draining (s.cancelAll us).groups.length next) hp le_rfl
      rw [phases_assemble, (cancels_cancelAll s us).phases]

theorem rank_hears {cut : Bool} {next : Routine σ ε ρ} (h : s.hears cut p = some next) :
    next.rank < p.rank := by
  have hnews {α : Type} (f : α → Routine σ ε ρ) (a : α) : (f a).rank < (⨆ a, (f a).rank) + 1 :=
    Order.lt_add_one_iff.mpr (rank_le_iSup f a)
  cases p with
  | ready next =>
    cases cut
    · obtain rfl := Option.some.inj h
      exact Order.lt_add_one_iff.mpr le_rfl
    · obtain rfl := Option.some.inj h
      exact Order.lt_add_one_iff.mpr zero_le
  | ended r => cases h
  | awaiting u next =>
    obtain ⟨r, _, rfl⟩ := Option.map_eq_some_iff.mp h
    exact hnews next r
  | following n next =>
    obtain ⟨r, _, rfl⟩ := Option.map_eq_some_iff.mp h
    exact hnews next r
  | gathering g next =>
    obtain ⟨r, _, rfl⟩ := Option.map_eq_some_iff.mp h
    exact hnews next r
  | draining g next =>
    obtain ⟨r, _, rfl⟩ := Option.map_eq_some_iff.mp h
    exact hnews next r

def unsettled (s : Schedule σ ε ρ) : Nat :=
  s.groups.countP (·.outcome.isNone) + s.screens.countP (·.outcome.isNone)

def Less (s' s : Schedule σ ε ρ) : Prop :=
  Prod.Lex (Relation.CutExpand (· < ·)) (Prod.Lex (· < ·) (· < ·))
    (s'.ranks, s'.unsettled, s'.queue.length) (s.ranks, s.unsettled, s.queue.length)

theorem wellFounded_less : WellFounded (Less (σ := σ) (ε := ε) (ρ := ρ)) :=
  InvImage.wf (fun s : Schedule σ ε ρ => (s.ranks, s.unsettled, s.queue.length))
    (WellFounded.prod_lex (WellFounded.cutExpand Ordinal.lt_wf)
      (WellFounded.prod_lex Nat.lt_wfRel.wf Nat.lt_wfRel.wf))

theorem Less.of_ranks {x bound : Ordinal} (h : Yields x bound s s') (hlt : bound < x) : Less s' s := by
  obtain ⟨left, hleft, heq⟩ := h
  exact .left _ _ ⟨left, x, fun y hy => (hleft y hy).trans_lt hlt, heq⟩

theorem Less.of_unsettled (hranks : s'.ranks = s.ranks) (h : s'.unsettled < s.unsettled) :
    Less s' s := by
  rw [Less, hranks]
  exact .right _ (.left _ _ h)

theorem Less.of_queue (hranks : s'.ranks = s.ranks) (hunsettled : s'.unsettled = s.unsettled)
    (h : s'.queue.length < s.queue.length) : Less s' s := by
  rw [Less, hranks, hunsettled]
  exact .right _ (.right _ h)

section Fire

theorem countP_modify {α : Type} (f : α → α) (ok : α → Bool) {as : List α} {i : Nat} {a : α}
    (h : as[i]? = some a) : (as.modify i f).countP ok + (if ok a then 1 else 0) =
      as.countP ok + if ok (f a) then 1 else 0 := by
  induction as generalizing i with
  | nil => cases h
  | cons b as ih =>
    cases i with
    | zero =>
      obtain rfl := Option.some.inj h
      simp only [List.modify_zero_cons, List.countP_cons]
      omega
    | succ i =>
      have := ih h
      simp only [List.modify_succ_cons, List.countP_cons]
      omega

theorem unsettled_tally {g : Nat} {group : Group ε ρ} (hg : s.groups[g]? = some group)
    (o : Option (Except (Stop ε) (List ρ))) : (s.tally g o).unsettled +
      (if group.outcome.isNone then 1 else 0) = s.unsettled + if o.isNone then 1 else 0 := by
  have := countP_modify (fun group => { group with ended := group.ended + 1, outcome := o })
    (·.outcome.isNone) hg
  dsimp only at this
  simp only [unsettled, tally, updateGroup]
  omega

theorem unsettled_setScreen {n : Nat} {screen : Screen ε ρ} (hn : s.screens[n]? = some screen)
    (hopen : screen.outcome = none) (r : Except (Stop ε) ρ) :
    (s.setScreen n r).unsettled + 1 = s.unsettled := by
  have := countP_modify (fun c : Screen ε ρ => { c with outcome := some r }) (·.outcome.isNone) hn
  simp only [hopen, Option.isNone_none, Option.isNone_some, Bool.false_eq_true, ↓reduceIte] at this
  simp only [unsettled, setScreen]
  omega

variable {tick : Tick}

theorem Pops.ranks (h : Pops tick s s') : s'.ranks = s.ranks := ranks_of_phases h.phases

theorem Pops.unsettled (h : Pops tick s s') : s'.unsettled = s.unsettled := by
  rw [Schedule.unsettled, Schedule.unsettled, h.groups, h.screens]

theorem Pops.length (h : Pops tick s s') : s'.queue.length < s.queue.length := by
  rw [← h.queue.length_eq, List.length_cons]
  exact Nat.lt_succ_self _

theorem Less.pop (h : Pops tick s s') : Less s' s := .of_queue h.ranks h.unsettled h.length

theorem less_wake (h : Pops (.wake t) s s') : Less (s'.wake t) s := by
  cases htask : s'.tasks[t]? with
  | none =>
    have heq : s'.wake t = s' := by simp only [wake, htask]
    rw [heq]
    exact .pop h
  | some task =>
    have hphases := phases_updateTask s' t (fun task => { task with cancelled := false }) fun _ => rfl
    have hp : s'.phases[t]? = some task.phase := by rw [phases_getElem?, htask, Option.map_some]
    rw [wake_eq htask]
    dsimp only
    split
    · next next hnext =>
      obtain ⟨left, hleft, heq⟩ := yields_exec next (hphases ▸ hp)
      rw [ranks_of_phases hphases, h.ranks] at heq
      exact .of_ranks ⟨left, hleft, heq⟩ (rank_hears hnext)
    · exact .of_queue ((ranks_of_phases hphases).trans h.ranks) h.unsettled h.length

theorem less_member {g : Nat} (h : Pops (.member g t) s s') : Less (s'.member g t) s := by
  cases hg : s'.groups[g]? with
  | none =>
    have heq : s'.member g t = s' := by simp [member, hg]
    rw [heq]
    exact .pop h
  | some group =>
    have hranks := h.ranks
    rcases member_cases hg with ⟨_, heq⟩ | ⟨hopen, _, _, heq⟩ | ⟨hopen, r, _, heq⟩
    · have := unsettled_tally hg group.outcome
      rw [heq]
      exact .of_queue hranks ((Nat.add_right_cancel this).trans h.unsettled) h.length
    · have := unsettled_tally hg none
      rw [hopen] at this
      rw [heq]
      exact .of_queue hranks ((Nat.add_right_cancel this).trans h.unsettled) h.length
    · have := unsettled_tally hg (some r)
      rw [hopen, h.unsettled] at this
      rw [heq]
      exact .of_unsettled hranks (Nat.lt_of_succ_le this.le)

theorem less_relay {n : Nat} (h : Pops (.relay n) s s') : Less (s'.relay n) s := by
  rcases relay_cases s' n with ⟨u, owner, r, hn, _, heq⟩ | ⟨heq, _⟩
  · have := unsettled_setScreen hn rfl r
    rw [h.unsettled] at this
    rw [heq]
    exact .of_unsettled h.ranks (Nat.lt_of_succ_le this.le)
  · rw [heq]
    exact .pop h

/--
A schedule after one of the ticks in its queue.
-/
def Fires (s s' : Schedule σ ε ρ) : Prop := ∃ i < s.queue.length, s' = s.fireAt i

theorem Fires.less (h : Fires s s') : Less s' s := by
  obtain ⟨i, hi, rfl⟩ := h
  rw [fireAt, List.getElem?_eq_getElem hi]
  have hpop := Pops.eraseIdx (List.getElem?_eq_getElem hi)
  simp only
  generalize s.queue[i] = tick at hpop ⊢
  cases tick with
  | wake t => exact less_wake hpop
  | member g t => exact less_member hpop
  | relay n => exact less_relay hpop

theorem wellFounded_fires : WellFounded fun s' s : Schedule σ ε ρ => Fires s s' :=
  Subrelation.wf Fires.less wellFounded_less

theorem fires_of_cons {s : Schedule σ ε ρ} {tick : Tick} {rest : List Tick} (hq : s.queue = tick :: rest) :
    Fires s ({ s with queue := rest }.fire tick) := by
  refine ⟨0, ?_, ?_⟩
  · rw [hq]
    exact Nat.succ_pos _
  · rw [fireAt, hq]
    rfl

theorem exists_run (s : Schedule σ ε ρ) : ∃ fuel, (s.run fuel).queue = [] := by
  induction s using wellFounded_fires.induction with
  | _ s ih =>
    cases hq : s.queue with
    | nil => exact ⟨0, hq⟩
    | cons tick rest =>
      obtain ⟨fuel, hfuel⟩ := ih _ (fires_of_cons hq)
      refine ⟨fuel + 1, ?_⟩
      rw [run, hq]
      exact hfuel

theorem fires_run (s : Schedule σ ε ρ) (fuel : Nat) : Relation.ReflTransGen Fires s (s.run fuel) := by
  induction fuel generalizing s with
  | zero => exact .refl
  | succ fuel ih =>
    rw [run]
    split
    · exact .refl
    · next hq => exact .head (fires_of_cons hq) (ih _)

end Fire

end Schedule

end Polyglot.Loop

/-!
A loop that has come to rest has ended all of its tasks, where tasks wait only for later ones: the
last task that has not ended would be told by one that has.
-/

namespace Polyglot.Loop.Schedule

variable {σ ε ρ : Type} {s : Schedule σ ε ρ} {c : Contract σ ρ} {ps : Promises ρ}

theorem listeners_of_ended {u : Nat} (h : (s.outcome? u).isSome) : s.listeners u = [] := by
  rw [outcome?_eq, phases_getElem?] at h
  rw [listeners]
  cases htask : s.tasks[u]? with
  | none => rfl
  | some task =>
    simp only [htask, Option.map_some, Option.bind_some, ← Phase.isEnded_eq_isSome] at h
    simp [Task.listeners, h]

theorem lt_of_listeners {u : Nat} {tick : Tick} (h : tick ∈ s.listeners u) : u < s.phases.length := by
  by_cases hu : u < s.tasks.length
  · rwa [length_phases]
  · rw [listeners, List.getElem?_eq_none (by omega)] at h
    cases h

theorem Informed.running {u : Nat} {tick : Tick} (h : s.Informed u tick) (hrest : s.queue = []) :
    s.Running u := by
  rw [Informed, hrest] at h
  split at h
  · cases h
  · next hnone => exact ⟨lt_of_listeners h, by simpa using hnone⟩

theorem Counts.running {g : Nat} {group : Group ε ρ} {counted : List Nat}
    (h : Counts s g group counted) (hopen : group.outcome = none) (hrest : s.queue = []) :
    ∃ u ∈ group.members, s.outcome? u = none := by
  by_cases hall : ∀ u ∈ group.members, (s.outcome? u).isSome
  · exfalso
    have hperm : counted.Perm group.members := by
      apply List.perm_iff_count.mpr
      intro u
      rw [← h.members u, owed, hrest]
      by_cases hu : u ∈ group.members
      · simp [listeners_of_ended (hall u hu)]
      · have := h.members u
        rw [List.count_eq_zero.mpr hu] at this
        simp only [List.count_nil]
        rw [owed] at this
        omega
    have hshort := h.short hopen
    rw [← h.length, hperm.length_eq] at hshort
    exact Nat.lt_irrefl _ hshort
  · obtain ⟨u, hu, hnone⟩ : ∃ u ∈ group.members, ¬ (s.outcome? u).isSome := by
      simpa using hall
    exact ⟨u, hu, by simpa using hnone⟩

theorem Tidy.open_member {busy : Option Nat} (h : Tidy busy s) (hrest : s.queue = []) {t g : Nat}
    {group : Group ε ρ} (hg : s.groups[g]? = some group)
    (hwake : group.outcome.isSome → .wake t ∈ s.queue) :
    ∃ u ∈ group.members, s.outcome? u = none := by
  have hopen : group.outcome = none := by
    cases ho : group.outcome with
    | none => rfl
    | some r => simp [ho, hrest] at hwake
  obtain ⟨counted, hcounts⟩ := h.counts g group hg
  exact hcounts.running hopen hrest

theorem Upholds.waits (h : Upholds c none ps s) (hrest : s.queue = []) {t : Nat} (ht : s.Running t) :
    ∃ u, c.waits t u ∧ s.Running u := by
  obtain ⟨p, hp⟩ : ∃ p, s.phases[t]? = some p := ⟨_, List.getElem?_eq_getElem ht.1⟩
  have hq := List.getElem?_eq_getElem (h.length ▸ ht.1)
  have hkeeps := h.phases t _ _ (by simp) hp hq
  have hroused := h.tidy.roused t _ (by simp) hp
  have hnone := ht.2
  rw [outcome?_eq, hp] at hnone
  have hgroup (g : Nat) (hk : ∃ group, s.groups[g]? = some group ∧ ∀ u ∈ group.members, c.waits t u)
      (hr : ∃ group, s.groups[g]? = some group ∧ (group.outcome.isSome → .wake t ∈ s.queue)) :
      ∃ u, c.waits t u ∧ s.Running u := by
    obtain ⟨group, hg, hwaits⟩ := hk
    obtain ⟨_, hg', hwake⟩ := hr
    obtain rfl := Option.some.inj (hg.symm.trans hg')
    obtain ⟨u, hu, hrun⟩ := h.tidy.open_member hrest hg hwake
    exact ⟨u, hwaits u hu, h.length ▸ h.backed.members g group hg u hu, hrun⟩
  cases p with
  | ready next => simp [Roused, hrest] at hroused
  | awaiting u next => exact ⟨u, hkeeps.1, hroused.running hrest⟩
  | following n next =>
    obtain ⟨screen, hn, hwaits, _⟩ := hkeeps
    obtain ⟨_, hn', hq⟩ := hroused
    obtain rfl := Option.some.inj (hn.symm.trans hn')
    split at hq
    · simp [hrest] at hq
    · exact ⟨screen.task, hwaits, hq.running hrest⟩
  | gathering g next =>
    obtain ⟨group, hg, hwaits, _⟩ := hkeeps
    exact hgroup g ⟨group, hg, hwaits⟩ hroused
  | draining g next =>
    obtain ⟨group, hg, hwaits, _⟩ := hkeeps
    exact hgroup g ⟨group, hg, hwaits⟩ hroused
  | ended r => cases hnone

theorem Upholds.fires {s' : Schedule σ ε ρ} (h : Upholds c none ps s) (hinv : c.inv ps s.shared)
    (hs : Relation.ReflTransGen Fires s s') :
    ∃ ps', ps <+: ps' ∧ Upholds c none ps' s' ∧ c.inv ps' s'.shared := by
  induction hs with
  | refl => exact ⟨ps, List.prefix_rfl, h, hinv⟩
  | tail _ hfires ih =>
    obtain ⟨ps', hps, h', hinv'⟩ := ih
    obtain ⟨i, -, rfl⟩ := hfires
    obtain ⟨ps'', hps', h'', hinv'', -⟩ := h'.fireAt hinv' i
    exact ⟨ps'', hps.trans hps', h'', hinv''⟩

theorem Upholds.ended (h : Upholds c none ps s) (hrest : s.queue = [])
    (hwaits : ∀ t u, c.waits t u → t < u) {t : Nat} (ht : t < s.phases.length) :
    ∃ r, s.outcome? t = some r := by
  induction hn : s.phases.length - t using Nat.strongRecOn generalizing t with
  | ind n ih =>
    cases ho : s.outcome? t with
    | some r => exact ⟨r, rfl⟩
    | none =>
      obtain ⟨u, htu, hu⟩ := h.waits hrest ⟨ht, ho⟩
      have hlt := hwaits t u htu
      obtain ⟨r, hr⟩ := ih (s.phases.length - u) (by have := hu.1; omega) hu.1 rfl
      rw [hu.2] at hr
      cases hr

end Polyglot.Loop.Schedule

/-!
When wards end: all those of a task have ended when it has, and at rest all tasks have ended where none
of them follows another one.
-/

namespace Polyglot.Loop.Schedule

variable {σ ε ρ κ π : Type} {c : Terms σ ε ρ κ π} {l : Ledger κ π ε ρ} {s : Schedule σ ε ρ} {t u : Nat}

theorem Tended.ended_of_guardian (h : Tended c none l s) (hraise : l.Raise t u) (ht : l.Ended t) :
    l.Ended u := by
  by_contra hrun
  obtain ⟨r, hr⟩ := ht
  rw [← h.outcomes, outcome?_eq] at hr
  obtain ⟨p, hp, hended⟩ := Option.bind_eq_some_iff.mp hr
  have hmem := (h.tasks t p (by simp) hp).minds.all u hraise hrun
  cases p with
  | ended r => cases hmem
  | ready next => cases hended
  | awaiting u next => cases hended
  | following n next => cases hended
  | gathering g next => cases hended
  | draining g next => cases hended

theorem Tended.waits (h : Tended c none l s) (hrest : s.queue = []) (ht : s.Running t)
    (hfollow : ∀ n next, s.phases[t]? ≠ some (.following n next)) :
    ∃ u, l.Raise t u ∧ s.Running u := by
  obtain ⟨p, hp⟩ : ∃ p, s.phases[t]? = some p := ⟨_, List.getElem?_eq_getElem ht.1⟩
  have hown := (h.tasks t p (by simp) hp).minds.own
  have hroused := h.tidy.roused t p (by simp) hp
  have hnone := ht.2
  rw [outcome?_eq, hp] at hnone
  have hgroup (g : Nat) (hown : ∀ u ∈ s.members g, l.Raise t u)
      (hr : ∃ group, s.groups[g]? = some group ∧ (group.outcome.isSome → .wake t ∈ s.queue)) :
      ∃ u, l.Raise t u ∧ s.Running u := by
    obtain ⟨group, hg, hwake⟩ := hr
    obtain ⟨u, hu, hrun⟩ := h.tidy.open_member hrest hg hwake
    rw [members_of_groups hg] at hown
    exact ⟨u, hown u hu, h.length ▸ (hown u hu).lt, hrun⟩
  cases p with
  | ready next => simp [Roused, hrest] at hroused
  | awaiting u next => exact ⟨u, hown u (List.mem_singleton_self u), hroused.running hrest⟩
  | following n next => exact absurd hp (hfollow n next)
  | gathering g next => exact hgroup g hown hroused
  | draining g next => exact hgroup g hown hroused
  | ended r => cases hnone

theorem Tended.ended (h : Tended c none l s) (hrest : s.queue = [])
    (hfollow : ∀ t n next, ¬ l.Ended t → s.phases[t]? ≠ some (.following n next))
    (ht : t < l.wards.length) : l.Ended t := by
  induction hn : l.wards.length - t using Nat.strongRecOn generalizing t with
  | ind n ih =>
    by_contra hrun
    obtain ⟨u, hraise, hu⟩ := h.waits hrest (h.running ht hrun) fun n next => hfollow t n next hrun
    have hlt := h.older t u hraise
    have hlt' := hraise.lt
    exact h.not_ended_of_running hu (ih (l.wards.length - u) (by omega) hlt' rfl)

end Polyglot.Loop.Schedule
