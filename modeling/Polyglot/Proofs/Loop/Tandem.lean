import Mathlib.Logic.Relation
import Polyglot.Proofs.Loop.Lockstep
import Polyglot.Proofs.Loop.Rest

/-!
Two runs whose tasks tend their wards. When the first task ends whose results are not close, only those
are left in whose care it has been, each waiting for the next. So no other task can hear of it.
-/

namespace Polyglot.Loop

variable {σ ε ρ κ π : Type}

section Rooted

variable {l l' : Ledger κ π ε ρ} {u : Nat}

def Ledger.Rooted (l : Ledger κ π ε ρ) : Prop :=
  ∀ (u : Nat) (w : Ward κ), l.wards[u]? = some w → u ≠ 0 → w.guardian.isSome

theorem Ledger.Rooted.grows (h : l.Rooted) (hl : l.Grows l') : l'.Rooted := by
  intro u w hw hu
  rcases hl.raised u w hw with hw | hsome
  · exact h u w hw hu
  · exact hsome

theorem Ledger.Rooted.guardian (h : l.Rooted) (hu : u < l.wards.length) (hne : u ≠ 0) :
    ∃ t, l.Raise t u := by
  have hw := List.getElem?_eq_getElem hu
  obtain ⟨t, ht⟩ := Option.isSome_iff_exists.mp (h u _ hw hne)
  exact ⟨t, _, hw, ht⟩

theorem Ledger.Rooted.below (h : l.Rooted) (holder : ∀ t u, l.Raise t u → t < u)
    (hu : u < l.wards.length) : Relation.ReflTransGen l.Raise 0 u := by
  induction u using Nat.strong_induction_on with
  | _ u ih =>
    by_cases hne : u = 0
    · rw [hne]
    · obtain ⟨t, ht⟩ := h.guardian hu hne
      have hlt := holder t u ht
      exact (ih t hlt (Nat.lt_trans hlt hu)).tail ht

end Rooted

namespace Schedule

variable {c : Likeness σ ρ} {d : Terms σ ε ρ κ π} {bs bs' gs gs' : Bonds ρ} {b q : ρ → ρ → Prop}
variable {l l' m m' : Ledger κ π ε ρ} {s s' z z' : Schedule σ ε ρ} {t u v i : Nat}

theorem Tended.ended_iff {busy : Option Nat} (h : Tended d busy l s) (t : Nat) :
    l.Ended t ↔ (s.outcome? t).isSome := by
  rw [Option.isSome_iff_exists]
  exact exists_congr fun r => (h.outcomes t r).symm

theorem Tended.faithful (h : Tended d none l s) : Faithful s := by
  intro n screen v hn hv
  rcases h.screens n screen hn _ hv with hended | ⟨hcancelled, _⟩
  · exact (h.outcomes _ _).mpr hended
  · cases hcancelled

def Late (c : Likeness σ ρ) (bs : Bonds ρ) (s s' : Schedule σ ε ρ) : Prop :=
  ∀ (t : Nat) q p p', bs[t]? = some q → s.phases[t]? = some p → s'.phases[t]? = some p' →
    p.isEnded = false → Leans c bs q p p'

namespace Twins

theorem leans_of_below (h : Twins c bs gs s s') (htended : Tended d none l s) (hv : ¬ l.Ended v)
    (hb : bs[v]? = some b) (hfar : ¬ c.Close b) (hle : Relation.ReflTransGen l.Raise u v) :
    ¬ l.Ended u ∧ (∃ q, bs[u]? = some q ∧ ¬ c.Close q) ∧
      (u = v ∨ ∃ w q p p', Relation.ReflTransGen l.Raise w v ∧ bs[u]? = some q ∧
        s.phases[u]? = some p ∧ s'.phases[u]? = some p' ∧ s.watched p = [w] ∧ Leans c bs q p p') := by
  induction hle using Relation.ReflTransGen.head_induction_on with
  | refl => exact ⟨hv, ⟨b, hb, hfar⟩, .inl rfl⟩
  | @head u w huw hwv ih =>
    obtain ⟨hw, ⟨b', hb', hfar'⟩, _⟩ := ih
    have hu : ¬ l.Ended u := fun hended => hw (htended.ended_of_guardian huw hended)
    have hlt : u < s.phases.length :=
      htended.length ▸ Nat.lt_trans (htended.older u w huw) huw.lt
    obtain ⟨q, p, p', hq, hp, hp', hwaits⟩ := h.phase hlt
    have hmem := (htended.tasks u p (by simp) hp).minds.all w huw hw
    obtain ⟨hwatched, hleans, hfar''⟩ := h.leans_of_watched hwaits hmem hb' hfar'
    exact ⟨hu, ⟨q, hq, hfar''⟩, .inr ⟨w, q, p, p', hwv, hq, hp, hp', hwatched, hleans⟩⟩

theorem late_of_ended (h : Twins c bs gs s s') (htended : Tended d none l s) (hv : ¬ l.Ended v)
    (hb : bs[v]? = some b) (hfar : ¬ c.Close b) (hbs : bs <+: bs') (htended' : Tended d none m z)
    (hl : l.Grows m) (hrooted : m.Rooted) (hmoves : Moves v s z) (hmoves' : Moves v s' z')
    (hended : m.Ended v) : Late c bs' z z' := by
  have hvlt : v < l.wards.length := by
    rw [htended.length, ← h.tasks]
    exact (List.getElem?_eq_some_iff.mp hb).1
  have hold {t u : Nat} (hraise : m.Raise t u) (hu : u < l.wards.length) : l.Raise t u :=
    hraise.of_prefix hl.wards hu
  -- whoever is above the task now was there before, and has not moved
  have hrest {u : Nat} (hle : Relation.ReflTransGen m.Raise u v) (hne : u ≠ v) :
      ∃ w q p p', Relation.ReflTransGen m.Raise w v ∧ bs[u]? = some q ∧
        z.phases[u]? = some p ∧ z'.phases[u]? = some p' ∧ z.watched p = [w] ∧ Leans c bs q p p' := by
    have hle' : Relation.ReflTransGen l.Raise u v := by
      clear hne
      induction hle using Relation.ReflTransGen.head_induction_on with
      | refl => exact .refl
      | @head u w huw hwv ih =>
        have hw : w ≤ v := by
          clear ih huw
          induction hwv using Relation.ReflTransGen.head_induction_on with
          | refl => exact Nat.le_refl _
          | head hraise _ ih => exact Nat.le_trans (Nat.le_of_lt (htended'.older _ _ hraise)) ih
        exact .head (hold huw (Nat.lt_of_le_of_lt hw hvlt)) ih
    obtain ⟨_, _, heq | ⟨w, q, p, p', hwv, hq, hp, hp', hwatched, hleans⟩⟩ :=
      h.leans_of_below htended hv hb hfar hle'
    · exact absurd heq hne
    · have hlt := (List.getElem?_eq_some_iff.mp hp).1
      have hlt' := (List.getElem?_eq_some_iff.mp hp').1
      have hmono : l.Raise ≤ m.Raise := fun _ _ hraise => Raises.mono hraise hl.wards
      refine ⟨w, q, p, p', Relation.ReflTransGen.mono hmono _ _ hwv, hq, ?_, ?_, ?_, hleans⟩
      · rw [hmoves.phases u hne hlt, hp]
      · rw [hmoves'.phases u hne hlt', hp']
      · rw [hmoves.watched (htended.tidy.owners u p hp), hwatched]
  have habove (u : Nat) (hu : u < m.wards.length) (hrun : ¬ m.Ended u) :
      Relation.ReflTransGen m.Raise u v ∧ u ≠ v := by
    induction u using Nat.strong_induction_on with
    | _ u ih =>
      refine ⟨?_, fun heq => hrun (heq ▸ hended)⟩
      by_cases hne : u = 0
      · rw [hne]
        exact hrooted.below htended'.older (Nat.lt_of_lt_of_le hvlt hl.wards.length_le)
      · obtain ⟨g, hg⟩ := hrooted.guardian hu hne
        have hlt := htended'.older g u hg
        have hgrun : ¬ m.Ended g := fun hgended => hrun (htended'.ended_of_guardian hg hgended)
        obtain ⟨hgv, hgne⟩ := ih g hlt (Nat.lt_trans hlt hu) hgrun
        obtain ⟨w, q, p, p', hwv, hq, hp, hp', hwatched, hleans⟩ := hrest hgv hgne
        have hmem := (htended'.tasks g p (by simp) hp).minds.all u hg hrun
        rw [hwatched] at hmem
        rw [List.mem_singleton.mp hmem]
        exact hwv
  intro u q p p' hq hp hp' hrun
  have hu : u < m.wards.length := htended'.length ▸ (List.getElem?_eq_some_iff.mp hp).1
  have hrunning : ¬ m.Ended u := by
    rw [htended'.ended_iff, outcome?_eq, hp]
    rw [Phase.isEnded_eq_isSome] at hrun
    simpa using hrun
  obtain ⟨huv, hne⟩ := habove u hu hrunning
  obtain ⟨w, q₁, p₁, p₁', _, hq₁, hp₁, hp₁', _, hleans⟩ := hrest huv hne
  obtain rfl := Option.some.inj (hp.symm.trans hp₁)
  obtain rfl := Option.some.inj (hp'.symm.trans hp₁')
  obtain rfl := Option.some.inj (hq.symm.trans (getElem?_grown hbs hq₁))
  exact hleans.mono hbs

end Twins

/--
The states of two runs are alike until a task has ended whose results are not close; from then on all tasks
that have not ended lean on another one.
-/
def Course (c : Likeness σ ρ) (bs : Bonds ρ) (s s' : Schedule σ ε ρ) : Prop :=
  (c.state s.shared s'.shared ∧ Open c bs s) ∨ (c.after s.shared s'.shared ∧ Late c bs s s')

/--
Two runs are alike and take the same course, and their tasks tend their wards.
-/
structure Tandem (c : Likeness σ ρ) (d : Terms σ ε ρ κ π) (bs gs : Bonds ρ) (l l' : Ledger κ π ε ρ)
    (s s' : Schedule σ ε ρ) : Prop where
  twins : Twins c bs gs s s'
  tended : Tended d none l s
  tended' : Tended d none l' s'
  inv : d.inv l s.shared
  inv' : d.inv l' s'.shared
  rooted : l.Rooted
  course : Course c bs s s'

def rouse (s : Schedule σ ε ρ) (i t : Nat) : Schedule σ ε ρ :=
  { s with queue := s.queue.eraseIdx i }.updateTask t fun task => { task with cancelled := false }

theorem phases_rouse (s : Schedule σ ε ρ) (i t : Nat) : (s.rouse i t).phases = s.phases :=
  phases_updateTask { s with queue := s.queue.eraseIdx i } t _ fun _ => rfl

theorem outcome?_rouse (s : Schedule σ ε ρ) (i t : Nat) : (s.rouse i t).outcome? = s.outcome? := by
  funext u
  rw [outcome?_eq, outcome?_eq, phases_rouse]

theorem fireAt_rouse {task : Task σ ε ρ} (hi : s.queue[i]? = some (.wake t))
    (htask : s.tasks[t]? = some task) : s.fireAt i =
      match (s.rouse i t).hears task.cancelled task.phase with
      | some next => (s.rouse i t).exec t next
      | none => s.rouse i t := by
  rw [fireAt, hi]
  exact wake_eq (s := { s with queue := s.queue.eraseIdx i }) htask

theorem fireAt_of_hears {task : Task σ ε ρ} (hi : s.queue[i]? = some (.wake t))
    (htask : s.tasks[t]? = some task) {next : Routine σ ε ρ}
    (hnext : (s.rouse i t).hears task.cancelled task.phase = some next) :
    s.fireAt i = (s.rouse i t).exec t next := by
  rw [fireAt_rouse hi htask, hnext]

theorem fireAt_of_deaf {task : Task σ ε ρ} (hi : s.queue[i]? = some (.wake t))
    (htask : s.tasks[t]? = some task) (hnone : (s.rouse i t).hears task.cancelled task.phase = none) :
    s.fireAt i = s.rouse i t := by
  rw [fireAt_rouse hi htask, hnone]

theorem hears_of_ended (s : Schedule σ ε ρ) (cut : Bool) {p : Phase σ ε ρ} (hp : p.isEnded = true) :
    s.hears cut p = none := by
  cases p with
  | ended r => rfl
  | ready next => cases hp
  | awaiting u next => cases hp
  | following n next => cases hp
  | gathering g next => cases hp
  | draining g next => cases hp

theorem moves_wake (hi : s.queue[i]? = some (.wake t)) : Moves t s (s.fireAt i) := by
  apply Moves.fireAt
  intro u hu
  rw [hi] at hu
  cases hu
  rfl

theorem Faithful.rouse (h : Faithful s) (i t : Nat) : Faithful (s.rouse i t) := by
  intro n screen v hn hv
  rw [outcome?_rouse]
  exact h n screen v hn hv

namespace Twins

theorem pop (h : Twins c bs gs s s') (i : Nat) :
    Twins c bs gs { s with queue := s.queue.eraseIdx i } { s' with queue := s'.queue.eraseIdx i } := by
  refine h.of_same ?_ rfl rfl rfl rfl
  have hshape := congrArg (fun z : Schedule Unit ε Unit => { z with queue := z.queue.eraseIdx i }) h.shape
  exact hshape

theorem rouse (h : Twins c bs gs s s') (i t : Nat) : Twins c bs gs (s.rouse i t) (s'.rouse i t) := by
  refine (h.pop i).of_same ?_ (phases_updateTask _ t _ fun _ => rfl) (phases_updateTask _ t _ fun _ => rfl)
    rfl rfl
  have hclear (s : Schedule σ ε ρ) : (s.updateTask t fun task => { task with cancelled := false }).shape =
      s.shape.updateTask t fun task => { task with cancelled := false } :=
    s.shape_updateTask (fun _ => rfl) t
  rw [Schedule.rouse, Schedule.rouse, hclear, hclear, (h.pop i).shape]

theorem task (h : Twins c bs gs s s') {task : Task σ ε ρ} (htask : s.tasks[t]? = some task) :
    ∃ task', s'.tasks[t]? = some task' ∧ task'.cancelled = task.cancelled := by
  have hshape : (s.tasks[t]?).map (·.shape) = (s'.tasks[t]?).map (·.shape) := by
    rw [← List.getElem?_map, ← List.getElem?_map]
    exact congrArg (fun s : Schedule Unit ε Unit => s.tasks[t]?) h.shape
  rw [htask, Option.map_some] at hshape
  obtain ⟨task', htask', hsame⟩ := Option.map_eq_some_iff.mp hshape.symm
  exact ⟨task', htask', congrArg (fun task : Task Unit ε Unit => task.cancelled) hsame⟩

theorem relay (h : Twins c bs gs s s') (n : Nat) : Twins c bs gs (s.relay n) (s'.relay n) := by
  have hsame (s : Schedule σ ε ρ) : (s.relay n).phases = s.phases ∧ (s.relay n).groups = s.groups := by
    rcases relay_cases s n with ⟨_, _, _, _, _, heq⟩ | ⟨heq, _⟩
    · rw [heq]
      exact ⟨rfl, rfl⟩
    · rw [heq]
      exact ⟨rfl, rfl⟩
  apply h.of_same _ (hsame s).1 (hsame s').1 (hsame s).2 (hsame s').2
  rw [shape_relay, shape_relay, h.shape]

end Twins

theorem forall₂_results_of_twins (h : Twins c bs gs s s') {us : List Nat}
    (hus : ∀ u ∈ us, ∃ b, bs[u]? = some b ∧ c.Close b ∧ ∀ v v', b v v' → q v v') :
    List.Forall₂ q (s.results us) (s'.results us) := by
  induction us with
  | nil => exact .nil
  | cons u us ih =>
    obtain ⟨b, hb, _, hq⟩ := hus u List.mem_cons_self
    have hrest := ih fun u hu => hus u (List.mem_cons_of_mem _ hu)
    simp only [results, List.filterMap_cons] at hrest ⊢
    rcases h.outcome? hb with ⟨hnone, hnone'⟩ | ⟨r, r', hr, hr', hagrees⟩
    · simpa only [hnone, hnone'] using hrest
    · cases hagrees with
      | ok hv =>
        simp only [hr, hr']
        exact .cons (hq _ _ hv) hrest
      | error e => simpa only [hr, hr'] using hrest

theorem groups_member (s : Schedule σ ε ρ) (g u : Nat) {i : Nat} {new : Group ε ρ}
    (hi : (s.member g u).groups[i]? = some new) : ∃ old, s.groups[i]? = some old ∧
      new.members = old.members ∧ (new.outcome = old.outcome ∨
        old.outcome = none ∧ ∀ vs, new.outcome = some (.ok vs) → vs = s.results old.members) := by
  cases hg : s.groups[g]? with
  | none =>
    have heq : s.member g u = s := by simp [member, hg]
    exact ⟨new, heq ▸ hi, rfl, .inl rfl⟩
  | some group =>
    have htally (o : Option (Except (Stop ε) (List ρ))) (hi : (s.tally g o).groups[i]? = some new)
        (ho : o = group.outcome ∨ group.outcome = none ∧
          ∀ vs, o = some (.ok vs) → vs = s.results group.members) :
        ∃ old, s.groups[i]? = some old ∧ new.members = old.members ∧ (new.outcome = old.outcome ∨
          old.outcome = none ∧ ∀ vs, new.outcome = some (.ok vs) → vs = s.results old.members) := by
      rw [groups_tally] at hi
      split at hi
      · next heq =>
        subst heq
        rw [hg, Option.map_some] at hi
        obtain rfl := Option.some.inj hi
        exact ⟨group, hg, rfl, ho⟩
      · exact ⟨new, hi, rfl, .inl rfl⟩
    rcases member_cases hg with ⟨_, heq⟩ | ⟨hnone, _, _, heq⟩ | ⟨hnone, r, hr, heq⟩
    · exact htally _ (heq ▸ hi) (.inl rfl)
    · exact htally none (heq ▸ hi) (.inl hnone.symm)
    · rw [heq] at hi
      refine htally (some r) hi (.inr ⟨hnone, ?_⟩)
      intro vs hvs
      exact (hr.ok vs (Option.some.inj hvs)).2.1

theorem member_same (s : Schedule σ ε ρ) (g u : Nat) : (s.member g u).phases = s.phases ∧
    (s.member g u).shared = s.shared ∧ (s.member g u).groups.length = s.groups.length := by
  have htally (o : Option (Except (Stop ε) (List ρ))) :
      (s.tally g o).groups.length = s.groups.length := List.length_modify ..
  cases hg : s.groups[g]? with
  | none =>
    have heq : s.member g u = s := by simp [member, hg]
    rw [heq]
    exact ⟨rfl, rfl, rfl⟩
  | some group =>
    rcases member_cases hg with ⟨_, heq⟩ | ⟨_, _, _, heq⟩ | ⟨_, r, _, heq⟩
    · exact heq ▸ ⟨rfl, rfl, htally _⟩
    · exact heq ▸ ⟨rfl, rfl, htally _⟩
    · exact heq ▸ ⟨rfl, rfl, htally _⟩

theorem Twins.member (h : Twins c bs gs s s') (g u : Nat) :
    Twins c bs gs (s.member g u) (s'.member g u) where
  shape := by rw [shape_member, shape_member, h.shape]
  tasks := by rw [(member_same s g u).1, h.tasks]
  boards := by rw [(member_same s g u).2.2, h.boards]
  phases := by
    rw [(member_same s g u).1, (member_same s' g u).1]
    exact h.phases
  groups := by
    intro i q new new' hq hnew hnew'
    obtain ⟨old, hold, hmembers, hout⟩ := groups_member s g u hnew
    obtain ⟨old', hold', hmembers', hout'⟩ := groups_member s' g u hnew'
    obtain ⟨group, group', hgroup, hgroup', hshape, hconfers⟩ := h.group hq
    obtain rfl := Option.some.inj (hold.symm.trans hgroup)
    obtain rfl := Option.some.inj (hold'.symm.trans hgroup')
    have hnone : old.outcome = none ↔ old'.outcome = none := by
      have hsame := congrArg (fun g : Group ε Unit => g.outcome.isSome) hshape
      simp only [Group.shape, Option.isSome_map] at hsame
      rw [← Option.not_isSome_iff_eq_none, ← Option.not_isSome_iff_eq_none, hsame]
    have hsame : old'.members = old.members :=
      (congrArg (fun g : Group ε Unit => g.members) hshape).symm
    refine ⟨by rw [hmembers]; exact hconfers.members, ?_⟩
    intro vs vs' hvs hvs'
    rcases hout with heq | ⟨hopen, hresults⟩
    · rcases hout' with heq' | ⟨hopen', _⟩
      · exact hconfers.results vs vs' (heq ▸ hvs) (heq' ▸ hvs')
      · rw [heq, hnone.mpr hopen'] at hvs
        cases hvs
    · rcases hout' with heq' | ⟨_, hresults'⟩
      · rw [heq', hnone.mp hopen] at hvs'
        cases hvs'
      · rw [hresults vs hvs, hresults' vs' hvs', hsame]
        exact forall₂_results_of_twins h hconfers.members

namespace Tandem

theorem course_of_same (h : Tandem c d bs gs l l' s s') (hshared : z.shared = s.shared)
    (hshared' : z'.shared = s'.shared) (hphases : z.phases = s.phases) (hphases' : z'.phases = s'.phases) :
    Course c bs z z' := by
  rw [Course, hshared, hshared', Late, hphases, hphases', Open]
  refine h.course.imp_left fun ⟨hx, hopen⟩ => ⟨hx, ?_⟩
  intro t q hq hfar
  rw [outcome?_eq, hphases, ← outcome?_eq]
  exact hopen t q hq hfar

theorem course_of_exec (h : Tandem c d bs gs l l' s s') (hopen : Open c bs s)
    (hbs : bs <+: bs') (htended : Tended d none m z) (hl : l.Grows m) (hmoves : Moves t s z)
    (hmoves' : Moves t s' z') (hothers : ∀ u, u ≠ t → z.outcome? u = s.outcome? u)
    (hq : bs[t]? = some q) (hrun : s.outcome? t = none)
    (hx : c.after z.shared z'.shared)
    (hopen' : c.Close q ∨ z.outcome? t = none → c.state z.shared z'.shared) : Course c bs' z z' := by
  by_cases hfar : c.Close q ∨ z.outcome? t = none
  · refine .inl ⟨hopen' hfar, ?_⟩
    intro u q' hq' hclose
    by_cases hut : u = t
    · subst hut
      obtain rfl := Option.some.inj (hq'.symm.trans (getElem?_grown hbs hq))
      exact hfar.resolve_left hclose
    · rw [hothers u hut]
      by_cases hu : u < bs.length
      · have hb := List.getElem?_eq_getElem hu
        obtain rfl := Option.some.inj (hq'.symm.trans (getElem?_grown hbs hb))
        exact hopen u _ hb hclose
      · rw [outcome?_eq, List.getElem?_eq_none (h.twins.tasks ▸ Nat.le_of_not_lt hu)]
        rfl
  · obtain ⟨hclose, hended⟩ := not_or.mp hfar
    have hv : ¬ l.Ended t := by
      rw [h.tended.ended_iff, hrun]
      simp
    refine .inr ⟨hx, h.twins.late_of_ended h.tended hv hq hclose hbs htended hl (h.rooted.grows hl) hmoves
      hmoves' ?_⟩
    rw [htended.ended_iff]
    exact Option.isSome_iff_ne_none.mpr hended

theorem wake_open (h : Tandem c d bs gs l l' s s') (hx : c.state s.shared s'.shared) (hopen : Open c bs s)
    (hi : s.queue[i]? = some (.wake t)) (hi' : s'.queue[i]? = some (.wake t)) (hl : l.Grows m)
    (htended : Tended d none m (s.fireAt i)) (hq : bs[t]? = some q) {p p' : Phase σ ε ρ}
    (hp : s.phases[t]? = some p) (hrun : p.isEnded = false) {next next' : Routine σ ε ρ}
    (hfire : s.fireAt i = (s.rouse i t).exec t next) (hfire' : s'.fireAt i = (s'.rouse i t).exec t next')
    (hnews : Alike c bs q next next' ∨ Leans c bs q p p' ∧ Straight c q next next') :
    ∃ bs' gs', bs <+: bs' ∧ Twins c bs' gs' (s.fireAt i) (s'.fireAt i) ∧
      Course c bs' (s.fireAt i) (s'.fireAt i) := by
  have htwins := h.twins.rouse i t
  have hmoves := moves_wake hi
  have hmoves' := moves_wake hi'
  have hnone := (running_of_not_ended hp hrun).2
  have hothers (u : Nat) (hu : u ≠ t) : (s.fireAt i).outcome? u = s.outcome? u := by
    rw [hfire, outcome?_exec next _ hu, outcome?_rouse]
  rcases hnews with hr | ⟨hleans, hr⟩
  · have hopen' : Open c bs (s.rouse i t) := by
      rw [Open, outcome?_rouse]
      exact hopen
    obtain ⟨bs', gs', hbs, -, htwins', hx'⟩ := htwins.exec hr hopen' hq hx
    rw [← hfire, ← hfire'] at htwins' hx'
    exact ⟨bs', gs', hbs, htwins', h.course_of_exec hopen hbs htended hl hmoves hmoves' hothers hq hnone
      (c.after_of_state hx') fun _ => hx'⟩
  · obtain ⟨htwins', hx', e, e', hended, -⟩ := htwins.execStraight hq hr (c.after_of_state hx)
    rw [← hfire, ← hfire'] at htwins' hx'
    rw [← hfire] at hended
    refine ⟨bs, gs, List.prefix_rfl, htwins', h.course_of_exec hopen List.prefix_rfl htended hl hmoves
      hmoves' hothers hq hnone hx' fun hor => ?_⟩
    rcases hor with hclose | hrest
    · exact absurd hclose hleans.not_close
    · have hlt : t < (s.rouse i t).phases.length := by
        rw [phases_rouse]
        exact (List.getElem?_eq_some_iff.mp hp).1
      rw [outcome?_eq, hended, List.getElem?_set_self hlt] at hrest
      cases hrest

theorem wake_late (h : Tandem c d bs gs l l' s s') (hx : c.after s.shared s'.shared)
    (hlate : Late c bs s s') (hq : bs[t]? = some q) {next next' : Routine σ ε ρ}
    (hfire : s.fireAt i = (s.rouse i t).exec t next) (hfire' : s'.fireAt i = (s'.rouse i t).exec t next')
    (hr : Straight c q next next') :
    Twins c bs gs (s.fireAt i) (s'.fireAt i) ∧ Course c bs (s.fireAt i) (s'.fireAt i) := by
  obtain ⟨htwins, hx', e, e', hended, hended'⟩ := (h.twins.rouse i t).execStraight hq hr hx
  rw [← hfire, ← hfire'] at htwins hx'
  rw [← hfire, phases_rouse] at hended
  rw [← hfire', phases_rouse] at hended'
  refine ⟨htwins, .inr ⟨hx', ?_⟩⟩
  intro u q p p' hq' hu hu' hlive
  rw [hended, List.getElem?_set] at hu
  rw [hended', List.getElem?_set] at hu'
  by_cases htu : t = u
  · rw [if_pos htu] at hu
    split at hu
    · obtain rfl := Option.some.inj hu
      cases hlive
    · cases hu
  · rw [if_neg htu] at hu hu'
    exact hlate u q p p' hq' hu hu' hlive

theorem wake (h : Tandem c d bs gs l l' s s') (hi : s.queue[i]? = some (.wake t)) (hl : l.Grows m)
    (htended : Tended d none m (s.fireAt i)) : ∃ bs' gs', bs <+: bs' ∧
      Twins c bs' gs' (s.fireAt i) (s'.fireAt i) ∧ Course c bs' (s.fireAt i) (s'.fireAt i) := by
  have hi' : s'.queue[i]? = some (.wake t) := h.twins.queue_eq ▸ hi
  cases htask : s.tasks[t]? with
  | none =>
    have htask' : s'.tasks[t]? = none := by
      rw [List.getElem?_eq_none_iff, ← length_phases, ← h.twins.length_phases_eq, length_phases]
      exact List.getElem?_eq_none_iff.mp htask
    have heq : s.fireAt i = { s with queue := s.queue.eraseIdx i } := by
      simp only [Schedule.fireAt, hi, fire, Schedule.wake, htask]
    have heq' : s'.fireAt i = { s' with queue := s'.queue.eraseIdx i } := by
      simp only [Schedule.fireAt, hi', fire, Schedule.wake, htask']
    rw [heq, heq']
    exact ⟨bs, gs, List.prefix_rfl, h.twins.pop i, h.course_of_same rfl rfl rfl rfl⟩
  | some task =>
    obtain ⟨task', htask', hcut⟩ := h.twins.task htask
    have hp : s.phases[t]? = some task.phase := by rw [phases_getElem?, htask, Option.map_some]
    have hp' : s'.phases[t]? = some task'.phase := by rw [phases_getElem?, htask', Option.map_some]
    have hq := List.getElem?_eq_getElem (h.twins.tasks ▸ (List.getElem?_eq_some_iff.mp hp).1)
    have hwaits := h.twins.phases t _ _ _ hq hp hp'
    have htwins := h.twins.rouse i t
    have hdeaf (hnone : (s.rouse i t).hears task.cancelled task.phase = none)
        (hnone' : (s'.rouse i t).hears task.cancelled task'.phase = none) :
        ∃ bs' gs', bs <+: bs' ∧ Twins c bs' gs' (s.fireAt i) (s'.fireAt i) ∧
          Course c bs' (s.fireAt i) (s'.fireAt i) := by
      rw [fireAt_of_deaf hi htask hnone, fireAt_of_deaf hi' htask' (hcut ▸ hnone')]
      exact ⟨bs, gs, List.prefix_rfl, htwins,
        h.course_of_same rfl rfl (phases_rouse s i t) (phases_rouse s' i t)⟩
    rcases h.course with ⟨hx, hopen⟩ | ⟨hx, hlate⟩
    · have hopen' : Open c bs (s.rouse i t) := by
        rw [Open, outcome?_rouse]
        exact hopen
      rcases htwins.hears hopen' (h.tended.faithful.rouse i t) (h.tended'.faithful.rouse i t) hwaits
        task.cancelled with ⟨hnone, hnone'⟩ | ⟨next, next', hnext, hnext', hnews⟩
      · exact hdeaf hnone hnone'
      · exact h.wake_open hx hopen hi hi' hl htended hq hp (not_ended_of_hears hnext)
          (fireAt_of_hears hi htask hnext) (fireAt_of_hears hi' htask' (hcut ▸ hnext')) hnews
    · cases hrun : task.phase.isEnded with
      | true => exact hdeaf (hears_of_ended _ _ hrun) (hears_of_ended _ _ (hwaits.isEnded_eq ▸ hrun))
      | false =>
        rcases htwins.leans_hears (hlate t _ _ _ hq hp hp' hrun) task.cancelled with
          ⟨hnone, hnone'⟩ | ⟨next, next', hnext, hnext', hr⟩
        · exact hdeaf hnone hnone'
        · exact ⟨bs, gs, List.prefix_rfl, h.wake_late hx hlate hq (fireAt_of_hears hi htask hnext)
            (fireAt_of_hears hi' htask' (hcut ▸ hnext')) hr⟩

theorem fireAt (h : Tandem c d bs gs l l' s s') (i : Nat) : ∃ bs' gs' m m', bs <+: bs' ∧
    Tandem c d bs' gs' m m' (s.fireAt i) (s'.fireAt i) := by
  obtain ⟨m, hm, htended, hinv⟩ := h.tended.fireAt h.inv i
  obtain ⟨m', -, htended', hinv'⟩ := h.tended'.fireAt h.inv' i
  suffices hboth : ∃ bs' gs', bs <+: bs' ∧ Twins c bs' gs' (s.fireAt i) (s'.fireAt i) ∧
      Course c bs' (s.fireAt i) (s'.fireAt i) by
    obtain ⟨bs', gs', hbs, htwins, hcourse⟩ := hboth
    exact ⟨bs', gs', m, m', hbs, htwins, htended, htended', hinv, hinv', h.rooted.grows hm, hcourse⟩
  cases hi : s.queue[i]? with
  | none =>
    have heq : s.fireAt i = s := by simp only [Schedule.fireAt, hi]
    have heq' : s'.fireAt i = s' := by simp only [Schedule.fireAt, ← h.twins.queue_eq, hi]
    rw [heq, heq']
    exact ⟨bs, gs, List.prefix_rfl, h.twins, h.course⟩
  | some tick =>
    cases tick with
    | wake t => exact h.wake hi hm htended
    | member g u =>
      have heq (s : Schedule σ ε ρ) (hi : s.queue[i]? = some (.member g u)) :
          s.fireAt i = Schedule.member { s with queue := s.queue.eraseIdx i } g u := by
        simp only [Schedule.fireAt, hi, fire]
      rw [heq s hi, heq s' (h.twins.queue_eq ▸ hi)]
      have hsame := member_same { s with queue := s.queue.eraseIdx i } g u
      have hsame' := member_same { s' with queue := s'.queue.eraseIdx i } g u
      exact ⟨bs, gs, List.prefix_rfl, (h.twins.pop i).member g u,
        h.course_of_same hsame.2.1 hsame'.2.1 hsame.1 hsame'.1⟩
    | relay n =>
      have heq (s : Schedule σ ε ρ) (hi : s.queue[i]? = some (.relay n)) :
          s.fireAt i = Schedule.relay { s with queue := s.queue.eraseIdx i } n := by
        simp only [Schedule.fireAt, hi, fire]
      have hsame (s : Schedule σ ε ρ) : (s.relay n).shared = s.shared ∧ (s.relay n).phases = s.phases := by
        rcases relay_cases s n with ⟨_, _, _, _, _, heq⟩ | ⟨heq, _⟩
        · rw [heq]
          exact ⟨rfl, rfl⟩
        · rw [heq]
          exact ⟨rfl, rfl⟩
      rw [heq s hi, heq s' (h.twins.queue_eq ▸ hi)]
      exact ⟨bs, gs, List.prefix_rfl, (h.twins.pop i).relay n,
        h.course_of_same (hsame _).1 (hsame _).1 (hsame _).2 (hsame _).2⟩

theorem fireAll (h : Tandem c d bs gs l l' s s') (is : List Nat) : ∃ bs' gs' m m', bs <+: bs' ∧
    Tandem c d bs' gs' m m' (is.foldl Schedule.fireAt s) (is.foldl Schedule.fireAt s') := by
  induction is generalizing bs gs l l' s s' with
  | nil => exact ⟨bs, gs, l, l', List.prefix_rfl, h⟩
  | cons i is ih =>
    obtain ⟨_, _, _, _, hbs, hnext⟩ := h.fireAt i
    obtain ⟨bs', gs', m, m', hbs', hall⟩ := ih hnext
    exact ⟨bs', gs', m, m', hbs.trans hbs', hall⟩

end Tandem

end Schedule

end Polyglot.Loop
