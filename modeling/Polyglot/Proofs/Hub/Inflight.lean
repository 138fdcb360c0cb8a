import Polyglot.Proofs.Hub.Life
import Polyglot.Proofs.Hub.Kept
import Polyglot.Proofs.Loop.Rest

/-!
What is being worked out for others, at all times of a life in which nobody cancels a task: each entry
has one leader, which takes it away when its work has ended, and who has joined the work gets what it
comes to.
-/

namespace Polyglot.Hub

open Loop

variable {K X : Type} {m : Machine K X} {old : State K X} {l : Book} {tasks : List Nat}
variable {s s' : Loop K X} {t u : Nat} {key : Mode × String} {r : Request}

/--
A task waits, as the leader for a key, for the end of its work.
-/
def LeadsWork (s : Loop K X) (t : Nat) (key : Mode × String) (u : Nat) : Prop :=
  ∃ k, s.phases[t]? = some (.awaiting u (resume key k))

def JoinsWork (s : Loop K X) (t : Nat) (r : Request) (u : Nat) : Prop :=
  ∃ n screen, s.phases[t]? = some (.following n (joined r closing)) ∧
    s.screens[n]? = some screen ∧ screen.task = u

def joint (r : Request) (result : Except (Stop Failure) (Option Envelope)) :
    Except (Stop Failure) (Option Envelope) :=
  result.map (·.map fun e => ⟨r, e.payload⟩)

theorem resume_inj (x : State K X) {key key' : Mode × String} {k k' : Envelope → Routine K X}
    (h : resume key k = resume key' k') : key = key' := by
  have hchange := congrFun h (.error .cancelled)
  simp only [resume, Routine.change.injEq] at hchange
  have hentries := congrArg State.inflight
    (congrFun hchange.1 { x with inflight := Table.set {} key 0 })
  by_contra hne
  have hkey := congrArg (·.get? key) hentries
  simp only [Table.get?_erase_self, Table.get?_erase_of_ne _ hne, Table.get?_set_self] at hkey
  cases hkey

namespace Accounts

theorem leads_iff (h : Accounts m old l tasks s) : LeadsWork s t key u ↔
    ∃ r, l.stage t = .pending (.leads r u) ∧ (r.mode, r.key) = key := by
  constructor
  · rintro ⟨k, hp⟩
    obtain ⟨point, hpoint, w, _, hfits⟩ := (h.tended.tasks t _ (by simp) hp).point rfl
    cases point with
    | start => exact absurd rfl (hfits.1 u key k)
    | free => exact absurd rfl (hfits.1 u key k)
    | leads r u' =>
      obtain ⟨k', _, heq⟩ := hfits
      injection heq with hu hresume
      subst hu
      exact ⟨r, hpoint, (resume_inj s.shared hresume).symm⟩
    | joins r u' =>
      obtain ⟨k', _, ⟨⟩⟩ := hfits
  · rintro ⟨r, hstage, rfl⟩
    have hlt : t < s.phases.length := by
      rw [← h.tended.length]
      by_contra hge
      rw [h.book.fresh t (Nat.le_of_not_lt hge)] at hstage
      cases hstage
    have hp := List.getElem?_eq_getElem hlt
    generalize s.phases[t] = p at hp
    have hrun : p.isEnded = false := by
      rw [Phase.isEnded_eq_isSome]
      cases ho : p.outcome? with
      | none => rfl
      | some o =>
        have hout : s.outcome? t = some o := by rw [Schedule.outcome?_eq, hp, Option.bind_some, ho]
        rw [h.tended.outcomes, hstage] at hout
        cases hout
    obtain ⟨point, hpoint, w, _, hfits⟩ := (h.tended.tasks t p (by simp) hp).point hrun
    rw [hstage] at hpoint
    cases hpoint
    obtain ⟨k, _, heq⟩ := hfits
    cases p with
    | awaiting u' next =>
      cases heq
      exact ⟨k, hp⟩
    | ready next => cases heq
    | following n next => cases heq
    | gathering g next => cases heq
    | draining g next => cases heq
    | ended o => cases heq

theorem leads_outside (h : Accounts m old l tasks s) (ht : t ∈ tasks) (hleads : LeadsWork s t key u) :
    s.phases[t]? = some (.awaiting u (resume key closing)) := by
  obtain ⟨k, hp⟩ := hleads
  obtain ⟨point, hpoint, w, hw, hfits⟩ := (h.tended.tasks t _ (by simp) hp).point rfl
  obtain rfl := Option.some.inj ((h.outside t ht).symm.trans hw)
  cases point with
  | start => exact absurd rfl (hfits.1 u key k)
  | free => exact absurd rfl (hfits.1 u key k)
  | leads r u' =>
    obtain ⟨k', hk', heq⟩ := hfits
    injection heq with hu hresume
    obtain rfl := hk' rfl
    rw [hp, hresume, resume_inj s.shared hresume]
  | joins r u' =>
    obtain ⟨k', _, ⟨⟩⟩ := hfits

theorem not_doomed (h : Accounts m old l tasks s) (ht : t ∈ tasks) : ¬ l.Doomed t :=
  Ledger.not_doomed (h.outside t ht) rfl

theorem exists_outside (h : Accounts m old l tasks s) (hlt : t < l.wards.length)
    (ht : ¬ l.Ended t) : ∃ t' ∈ tasks, ¬ l.Ended t' := by
  induction t using Nat.strongRecOn with
  | ind t ih =>
    have hw := List.getElem?_eq_getElem hlt
    cases hguardian : l.wards[t].guardian with
    | none => exact ⟨t, h.roots t _ hw hguardian, ht⟩
    | some g =>
      have hraise : l.Raise g t := ⟨_, hw, hguardian⟩
      have hglt := h.tended.older g t hraise
      apply ih g hglt (Nat.lt_trans hglt hlt)
      rintro ⟨o, ho⟩
      rw [← h.tended.outcomes, Schedule.outcome?_eq, Option.bind_eq_some_iff] at ho
      obtain ⟨p, hp, hout⟩ := ho
      have hminds := (h.tended.tasks g p (by simp) hp).minds.all t hraise ht
      cases p with
      | ended o => cases hminds
      | ready next => cases hout
      | awaiting u next => cases hout
      | following n next => cases hout
      | gathering g next => cases hout
      | draining g next => cases hout

theorem idle (h : Accounts m old l tasks s) (hended : ∀ t ∈ tasks, (s.outcome? t).isSome) :
    s.shared.inflight = {} := by
  apply Table.eq_empty
  rintro ⟨mode, key⟩
  cases hentry : s.shared.inflight.get? (mode, key) with
  | none => rfl
  | some u =>
    obtain ⟨t, r, hstage, _⟩ := h.book.entries.entry mode key u hentry
    obtain ⟨k, hp⟩ := h.leads_iff.mpr ⟨r, hstage, rfl⟩
    have hlt := (List.getElem?_eq_some_iff.mp hp).1
    obtain ⟨t', ht', hrun⟩ := h.exists_outside (h.tended.length ▸ hlt) (t := t) (by
      rintro ⟨o, ho⟩
      cases hstage.symm.trans ho)
    obtain ⟨o, ho⟩ := Option.isSome_iff_exists.mp (hended t' ht')
    exact absurd ⟨o, (h.tended.outcomes t' o).mp ho⟩ hrun

theorem next (h : Accounts m old l tasks s) (move : Move K X) (hmove : ∀ fuel t, move ≠ .cancel fuel t) :
    ∃ l' tasks', l.Extends l' ∧ tasks ⊆ tasks' ∧ Accounts m old l' tasks' (move.apply m s) :=
  h.runs (.step .refl move hmove)

end Accounts

theorem moves_apply (s : Loop K X) (move : Move K X)
    (hmove : ∀ i u, move = .fire i → s.queue[i]? = some (.wake u) → u = t) :
    Schedule.Moves t s (move.apply m s) := by
  cases move with
  | fire i => exact .fireAt s i fun u => hmove i u rfl
  | request a =>
    refine ⟨.of_eq rfl rfl, ?_⟩
    intro u _ hlt
    rw [Move.apply, Schedule.enter, Schedule.phases_enqueue, Schedule.phases_addTask,
      List.getElem?_append_left hlt]
  | cancel fuel u =>
    have hc := Schedule.cancels_cancel fuel s u
    exact .of_phases (.cancels hc) hc.phases
  | clear mode => exact .of_phases (.of_eq rfl rfl) rfl
  | change registry heads world root records calls ext => exact .of_phases (.of_eq rfl rfl) rfl

theorem phases_apply_of_ne (s : Loop K X) (move : Move K X) (hlt : t < s.phases.length)
    (hmove : ∀ i, move = .fire i → s.queue[i]? ≠ some (.wake t)) :
    (move.apply m s).phases[t]? = s.phases[t]? := by
  by_cases hwake : ∃ i u, move = .fire i ∧ s.queue[i]? = some (.wake u)
  · obtain ⟨i, u, rfl, hi⟩ := hwake
    have hmoves : Schedule.Moves u s (Move.apply m s (.fire i)) := by
      apply moves_apply
      rintro _ v ⟨⟩ hv
      exact Tick.wake.inj (Option.some.inj (hv.symm.trans hi))
    apply hmoves.phases t _ hlt
    rintro rfl
    exact hmove i rfl hi
  · have hmoves : Schedule.Moves s.phases.length s (move.apply m s) :=
      moves_apply s move fun i u hfire hi => absurd ⟨i, u, hfire, hi⟩ hwake
    exact hmoves.phases t (Nat.ne_of_lt hlt) hlt

theorem stands_apply (s : Loop K X) (move : Move K X) : Schedule.Stands s (move.apply m s) := by
  by_cases hwake : ∃ i u, move = .fire i ∧ s.queue[i]? = some (.wake u)
  · obtain ⟨i, u, rfl, hi⟩ := hwake
    have hmoves : Schedule.Moves u s (Move.apply m s (.fire i)) := by
      apply moves_apply
      rintro _ v ⟨⟩ hv
      exact Tick.wake.inj (Option.some.inj (hv.symm.trans hi))
    exact hmoves.toStands
  · have hmoves : Schedule.Moves s.phases.length s (move.apply m s) :=
      moves_apply s move fun i u hfire hi => absurd ⟨i, u, hfire, hi⟩ hwake
    exact hmoves.toStands

section Exec

theorem outcome?_finish (s : Loop K X) (hlt : t < s.phases.length)
    (result : Except (Stop Failure) (Option Envelope)) : (s.finish t result).outcome? t = some result := by
  rw [Schedule.finish, Schedule.outcome?_enqueue, Schedule.outcome?_setPhase, if_pos ⟨rfl, hlt⟩]
  rfl

theorem outcome?_closing (s : Loop K X) (hlt : t < s.phases.length) (e : Envelope) :
    (s.exec t (closing e)).outcome? t = some (.ok (some e)) := by
  rw [closing, keep, exec_look_bind]
  split
  · obtain ⟨records, heq⟩ := exec_trace s t e.request.debug dispatcherLog
      ("caching: " ++ e.request.location ++ " as " ++ e.request.key) fun _ =>
        .change (fun s => s.setMemo e.request.mode ((s.memo e.request.mode).set e.request.key e.payload))
          (.change (·.note (.finished e)) (.finish (.ok (some e))))
    refine (congrArg (·.outcome? t) heq).trans ?_
    exact outcome?_finish _ hlt _
  · exact outcome?_finish _ hlt _

theorem outcome?_ending (s : Loop K X) (hlt : t < s.phases.length)
    {result : Except (Stop Failure) (Option Envelope)} (hresult : result ≠ .ok none) :
    (s.exec t (ending result closing)).outcome? t = some result := by
  match result with
  | .ok (some e) => exact outcome?_closing s hlt e
  | .ok none => exact absurd rfl hresult
  | .error e => exact outcome?_finish s hlt _

theorem outcome?_joined (s : Loop K X) (hlt : t < s.phases.length) (r : Request)
    {result : Except (Stop Failure) (Option Envelope)} (hresult : result ≠ .ok none) :
    (s.exec t (joined r closing result)).outcome? t = some (joint r result) := by
  match result with
  | .ok (some e) => exact outcome?_closing s hlt ⟨r, e.payload⟩
  | .ok none => exact absurd rfl hresult
  | .error e => exact outcome?_finish s hlt _

end Exec

section Runs

theorem Accounts.outcome?_work (h : Accounts m old l tasks s) {g : Option Nat} {r : Request}
    (hu : l.wards[u]? = some ⟨g, .work r⟩) {result : Except (Stop Failure) (Option Envelope)}
    (hresult : s.outcome? u = some result) : result ≠ .ok none := by
  rintro rfl
  rw [h.tended.outcomes] at hresult
  obtain ⟨_, ⟨⟩, _⟩ := h.book.origins.worked u g r none hu hresult

theorem Accounts.outcome?_mono {l' : Book} {tasks' : List Nat} (h : Accounts m old l tasks s)
    (h' : Accounts m old l' tasks' s') (hl : l.Extends l')
    {result : Except (Stop Failure) (Option Envelope)} (hresult : s.outcome? u = some result) :
    s'.outcome? u = some result := by
  rw [h.tended.outcomes] at hresult
  rw [h'.tended.outcomes]
  exact hl.ended u result hresult

theorem Accounts.led_next (h : Accounts m old l tasks s) (ht : t ∈ tasks) (hleads : LeadsWork s t key u)
    (move : Move K X) (hmove : ∀ fuel t, move ≠ .cancel fuel t) :
    LeadsWork (move.apply m s) t key u ∨ ∃ result, (move.apply m s).outcome? u = some result ∧
      (move.apply m s).outcome? t = some result := by
  have hp := h.leads_outside ht hleads
  have hlt := (List.getElem?_eq_some_iff.mp hp).1
  by_cases hwake : ∃ i, move = .fire i ∧ s.queue[i]? = some (.wake t)
  · obtain ⟨i, rfl, hi⟩ := hwake
    rcases h.tended.fire_awaiting hi hp with ⟨_, _, hphases⟩ | ⟨result, hkeeps, hresult⟩
    · exact .inl ⟨closing, by rw [Move.apply, hphases, hp]⟩
    · rcases hresult with hresult | ⟨_, _, hdoom⟩
      · obtain ⟨r, hstage, _⟩ := h.leads_iff.mp hleads
        obtain ⟨hu, _⟩ := h.book.entries.leads t r u hstage
        obtain ⟨l', tasks', hl, _, h'⟩ := h.next (.fire i) hmove
        refine .inr ⟨result, h.outcome?_mono h' hl hresult, ?_⟩
        obtain ⟨s'', _, hphases, heq⟩ := hkeeps
        rw [Move.apply, heq]
        exact outcome?_ending { s'' with shared := _ } (hphases ▸ hlt) (h.outcome?_work hu hresult)
      · exact absurd hdoom (h.not_doomed ht)
  · refine .inl ⟨closing, ?_⟩
    rw [phases_apply_of_ne s move hlt fun i hfire hi => hwake ⟨i, hfire, hi⟩, hp]

theorem Accounts.joined_next (h : Accounts m old l tasks s) (ht : t ∈ tasks) (hjoins : JoinsWork s t r u)
    (move : Move K X) (hmove : ∀ fuel t, move ≠ .cancel fuel t) :
    JoinsWork (move.apply m s) t r u ∨ ∃ result, (move.apply m s).outcome? u = some result ∧
      (move.apply m s).outcome? t = some (joint r result) := by
  obtain ⟨n, screen, hp, hn, rfl⟩ := hjoins
  have hlt := (List.getElem?_eq_some_iff.mp hp).1
  obtain ⟨screen', hn', htask⟩ := (stands_apply s move).screens n screen hn
  by_cases hwake : ∃ i, move = .fire i ∧ s.queue[i]? = some (.wake t)
  · obtain ⟨i, rfl, hi⟩ := hwake
    rcases h.tended.fire_following hi hp hn with ⟨_, hphases⟩ | ⟨result, hkeeps, hresult⟩
    · exact .inl ⟨n, screen', by rw [Move.apply, hphases, hp], hn', htask⟩
    · rcases hresult with hresult | ⟨_, hdoom⟩
      · obtain ⟨g, r', hu⟩ : ∃ g r', l.wards[screen.task]? = some ⟨g, .work r'⟩ := by
          obtain ⟨point, hpoint, w, _, hfits⟩ := (h.tended.tasks t _ (by simp) hp).point rfl
          rw [Schedule.stance, Schedule.behind_of_screens hn] at hfits
          cases point with
          | start => exact absurd rfl (hfits.2 _ _)
          | free => exact absurd rfl (hfits.2 _ _)
          | leads r' u' =>
            obtain ⟨k', _, ⟨⟩⟩ := hfits
          | joins r' u' =>
            obtain ⟨k', _, heq⟩ := hfits
            injection heq with htask'
            obtain ⟨g, r'', hu, _⟩ := h.book.entries.joins t r' u' hpoint
            exact ⟨g, r'', htask' ▸ hu⟩
        obtain ⟨l', tasks', hl, _, h'⟩ := h.next (.fire i) hmove
        refine .inr ⟨result, h.outcome?_mono h' hl hresult, ?_⟩
        obtain ⟨s'', _, hphases, heq⟩ := hkeeps
        rw [Move.apply, heq]
        exact outcome?_joined s'' (hphases ▸ hlt) r (h.outcome?_work hu hresult)
      · exact absurd hdoom (h.not_doomed ht)
  · refine .inl ⟨n, screen', ?_, hn', htask⟩
    rw [phases_apply_of_ne s move hlt fun i hfire hi => hwake ⟨i, hfire, hi⟩, hp]

theorem Accounts.runs_until (waits : Loop K X → Prop)
    (f : Except (Stop Failure) (Option Envelope) → Except (Stop Failure) (Option Envelope))
    (hnext : ∀ l tasks s (move : Move K X), Accounts m old l tasks s → t ∈ tasks → waits s →
      (∀ fuel t, move ≠ .cancel fuel t) → waits (move.apply m s) ∨ ∃ result,
        (move.apply m s).outcome? u = some result ∧ (move.apply m s).outcome? t = some (f result))
    (h : Accounts m old l tasks s) (ht : t ∈ tasks) (hwaits : waits s) (hruns : Runs m s s') :
    waits s' ∨ ∃ result, s'.outcome? u = some result ∧ s'.outcome? t = some (f result) := by
  induction hruns with
  | refl => exact .inl hwaits
  | @step s' hruns move hmove ih =>
    obtain ⟨l', tasks', _, hsub, h'⟩ := h.runs hruns
    rcases ih with hwaits' | ⟨result, hu, ht'⟩
    · exact hnext l' tasks' s' move h' (hsub ht) hwaits' hmove
    · obtain ⟨l'', tasks'', hl', _, h''⟩ := h'.next move hmove
      exact .inr ⟨result, h'.outcome?_mono h'' hl' hu, h'.outcome?_mono h'' hl' ht'⟩

end Runs

/--
What holds at all times of the requests that work for each other.
-/
structure Coalesced (m : Machine K X) (tasks : List Nat) (s : Loop K X) : Prop where
  /-- a key has at most one entry -/
  nodup : s.shared.inflight.keys.Nodup
  /-- there is an entry exactly while its leader waits for the end of the work -/
  entry : ∀ key u, s.shared.inflight.get? key = some u ↔ ∃ t, LeadsWork s t key u
  /-- a key has one leader -/
  leader : ∀ key t t' u u', LeadsWork s t key u → LeadsWork s t' key u' → t = t' ∧ u = u'
  /-- an entry goes only in the tick that wakes its leader after the end of the work -/
  removed : ∀ (move : Move K X) key u, (∀ fuel t, move ≠ .cancel fuel t) → s.shared.inflight.get? key = some u →
    (move.apply m s).shared.inflight.get? key ≠ some u →
    ∃ i t, move = .fire i ∧ s.queue[i]? = some (.wake t) ∧ LeadsWork s t key u ∧
      (s.outcome? u).isSome
  /-- a leader goes on with the end of its work, or below a request that is cut off -/
  led : ∀ i t key u k, s.queue[i]? = some (.wake t) →
    s.phases[t]? = some (.awaiting u (resume key k)) → ∀ result, s.outcome? u = some result →
    s.GoesOn t (resume key k result) (s.fireAt i) ∨
      t ∉ tasks ∧ s.GoesOn t (resume key k (.error .cancelled)) (s.fireAt i)
  /-- who has joined some work goes on with its end, or below a request that is cut off -/
  heard : ∀ i t r k n screen, s.queue[i]? = some (.wake t) →
    s.phases[t]? = some (.following n (joined r k)) → s.screens[n]? = some screen →
    (s.fireAt i).phases = s.phases ∨
      (∃ result, s.outcome? screen.task = some result ∧
        s.GoesOn t (joined r k result) (s.fireAt i)) ∨
      t ∉ tasks ∧ s.GoesOn t (joined r k (.error .cancelled)) (s.fireAt i)
  /-- where there is an entry, the next request joins the work, or gets what it has come to at once -/
  joins : ∀ t (work : Block K X Envelope) r k u, t < s.phases.length →
    s.shared.inflight.get? (r.mode, r.key) = some u →
    (s.outcome? u = none → ∃ n screen,
      (s.exec t (share work r k)).phases[t]? = some (.following n (joined r k)) ∧
      (s.exec t (share work r k)).screens[n]? = some screen ∧ screen.task = u) ∧
    ∀ result, s.outcome? u = some result → ∃ records, s.exec t (share work r k) =
      { s with shared := { s.shared with records } }.exec t (joined r k result)
  /-- requests from outside that lead some work or have joined it end as it has ended -/
  shared : ∀ s', Runs m s s' → ∀ t ∈ tasks, ∀ u outcome, s'.outcome? t = some outcome →
    (∀ key, LeadsWork s t key u → s'.outcome? u = some outcome) ∧
    ∀ r, JoinsWork s t r u → ∃ result, s'.outcome? u = some result ∧ outcome = joint r result
  /-- work that has failed leaves nothing behind -/
  failed : ∀ i t key u e, LeadsWork s t key u → s.outcome? u = some (.error e) →
    s.queue[i]? = some (.wake t) → (s.fireAt i).shared.inflight.get? key = none ∧
      (∀ mode, (s.fireAt i).shared.memo mode = s.shared.memo mode) ∧
      ∃ e', (s.fireAt i).outcome? t = some (.error e') ∧ (t ∈ tasks → e' = e)
  /-- where there is no entry, the next request begins the work afresh -/
  afresh : ∀ t (work : Block K X Envelope) r k, t < s.phases.length →
    s.shared.inflight.get? (r.mode, r.key) = none →
    LeadsWork (s.exec t (share work r k)) t (r.mode, r.key) s.phases.length ∧
      (s.exec t (share work r k)).phases[s.phases.length]? =
        some (.ready (work fun e => .finish (.ok (some e))))
  /-- when all requests from outside have ended, nothing is left -/
  idle : (∀ t ∈ tasks, (s.outcome? t).isSome) → s.shared.inflight = {}

theorem Accounts.removed (h : Accounts m old l tasks s) (move : Move K X)
    (hmove : ∀ fuel t, move ≠ .cancel fuel t) (hentry : s.shared.inflight.get? key = some u)
    (hgone : (move.apply m s).shared.inflight.get? key ≠ some u) :
    ∃ i t, move = .fire i ∧ s.queue[i]? = some (.wake t) ∧ LeadsWork s t key u ∧
      (s.outcome? u).isSome := by
  obtain ⟨mode, key⟩ := key
  obtain ⟨t, r, hstage, rfl, rfl⟩ := h.book.entries.entry mode key u hentry
  have hleads : LeadsWork s t (r.mode, r.key) u := h.leads_iff.mpr ⟨r, hstage, rfl⟩
  obtain ⟨l', tasks', _, _, h'⟩ := h.next move hmove
  -- whoever still leads still has its entry
  have hmoved : (move.apply m s).phases[t]? ≠ s.phases[t]? := by
    intro hsame
    obtain ⟨k, hp⟩ := hleads
    obtain ⟨r', hstage', hkey⟩ := h'.leads_iff.mp (show LeadsWork _ t (r.mode, r.key) u from
      ⟨k, hsame.trans hp⟩)
    have hget := (h'.book.entries.leads t r' u hstage').2
    rw [hkey] at hget
    exact hgone hget
  obtain ⟨k, hp⟩ := hleads
  have hwake : ∃ i, move = .fire i ∧ s.queue[i]? = some (.wake t) := by
    by_contra hnot
    apply hmoved
    apply phases_apply_of_ne s move (List.getElem?_eq_some_iff.mp hp).1
    exact fun i hfire hi => hnot ⟨i, hfire, hi⟩
  obtain ⟨i, rfl, hi⟩ := hwake
  refine ⟨i, t, rfl, hi, ⟨k, hp⟩, ?_⟩
  rcases h.tended.fire_awaiting hi hp with ⟨_, _, hphases⟩ | ⟨result, _, hresult | ⟨hsome, _⟩⟩
  · rw [Move.apply, hphases] at hmoved
    exact absurd rfl hmoved
  · rw [hresult]
    rfl
  · exact hsome

theorem Accounts.failed (h : Accounts m old l tasks s) {i : Nat} {e : Stop Failure}
    (hleads : LeadsWork s t key u) (he : s.outcome? u = some (.error e))
    (hi : s.queue[i]? = some (.wake t)) : (s.fireAt i).shared.inflight.get? key = none ∧
      (∀ mode, (s.fireAt i).shared.memo mode = s.shared.memo mode) ∧
      ∃ e', (s.fireAt i).outcome? t = some (.error e') ∧ (t ∈ tasks → e' = e) := by
  obtain ⟨k, hp⟩ := hleads
  have hlt := (List.getElem?_eq_some_iff.mp hp).1
  have hend (e' : Stop Failure) (hkeeps : s.GoesOn t (resume key k (.error e')) (s.fireAt i))
      (he' : t ∈ tasks → e' = e) : (s.fireAt i).shared.inflight.get? key = none ∧
        (∀ mode, (s.fireAt i).shared.memo mode = s.shared.memo mode) ∧
        ∃ e', (s.fireAt i).outcome? t = some (.error e') ∧ (t ∈ tasks → e' = e) := by
    obtain ⟨s', hshared, hphases, heq⟩ := hkeeps
    rw [heq, ← hshared]
    refine ⟨Table.get?_erase_self _ _, memo_eq rfl rfl, e', ?_, he'⟩
    exact outcome?_finish { s' with shared := _ } (hphases ▸ hlt) _
  rcases h.tended.fire_awaiting hi hp with ⟨hnone, _⟩ | ⟨result, hkeeps, hresult | ⟨_, rfl, hdoom⟩⟩
  · rw [he] at hnone
    cases hnone
  · rw [he] at hresult
    cases hresult
    exact hend e hkeeps fun _ => rfl
  · exact hend _ hkeeps fun ht => absurd hdoom (h.not_doomed ht)

theorem leads_share (s : Loop K X) (work : Block K X Envelope) (k : Envelope → Routine K X)
    (hlt : t < s.phases.length) (hnone : s.shared.inflight.get? (r.mode, r.key) = none) :
    LeadsWork (s.exec t (share work r k)) t (r.mode, r.key) s.phases.length ∧
      (s.exec t (share work r k)).phases[s.phases.length]? =
        some (.ready (work fun e => .finish (.ok (some e)))) := by
  have hlen : s.phases.length = s.tasks.length := Schedule.length_phases s
  let child : Routine K X := work fun e => .finish (.ok (some e))
  let s₁ : Loop K X := (s.addTask ⟨.ready child, [], false⟩).enqueue [.wake s.tasks.length]
  let s₂ : Loop K X := { s₁ with
    shared := { s.shared with inflight := s.shared.inflight.set (r.mode, r.key) s.tasks.length } }
  have heq : s.exec t (share work r k) =
      s₂.exec t (.await s.tasks.length (resume (r.mode, r.key) k)) := by
    rw [share, exec_look_bind, hnone]
    rfl
  have hphases : s₂.phases = s.phases ++ [.ready child] := Schedule.phases_addTask s _
  have hnew : s₂.outcome? s.tasks.length = none := by
    rw [Schedule.outcome?_eq, hphases, ← hlen, List.getElem?_concat_length]
    rfl
  have hafter : (s.exec t (share work r k)).phases =
      (s.phases ++ [Phase.ready child]).set t (.awaiting s.tasks.length (resume (r.mode, r.key) k)) := by
    rw [heq]
    simp only [Schedule.exec, hnew]
    rw [Schedule.phases_setPhase, Schedule.phases_listen, hphases]
  rw [LeadsWork, hafter, hlen]
  constructor
  · refine ⟨k, ?_⟩
    rw [List.getElem?_set_self]
    rw [List.length_append]
    exact Nat.lt_add_right _ hlt
  · rw [List.getElem?_set_ne (by omega), ← hlen, List.getElem?_concat_length]

theorem joins_share (s : Loop K X) (work : Block K X Envelope) (k : Envelope → Routine K X)
    (hlt : t < s.phases.length) (hentry : s.shared.inflight.get? (r.mode, r.key) = some u) :
    (s.outcome? u = none → ∃ n screen,
      (s.exec t (share work r k)).phases[t]? = some (.following n (joined r k)) ∧
      (s.exec t (share work r k)).screens[n]? = some screen ∧ screen.task = u) ∧
    ∀ result, s.outcome? u = some result → ∃ records, s.exec t (share work r k) =
      { s with shared := { s.shared with records } }.exec t (joined r k result) := by
  obtain ⟨records, heq⟩ : ∃ records, s.exec t (share work r k) =
      ({ s with shared := { s.shared with records } } : Loop K X).exec t (.follow u (joined r k)) := by
    rw [share, exec_look_bind, hentry]
    exact exec_trace s t r.debug dispatcherLog ("joining in-flight: " ++ r.key) fun _ =>
      .follow u (joined r k)
  rw [heq]
  generalize hs' : ({ s with shared := { s.shared with records } } : Loop K X) = s'
  have houtcome : s'.outcome? u = s.outcome? u := by rw [← hs']; rfl
  constructor
  · intro hrun
    have hlt' : t < s'.phases.length := by rw [← hs']; exact hlt
    rw [hrun] at houtcome
    simp only [Schedule.exec, houtcome]
    refine ⟨s'.screens.length, ⟨u, t, none⟩, ?_, ?_, rfl⟩
    · rw [Schedule.phases_setPhase, Schedule.phases_listen, List.getElem?_set_self]
      exact hlt'
    · rw [Schedule.setPhase, Schedule.updateTask, Schedule.screens_listen]
      exact List.getElem?_concat_length
  · intro result hresult
    rw [hresult] at houtcome
    simp only [Schedule.exec, houtcome]
    exact ⟨records, hs' ▸ rfl⟩

theorem uncancelled_of_fires {a : Ask}
    (hs : Relation.ReflTransGen Schedule.Fires (Schedule.start old [requestRoutine m a]) s) :
    Uncancelled m old [0] s := by
  induction hs with
  | refl => exact Uncancelled.new.request a
  | tail _ hfires ih =>
    obtain ⟨i, _, rfl⟩ := hfires
    exact ih.other (.fire i) (by simp) (by simp)

theorem inflight_of_ended {a : Ask} {o : Except (Stop Failure) (Option Envelope)} (hold : old.inflight = {})
    (hs : Relation.ReflTransGen Schedule.Fires (Schedule.start old [requestRoutine m a]) s)
    (ho : s.outcome? 0 = some o) : s.shared.inflight = {} := by
  obtain ⟨l, hacc⟩ := (uncancelled_of_fires hs).accounts hold
  apply hacc.idle
  intro t ht
  rw [List.mem_singleton.mp ht, ho]
  rfl

/--
In a life in which nobody cancels a task, a key has one entry at most, which is there exactly while
its leader waits for the end of its work and goes in no other way; requests that lead work or have
joined it end as it has ended; work that has failed leaves nothing behind; and when all requests have
ended no entry is left.
-/
theorem coalesced_of_uncancelled (hold : old.inflight = {}) (h : Uncancelled m old tasks s) :
    Coalesced m tasks s := by
  obtain ⟨l, hacc⟩ := h.accounts hold
  constructor
  · exact hacc.book.entries.nodup
  · rintro ⟨mode, key⟩ u
    constructor
    · intro hentry
      obtain ⟨t, r, hstage, rfl, rfl⟩ := hacc.book.entries.entry mode key u hentry
      exact ⟨t, hacc.leads_iff.mpr ⟨r, hstage, rfl⟩⟩
    · rintro ⟨t, hleads⟩
      obtain ⟨r, hstage, hkey⟩ := hacc.leads_iff.mp hleads
      rw [← hkey]
      exact (hacc.book.entries.leads t r u hstage).2
  · intro key t t' u u' hleads hleads'
    obtain ⟨r, hstage, rfl⟩ := hacc.leads_iff.mp hleads
    obtain ⟨r', hstage', hkey⟩ := hacc.leads_iff.mp hleads'
    obtain ⟨rfl, rfl⟩ := hacc.book.entries.unique hstage hstage' (congrArg Prod.fst hkey)
      (congrArg Prod.snd hkey)
    exact ⟨rfl, rfl⟩
  · exact fun move key u hmove hentry hgone => hacc.removed move hmove hentry hgone
  · intro i t key u k hi hp result hresult
    rcases hacc.tended.fire_awaiting hi hp with ⟨hnone, _⟩ | ⟨result', hkeeps, hresult' | ⟨_, rfl, hdoom⟩⟩
    · rw [hresult] at hnone
      cases hnone
    · obtain rfl := Option.some.inj (hresult.symm.trans hresult')
      exact .inl hkeeps
    · exact .inr ⟨fun ht => hacc.not_doomed ht hdoom, hkeeps⟩
  · intro i t r k n screen hi hp hn
    rcases hacc.tended.fire_following hi hp hn with ⟨_, hphases⟩ | ⟨result, hkeeps, hresult | ⟨rfl, hdoom⟩⟩
    · exact .inl hphases
    · exact .inr (.inl ⟨result, hresult, hkeeps⟩)
    · exact .inr (.inr ⟨fun ht => hacc.not_doomed ht hdoom, hkeeps⟩)
  · exact fun t work r k u hlt hentry => joins_share s work k hlt hentry
  · intro s' hruns t ht u outcome houtcome
    constructor
    · intro key hleads
      have hled := hacc.runs_until (u := u) (LeadsWork · t key u) id
        (fun _ _ _ move h ht hleads hmove => h.led_next ht hleads move hmove) ht hleads hruns
      rcases hled with ⟨k, hp⟩ | ⟨result, hu, ht'⟩
      · rw [Schedule.outcome?_eq, hp] at houtcome
        cases houtcome
      · rw [houtcome] at ht'
        cases ht'
        exact hu
    · intro r hjoins
      have hjoined := hacc.runs_until (u := u) (JoinsWork · t r u) (joint r)
        (fun _ _ _ move h ht hjoins hmove => h.joined_next ht hjoins move hmove) ht hjoins hruns
      rcases hjoined with ⟨n, screen, hp, _⟩ | ⟨result, hu, ht'⟩
      · rw [Schedule.outcome?_eq, hp] at houtcome
        cases houtcome
      · rw [houtcome] at ht'
        exact ⟨result, hu, Option.some.inj ht'⟩
  · exact fun i t key u e hleads he hi => hacc.failed hleads he hi
  · exact fun t work r k hlt hnone => leads_share s work k hlt hnone
  · exact hacc.idle

def sharing : Machine Unit Unit where
  settings := { coalesce := true }
  perform := fun _ r => .done r .null

def twins : Loop Unit Unit :=
  (Schedule.start muteStart [requestRoutine sharing muteAsk, requestRoutine sharing muteAsk]).run 2

theorem uncancelled_twins : Uncancelled sharing muteStart [0, 1] twins :=
  (((Uncancelled.new.request muteAsk).request muteAsk).run 2)

/--
The entry of the first of two requests has a leader, and it is gone when both have ended.
-/
theorem twins_coalesced : Uncancelled sharing muteStart [0, 1] twins ∧
    (∃ t, LeadsWork twins t (.interpret, "x//source/d41d8cd98f00b204e9800998ecf8427e") 2) ∧
    (twins.run 6).shared.inflight = {} := by
  refine ⟨uncancelled_twins, ?_, ?_⟩
  · apply ((coalesced_of_uncancelled rfl uncancelled_twins).entry _ 2).mp
    decide +kernel
  · apply (coalesced_of_uncancelled rfl (uncancelled_twins.run 6)).idle
    decide +kernel

end Polyglot.Hub
