import Polyglot.Proofs.Loop.CutOff

/-!
A loop whose tasks tend their wards goes on to do so, whatever tick is fired next, and the terms hold
whenever no task runs.
-/

namespace Polyglot.Loop.Schedule

variable {σ ε ρ κ π : Type} {c : Terms σ ε ρ κ π} {l l' : Ledger κ π ε ρ} {us : List Nat}
variable {s s' : Schedule σ ε ρ} {t u : Nat} {busy : Option Nat} {p : Phase σ ε ρ}

section Running

theorem Tended.changeShared (h : Tended c busy l s) (x : σ) :
    Tended c busy l { s with shared := x } := by
  apply h.still (h.tidy.changeShared x) (fun _ => id) rfl (.of_eq rfl rfl)
  · exact fun t ht => ⟨h.unmarked t ht, ht⟩
  · exact h.groups
  · exact h.screens

theorem marks_addTask (s : Schedule σ ε ρ) (task : Task σ ε ρ) :
    (s.addTask task).marks = s.marks ++ [task.cancelled] := by
  simp [Schedule.marks, addTask]

theorem Tended.start (h : Tended c busy l s) (w : Ward κ)
    (hw : ∀ t, w.guardian = some t → busy = some t ∧ t < l.wards.length) {child : Routine σ ε ρ}
    {point : π} (hfits : c.fits w.role point (.pause child))
    (hchild : c.Ready l.wards.length (child.Tends c l.wards.length []) (l.start w point)) :
    Tended c busy (l.start w point)
      ((s.addTask ⟨.ready child, [], false⟩).enqueue [.wake s.tasks.length]) := by
  generalize hs' : (s.addTask ⟨.ready child, [], false⟩).enqueue [.wake s.tasks.length] = s'
  have hlen : l.wards.length = s.tasks.length := by rw [h.length, length_phases]
  have hphases : s'.phases = s.phases ++ [.ready child] := by
    rw [← hs', phases_enqueue, phases_addTask]
  have houtcome : s'.outcome? = s.outcome? := by
    rw [← hs', outcome?_enqueue, outcome?_addTask]
    rfl
  have hmarks : s'.marks = s.marks ++ [false] := by
    rw [← hs']
    exact marks_addTask s _
  have hstands : Stands s s' := by
    rw [← hs']
    exact .of_eq rfl rfl
  have hl : l.Extends (l.start w point) := .start h.new w point
  have holder (t u : Nat) (hu : (l.start w point).Raise t u) : t < u := by
    rcases hu.of_concat with hu | ⟨rfl, hguardian⟩
    · exact h.older t u hu
    · exact (hw t hguardian).2
  have hphase {t : Nat} {p : Phase σ ε ρ} (hp : s'.phases[t]? = some p) :
      (t < l.wards.length ∧ s.phases[t]? = some p) ∨ (t = l.wards.length ∧ p = .ready child) := by
    rw [hphases, List.getElem?_append] at hp
    rw [h.length]
    split at hp
    · next hlt => exact .inl ⟨hlt, hp⟩
    · next ht =>
      have hlt := (List.getElem?_eq_some_iff.mp hp).1
      simp only [List.length_singleton] at hlt
      obtain rfl : t = s.phases.length := by omega
      exact .inr ⟨rfl, by simpa using hp.symm⟩
  have hmark {t : Nat} (ht : s'.marks[t]? = some true) : s.marks[t]? = some true := by
    rw [hmarks, List.getElem?_append] at ht
    split at ht
    · exact ht
    · cases List.mem_singleton.mp (List.mem_of_getElem? ht)
  constructor
  · rw [← hs']
    exact h.tidy.spawn child
  · rw [hphases, Ledger.wards_start, List.length_append, List.length_append, h.length]
    rfl
  · exact holder
  · intro t ht
    rw [Ledger.wards_start, List.length_append, List.length_singleton] at ht
    rw [Ledger.stage_start_of_ne _ _ _ (by omega)]
    exact h.fresh t (by omega)
  · intro t ht
    rw [Ledger.wards_start, List.length_append]
    exact Nat.lt_add_right _ (h.known t ht)
  · intro t r
    rw [houtcome, h.outcomes]
    by_cases ht : t = l.wards.length
    · subst ht
      simp [h.new]
    · rw [Ledger.stage_start_of_ne _ _ _ ht]
  · intro t p hbusy hp
    rcases hphase hp with ⟨ht, hp⟩ | ⟨rfl, rfl⟩
    · refine (h.tasks t p hbusy hp).frame (h.tidy.owners t p hp) hstands
        (.start h.new w point (Nat.ne_of_lt ht)) ?_ ?_
      · intro u hu
        rcases hu.of_concat with hu | ⟨rfl, hguardian⟩
        · exact hu
        · exact absurd (hw t hguardian).1 hbusy
      · exact fun u hu hdoom => .inl (hdoom.of_concat h.older hu.lt)
    · refine ⟨fun _ => ⟨point, l.stage_start_self w point, w, ?_, hfits⟩, ⟨by rintro u ⟨⟩, ?_⟩,
        (by rintro _ u ⟨⟩), hchild⟩
      · rw [Ledger.wards_start, List.getElem?_concat_length]
      · intro u hu _
        have hlt := hu.lt
        have := holder _ _ hu
        rw [Ledger.wards_start, List.length_append, List.length_singleton] at hlt
        omega
  · intro t p hp ht
    have hlt := (List.getElem?_eq_some_iff.mp (hmark ht)).1
    rw [Schedule.marks, List.length_map, ← hlen] at hlt
    rcases hphase hp with ⟨_, hp⟩ | ⟨rfl, _⟩
    · obtain ⟨hdoom, hover⟩ := h.marks t p hp (hmark ht)
      exact ⟨hl.doomed hdoom, hover.mono (h.tidy.owners t p hp) hl hstands⟩
    · exact absurd hlt (Nat.lt_irrefl _)
  · exact fun t ht => h.unmarked t (hmark ht)
  · intro g group hg
    rw [← hs'] at hg
    exact (h.groups g group hg).mono hl
  · intro n screen hn
    rw [← hs'] at hn
    exact (h.screens n screen hn).mono hl

theorem Tended.settle (h : Tended c (some t) l s) (ht : s.Running t) {stage : Stage π ε ρ}
    (htidy : Tidy none s') (hphases : s'.phases = s.phases.set t p) (hs : Stands s s')
    (hmarks : s'.marks = s.marks) (hstage : ∀ r, p.outcome? = some r ↔ stage = .ended r)
    (hp : Abides c (l.reach t stage) s' t p)
    (hgroups : ∀ (g : Nat) (group : Group ε ρ), s'.groups[g]? = some group → Honest l group)
    (hscreens : ∀ (n : Nat) (screen : Screen ε ρ), s'.screens[n]? = some screen →
      Upright l screen) : Tended c none (l.reach t stage) s' := by
  have hend : ¬ l.Ended t := h.not_ended_of_running ht
  have hl : l.Extends (l.reach t stage) := .reach hend stage
  have hlt : t < l.wards.length := h.length ▸ ht.1
  constructor
  · exact htidy
  · rw [hphases, List.length_set, Ledger.wards_reach, h.length]
  · exact h.older
  · intro u hu
    rw [Ledger.wards_reach] at hu
    rw [Ledger.stage_reach_of_ne _ _ _ (by omega)]
    exact h.fresh u hu
  · exact h.known
  · intro u r
    rw [outcome?_eq, hphases, List.getElem?_set]
    by_cases hu : t = u
    · subst hu
      simp [ht.1, hstage]
    · rw [if_neg hu, ← outcome?_eq, h.outcomes, Ledger.stage_reach_of_ne _ _ _ (Ne.symm hu)]
  · intro u q _ hq
    rw [hphases, List.getElem?_set] at hq
    split at hq
    · next hu =>
      subst hu
      rw [if_pos ht.1] at hq
      obtain rfl := Option.some.inj hq
      exact hp
    · next hu =>
      exact (h.tasks u q (by simpa using hu) hq).frame (h.tidy.owners u q hq) hs
        (.reach hend (Ne.symm hu) stage) (fun _ => id) fun _ _ => .inl
  · intro u q hq hmark
    rw [hmarks] at hmark
    have hu : t ≠ u := by
      rintro rfl
      exact h.unmarked t hmark rfl
    rw [hphases, List.getElem?_set_ne hu] at hq
    obtain ⟨hdoom, hover⟩ := h.marks u q hq hmark
    exact ⟨hl.doomed hdoom, hover.mono (h.tidy.owners u q hq) hl hs⟩
  · simp
  · exact fun g group hg => (hgroups g group hg).mono hl
  · exact fun n screen hn => (hscreens n screen hn).mono hl

theorem Tended.wait (h : Tended c (some t) l s) (ht : s.Running t) (hminds : l.Minds t us)
    {point : π} (htidy : Tidy none s') (hphases : s'.phases = s.phases.set t p) (hs : Stands s s')
    (hmarks : s'.marks = s.marks) (hrun : p.isEnded = false) (hwatched : s'.watched p = us)
    (hattached : p.drains = false → l.Attached t us) (hfits : c.Fits t l point (s'.stance p))
    (hp : PhaseTends c s' t (l.reach t (.pending point)) p)
    (hgroups : ∀ (g : Nat) (group : Group ε ρ), s'.groups[g]? = some group → Honest l group)
    (hscreens : ∀ (n : Nat) (screen : Screen ε ρ), s'.screens[n]? = some screen →
      Upright l screen) : Tended c none (l.reach t (.pending point)) s' := by
  have hl : l.Extends (l.reach t (.pending point)) := .reach (h.not_ended_of_running ht) _
  apply h.settle ht htidy hphases hs hmarks _ _ hgroups hscreens
  · intro r
    rw [Phase.isEnded_eq_isSome] at hrun
    simp_all
  · exact {
      point := fun _ => ⟨point, l.stage_reach_self t _, hfits.mono hl⟩
      minds := hwatched ▸ hminds.extend hl rfl
      attached := fun hdrains => hwatched ▸ hattached hdrains
      tends := hp }

theorem Tended.assemble (h : Tended c (some t) l s) (ht : s.Running t) (hne : us ≠ [])
    (hminds : l.Minds t us) {point : π} (drains : Bool) (phase : Nat → Phase σ ε ρ)
    (hphase : (∃ next, phase = (.gathering · next) ∧ drains = false) ∨
      ∃ next, phase = (.draining · next) ∧ drains = true)
    (hattached : drains = false → l.Attached t us)
    (hkeeps : ∀ s' : Schedule σ ε ρ, s'.members s.groups.length = us →
      c.Fits t l point (s'.stance (phase s.groups.length)) ∧
        PhaseTends c s' t (l.reach t (.pending point)) (phase s.groups.length)) :
    Tended c none (l.reach t (.pending point)) (s.assemble t us drains phase) := by
  have hgroups := groups_assemble s t us drains phase
  have hscreens := screens_assemble s t us drains phase
  have hmembers : (s.assemble t us drains phase).members s.groups.length = us := by
    rw [Schedule.members, hgroups, List.getElem?_concat_length]
    rfl
  obtain ⟨hfits, htends⟩ := hkeeps _ hmembers
  have hus : ∀ u ∈ us, u < s.phases.length := fun u hu => h.length ▸ (hminds.own u hu).lt
  have hstands : Stands s (s.assemble t us drains phase) := by
    refine ⟨?_, fun n screen hn => ⟨screen, hscreens ▸ hn, rfl⟩⟩
    intro g group hg
    refine ⟨group, ?_, rfl⟩
    rw [hgroups, List.getElem?_append_left (List.getElem?_eq_some_iff.mp hg).1, hg]
  apply h.wait ht hminds (h.tidy.assemble ht hne hus drains phase hphase)
    (phases_assemble s t us drains phase) hstands (marks_assemble s t us drains phase) _ _ _ hfits
    htends
  · intro g group hg
    rw [hgroups, List.getElem?_append] at hg
    split at hg
    · exact h.groups g group hg
    · obtain rfl := List.mem_singleton.mp (List.mem_of_getElem? hg)
      refine ⟨?_, ?_, ?_, ?_, ?_⟩ <;> simp
  · intro n screen hn
    exact h.screens n screen (hscreens ▸ hn)
  · rcases hphase with ⟨next, rfl, _⟩ | ⟨next, rfl, _⟩ <;> rfl
  · rcases hphase with ⟨next, rfl, _⟩ | ⟨next, rfl, _⟩ <;> exact hmembers
  · intro hnot
    apply hattached
    rcases hphase with ⟨next, rfl, hdrains⟩ | ⟨next, rfl, hdrains⟩
    · exact hdrains
    · cases hnot

theorem Tended.finish (h : Tended c (some t) l s) (ht : s.Running t) (hminds : l.Minds t [])
    (r : Except (Stop ε) ρ) : Tended c none (l.reach t (.ended r)) (s.finish t r) := by
  apply h.settle ht (h.tidy.finish ht r) (phases_setPhase s t _) (.of_eq rfl rfl)
    (marks_setPhase s t _) _ _ h.groups h.screens
  · simp [Phase.outcome?]
  · exact {
      point := by rintro ⟨⟩
      minds := hminds.extend (.reach (h.not_ended_of_running ht) _) rfl
      attached := fun _ => Ledger.attached_nil _ t
      tends := trivial }

theorem Tended.pause (h : Tended c (some t) l s) (ht : s.Running t) (hminds : l.Minds t [])
    (hattached : l.Attached t []) {next : Routine σ ε ρ} {point : π}
    (hfits : c.Fits t l point (.pause next))
    (hready : c.Ready t (next.Tends c t []) (l.reach t (.pending point))) :
    Tended c none (l.reach t (.pending point)) ((s.setPhase t (.ready next)).enqueue [.wake t]) := by
  have htidy : Tidy none ((s.enqueue [.wake t]).setPhase t (.ready next)) :=
    (h.tidy.wake t).settle ht rfl trivial (List.mem_append_right _ (by simp))
  exact h.wait ht hminds (p := .ready next) htidy (phases_setPhase s t _) (.of_eq rfl rfl)
    (marks_setPhase s t _) rfl rfl (fun _ => hattached) hfits hready h.groups h.screens

theorem Tended.await (h : Tended c (some t) l s) (ht : s.Running t) (hminds : l.Minds t [u])
    (hattached : l.Attached t [u]) {next : Except (Stop ε) ρ → Routine σ ε ρ} {point : π}
    (hfits : c.Fits t l point (.await u next))
    (hawaits : c.Awaits t u (fun r => (next r).Tends c t []) (l.reach t (.pending point))) :
    Tended c none (l.reach t (.pending point))
      ((s.listen u (.wake t)).setPhase t (.awaiting u next)) := by
  have hlt : u < s.phases.length := h.length ▸ (hminds.own u (List.mem_singleton_self u)).lt
  apply h.wait ht hminds (p := .awaiting u next) (h.tidy.await ht hlt next) _ _ _ rfl rfl
    (fun _ => hattached) hfits hawaits
  · intro g group hg
    exact h.groups g group (groups_listen s u _ ▸ hg)
  · intro n screen hn
    exact h.screens n screen (screens_listen s u _ ▸ hn)
  · rw [phases_setPhase, phases_listen]
  · exact .of_eq (groups_listen s u _) (screens_listen s u _)
  · rw [marks_setPhase, marks_listen]

theorem Tended.follow (h : Tended c (some t) l s) (ht : s.Running t) (hminds : l.Minds t [])
    (hattached : l.Attached t []) (hlt : u < l.wards.length)
    {next : Except (Stop ε) ρ → Routine σ ε ρ} {point : π}
    (hfits : c.Fits t l point (.follow u next))
    (hfollows : c.Follows t u (fun r => (next r).Tends c t []) (l.reach t (.pending point))) :
    Tended c none (l.reach t (.pending point))
      (((s.addScreen ⟨u, t, none⟩).listen u (.relay s.screens.length)).setPhase t
        (.following s.screens.length next)) := by
  have hbehind : (((s.addScreen ⟨u, t, none⟩).listen u (.relay s.screens.length)).setPhase t
      (.following s.screens.length next)).behind s.screens.length = u := by
    rw [behind, screens_follow, List.getElem?_concat_length]
    rfl
  apply h.wait ht hminds (h.tidy.follow ht (h.length ▸ hlt) next) (phases_follow s u t _ _)
    (.follow s u t _ _)
  · rw [marks_setPhase, marks_listen]
    rfl
  · rfl
  · rfl
  · exact fun _ => hattached
  · rw [stance, hbehind]
    exact hfits
  · rw [PhaseTends, hbehind]
    exact hfollows
  · intro g group hg
    exact h.groups g group (groups_follow s u t _ _ ▸ hg)
  · intro n screen hn
    rw [screens_follow, List.getElem?_append] at hn
    split at hn
    · exact h.screens n screen hn
    · obtain rfl := List.mem_singleton.mp (List.mem_of_getElem? hn)
      rintro r ⟨⟩

theorem Tended.exec (r : Routine σ ε ρ) (h : Tended c (some t) l s) (ht : s.Running t)
    (hminds : l.Minds t us) (hattached : l.Attached t us) (hr : r.Tends c t us l s.shared) :
    ∃ l', l.Grows l' ∧ Tended c none l' (s.exec t r) ∧ c.inv l' (s.exec t r).shared := by
  have hend : ¬ l.Ended t := h.not_ended_of_running ht
  induction r generalizing s l us with
  | finish r =>
    obtain ⟨rfl, hinv⟩ := hr
    exact ⟨_, .of_extends (.reach hend (.ended r)) rfl, h.finish ht hminds r, hinv⟩
  | pause next ih =>
    obtain ⟨rfl, point, ⟨hfits, hinv⟩, hready⟩ := hr
    exact ⟨_, .of_extends (.reach hend (.pending point)) rfl,
      h.pause ht hminds hattached hfits hready, hinv⟩
  | look next ih => exact ih s.shared h ht hminds hattached hr hend
  | change f next ih =>
    exact ih (h.changeShared (f s.shared)) ht hminds hattached hr hend
  | spawn child next _ ih =>
    obtain ⟨role, point, hfits, hchild, hnext⟩ := hr
    have hlt : t < l.wards.length := h.length ▸ ht.1
    have hlen : s.tasks.length = l.wards.length := by rw [h.length, length_phases]
    have hstart := h.start ⟨some t, role⟩ (by rintro _ ⟨⟩; exact ⟨rfl, hlt⟩) hfits hchild
    have ht' := ht.spawn child [.wake s.tasks.length]
    rw [Schedule.exec]
    rw [hlen] at hstart ht' ⊢
    obtain ⟨l', hl, hrest⟩ := ih l.wards.length hstart ht' (hminds.start h.new role point)
      (hattached.start hminds.own h.older h.known role point) hnext
      (hstart.not_ended_of_running ht')
    exact ⟨l', (Ledger.Grows.start h.new t role point).trans hl, hrest⟩
  | await u next ih =>
    obtain ⟨rfl, hu, point, ⟨hfits, hinv⟩, hawaits⟩ := hr
    have hout : s.outcome? u = none := by
      rw [Option.eq_none_iff_forall_ne_some]
      exact fun r ho => hu ⟨r, (h.outcomes u r).mp ho⟩
    simp only [Schedule.exec, hout]
    rw [shared_await]
    exact ⟨_, .of_extends (.reach hend (.pending point)) rfl,
      h.await ht hminds hattached hfits hawaits, hinv⟩
  | follow u next ih =>
    obtain ⟨rfl, hlt, hnow, hlater⟩ := hr
    simp only [Schedule.exec]
    split
    · next r ho => exact ih r h ht hminds hattached (hnow r ((h.outcomes u r).mp ho)) hend
    · next ho =>
      have hu : ¬ l.Ended u := by
        rintro ⟨r, hr⟩
        rw [← h.outcomes, ho] at hr
        cases hr
      obtain ⟨point, ⟨hfits, hinv⟩, hfollows⟩ := hlater hu
      rw [shared_follow]
      exact ⟨_, .of_extends (.reach hend (.pending point)) rfl,
        h.follow ht hminds hattached hlt hfits hfollows, hinv⟩
  | gather vs next ih =>
    obtain ⟨rfl, hnil, hwait⟩ := hr
    simp only [Schedule.exec]
    split
    · next hempty =>
      obtain rfl := List.isEmpty_iff.mp hempty
      exact ih (.ok []) h ht hminds hattached (hnil rfl) hend
    · next hne =>
      obtain ⟨point, ⟨hfits, hinv⟩, hgathers⟩ := hwait (by simpa using hne)
      rw [shared_assemble]
      refine ⟨_, .of_extends (.reach hend (.pending point)) rfl, ?_, hinv⟩
      apply h.assemble ht (by simpa using hne) hminds
      · exact .inl ⟨next, rfl, rfl⟩
      · exact fun _ => hattached
      · intro s' hs'
        rw [stance, PhaseTends, hs']
        exact ⟨hfits, hgathers⟩
  | drain vs next ih =>
    obtain ⟨rfl, hnil, hwait⟩ := hr
    simp only [Schedule.exec]
    split
    · next hempty =>
      obtain rfl := List.isEmpty_iff.mp hempty
      exact ih (.ok ()) h ht hminds hattached (hnil rfl) hend
    · next hne =>
      obtain ⟨point, ⟨hfits, hinv⟩, hdrains⟩ := hwait (by simpa using hne)
      have hc := cancels_cancelAll s us
      have hend' : ¬ (l.cutOff us).Ended t := hend
      have hgrows : l.Grows ((l.cutOff us).reach t (.pending point)) :=
        .of_extends ((Ledger.Extends.cutOff l us).trans (.reach hend' (.pending point))) rfl
      rw [shared_assemble, hc.shared]
      refine ⟨_, hgrows, ?_, hinv⟩
      apply (h.cutOff hminds.own).assemble (hc.running ht) (by simpa using hne)
        (hminds.extend (.cutOff l us) rfl)
      · exact .inr ⟨next, rfl, rfl⟩
      · rintro ⟨⟩
      · intro s' hs'
        rw [stance, PhaseTends, hs']
        exact ⟨hfits, hdrains⟩

end Running

section Fires

theorem Tended.hears (h : Tended c (some t) l s) (howned : Owned s t p) (habides : Abides c l s t p)
    {cut : Bool} (hcut : cut → l.Doomed t ∧ Over l s p) (hinv : c.inv l s.shared)
    {next : Routine σ ε ρ} (hnext : s.hears cut p = some next) :
    ∃ us, l.Minds t us ∧ l.Attached t us ∧ next.Tends c t us l s.shared := by
  have hminds := habides.minds
  have hattached := habides.attached
  have htends := habides.tends
  cases p with
  | ready next =>
    obtain ⟨hgo, hstop⟩ := htends l s.shared (.refl t l) hinv
    refine ⟨[], hminds, hattached rfl, ?_⟩
    cases cut
    · obtain rfl := Option.some.inj hnext
      exact hgo
    · obtain rfl := Option.some.inj hnext
      exact ⟨rfl, hstop (hcut rfl).1⟩
  | ended r => cases hnext
  | awaiting u next =>
    obtain ⟨hgo, hstop⟩ := htends l s.shared (.refl t l) hinv
    obtain ⟨r, hr, rfl⟩ := Option.map_eq_some_iff.mp hnext
    have hu : l.Ended u := by
      cases cut
      · exact ⟨r, (h.outcomes u r).mp hr⟩
      · exact (hcut rfl).2 u (List.mem_singleton_self u)
    refine ⟨[], hminds.nil ?_, Ledger.attached_nil l t, ?_⟩
    · intro v hv
      rw [List.mem_singleton.mp hv]
      exact hu
    · cases cut
      · exact hgo r ((h.outcomes u r).mp hr) (hattached rfl u (List.mem_singleton_self u))
      · obtain rfl := Option.some.inj hr
        exact hstop (hcut rfl).1 hu
  | following n next =>
    obtain ⟨hgo, hstop⟩ := htends l s.shared (.refl t l) hinv
    obtain ⟨r, hr, rfl⟩ := Option.map_eq_some_iff.mp hnext
    refine ⟨[], hminds, hattached rfl, ?_⟩
    cases cut
    · obtain ⟨screen, hn, rfl⟩ := howned
      rw [hn] at hr
      rw [behind_of_screens hn] at hgo
      rcases h.screens n screen hn r hr with hended | ⟨rfl, hdoom⟩
      · exact hgo r hended
      · exact hstop hdoom
    · obtain rfl := Option.some.inj hr
      exact hstop (hcut rfl).1
  | gathering g next =>
    obtain ⟨hok, herror, hstop⟩ := htends l s.shared (.refl t l) hinv
    obtain ⟨r, hr, rfl⟩ := Option.map_eq_some_iff.mp hnext
    obtain ⟨group, hg, rfl, hdrains⟩ := howned
    have hhonest := h.groups g group hg
    have hmembers := members_of_groups hg
    cases cut
    · rw [hg] at hr
      cases r with
      | ok vs =>
        have hvs := hhonest.results vs hdrains hr
        rw [← hmembers] at hvs
        exact ⟨[], hminds.nil (Ledger.ended_of_results hvs), Ledger.attached_nil l _, hok vs hvs⟩
      | error e =>
        refine ⟨_, hminds, hattached rfl, ?_⟩
        rcases hhonest.failure e hdrains hr with ⟨u, hu, he⟩ | ⟨rfl, hdoom⟩
        · rw [← hmembers] at hu
          exact herror u e hu he (hattached rfl u hu)
        · exact hstop hdoom
    · obtain rfl := Option.some.inj hr
      exact ⟨_, hminds, hattached rfl, hstop (hcut rfl).1⟩
  | draining g next =>
    have hgo := htends l s.shared (.refl t l) hinv
    obtain ⟨r, hr, rfl⟩ := Option.map_eq_some_iff.mp hnext
    obtain ⟨group, hg, rfl, hdrains⟩ := howned
    have hhonest := h.groups g group hg
    have hmembers := members_of_groups hg
    have hall : ∀ u ∈ s.members g, l.Ended u := by
      cases cut
      · rw [hmembers]
        apply hhonest.ended hdrains
        rw [hg] at hr
        obtain ⟨o, ho, _⟩ := Option.map_eq_some_iff.mp hr
        exact Option.isSome_of_eq_some ho
      · exact (hcut rfl).2
    obtain ⟨hok, hstop⟩ := hgo hall
    refine ⟨[], hminds.nil hall, Ledger.attached_nil l _, ?_⟩
    cases cut
    · rw [hg] at hr
      obtain ⟨o, ho, rfl⟩ := Option.map_eq_some_iff.mp hr
      cases o with
      | ok vs => exact hok
      | error e =>
        obtain ⟨rfl, hdoom⟩ := hhonest.drained e hdrains ho
        exact hstop hdoom
    · obtain rfl := Option.some.inj hr
      exact hstop (hcut rfl).1

theorem marks_clear (s : Schedule σ ε ρ) (t u : Nat)
    (h : (s.updateTask t fun task => { task with cancelled := false }).marks[u]? = some true) :
    t ≠ u ∧ s.marks[u]? = some true := by
  rw [Schedule.marks, List.getElem?_map, tasks_updateTask] at h
  split at h
  · cases hs : s.tasks[u]? <;> simp [hs] at h
  · next hne => exact ⟨hne, by rwa [Schedule.marks, List.getElem?_map]⟩

theorem Tended.wake (h : Tended c none l s) (hpop : Pops (.wake t) s s') (hinv : c.inv l s.shared) :
    ∃ l', l.Grows l' ∧ Tended c none l' (s'.wake t) ∧ c.inv l' (s'.wake t).shared := by
  have hold : c.inv l s'.shared := hpop.shared ▸ hinv
  have hstands : Stands s s' := .of_eq hpop.groups hpop.screens
  have hmarks : s'.marks = s.marks := by rw [Schedule.marks, hpop.tasks, ← Schedule.marks]
  have hgroups (g : Nat) (group : Group ε ρ) (hg : s'.groups[g]? = some group) : Honest l group :=
    h.groups g group (hpop.groups ▸ hg)
  have hscreens (n : Nat) (screen : Screen ε ρ) (hn : s'.screens[n]? = some screen) :
      Upright l screen := h.screens n screen (hpop.screens ▸ hn)
  cases htask : s'.tasks[t]? with
  | none =>
    have heq : s'.wake t = s' := by simp only [Schedule.wake, htask]
    have hphase : s'.phases[t]? = none := by rw [phases_getElem?, htask, Option.map_none]
    rw [heq]
    refine ⟨l, .refl l, h.still ?_ (fun _ _ => by simp) hpop.phases hstands ?_ hgroups hscreens, hold⟩
    · apply (h.tidy.wakes hpop).rest
      intro p hp
      rw [hphase] at hp
      cases hp
    · rw [hmarks]
      exact fun u hu => ⟨by simp, hu⟩
  | some task =>
    have hc := Cancels.clear s' t
    have hp : s'.phases[t]? = some task.phase := by rw [phases_getElem?, htask, Option.map_some]
    have hp' := hpop.phases ▸ hp
    have howned := h.tidy.owners t _ hp'
    have hsame := hears_updateTask (s := s') (t := t)
      (fun task => { task with cancelled := false }) fun _ => rfl
    have hclear := marks_clear s' t
    rw [hmarks] at hclear
    rw [wake_eq htask]
    simp only [hsame]
    have hstill {busy : Option Nat} (hbusy : busy = none ∨ busy = some t) (htidy : Tidy busy s') :
        Tended c busy l (s'.updateTask t fun task => { task with cancelled := false }) := by
      apply h.still (htidy.cancels hc) (fun _ _ => by simp) (hc.phases.trans hpop.phases)
        (hstands.trans (.cancels hc)) _ hgroups hscreens
      intro u hu
      obtain ⟨hne, hmark⟩ := hclear u hu
      refine ⟨?_, hmark⟩
      rcases hbusy with rfl | rfl
      · simp
      · simpa using hne
    generalize hs'' : s'.updateTask t (fun task => { task with cancelled := false }) = s'' at hstill hc hsame
    split
    · next next hnext =>
      have hup := hstill (.inr rfl) (h.tidy.wakes hpop)
      have hstands'' : Stands s s'' := hstands.trans (.cancels hc)
      have habides : Abides c l s'' t task.phase :=
        (h.tasks t _ (by simp) hp').frame howned hstands'' (.refl t l) (fun _ => id) fun _ _ => .inl
      have hcut : task.cancelled → l.Doomed t ∧ Over l s'' task.phase := by
        intro hmark
        have hmark' : s.marks[t]? = some true := by
          rw [← hmarks, Schedule.marks, List.getElem?_map, htask, Option.map_some, hmark]
        obtain ⟨hdoom, hover⟩ := h.marks t _ hp' hmark'
        exact ⟨hdoom, hover.mono howned (.refl l) hstands''⟩
      have ht := hc.running (running_of_not_ended hp (not_ended_of_hears hnext))
      have hp'' : s''.phases[t]? = some task.phase := hc.phases ▸ hp
      obtain ⟨us, hminds, hattached, htends⟩ := hup.hears (hup.tidy.owners t _ hp'') habides hcut
        (hc.shared ▸ hold) (hsame _ _ ▸ hnext)
      exact hup.exec next ht hminds hattached htends
    · next hnone =>
      refine ⟨l, .refl l, hstill (.inl rfl) ?_, hc.shared ▸ hold⟩
      apply (h.tidy.wakes hpop).rest
      intro p hphase
      obtain rfl := Option.some.inj (hp.symm.trans hphase)
      exact (h.tidy.roused t _ (by simp) hp').unheard hpop (hears_false hnone)

theorem Tended.honest {g : Nat} {group : Group ε ρ} (h : Tended c none l s)
    (hpop : Pops (.member g t) s s') (hg : s'.groups[g]? = some group) (hopen : group.outcome = none)
    {r : Except (Stop ε) (List ρ)} (hr : Settles s' group t r) :
    Honest l { group with ended := group.ended + 1, outcome := some r } := by
  have hg' : s.groups[g]? = some group := hpop.groups ▸ hg
  have hold := h.groups g group hg'
  have hout (u : Nat) (r : Except (Stop ε) ρ) (hu : s'.outcome? u = some r) : l.stage u = .ended r :=
    (h.outcomes u r).mp (hpop.outcome? ▸ hu)
  have hall (hlen : group.members.length ≤ group.ended + 1) : ∀ u ∈ group.members, l.Ended u := by
    intro u hu
    obtain ⟨counted, hperm, hended, _⟩ := h.tidy.perm_counted hpop hg' hlen
    obtain ⟨r, hr⟩ := Option.isSome_iff_exists.mp (hended u (hperm.mem_iff.mpr hu))
    exact ⟨r, hout u r hr⟩
  constructor
  · exact hold.marked
  · rintro vs hdrains ⟨⟩
    obtain ⟨hlen, rfl, hfine⟩ := hr.ok vs rfl
    have hok := h.tidy.all_ended hpop hg' hopen hdrains hlen (hfine hdrains)
    exact (forall₂_results s' hok).imp fun u v => hout u _
  · rintro e hdrains ⟨⟩
    rcases hr.error e rfl with ⟨_, ht⟩ | ⟨_, hmark, rfl⟩
    · left
      obtain ⟨counted, _, hmembers, _⟩ := h.tidy.counted hpop hg'
      refine ⟨t, ?_, hout t _ ht⟩
      rw [← List.count_pos_iff, ← hmembers t, List.count_cons_self]
      omega
    · exact .inr ⟨rfl, hold.marked hmark⟩
  · intro hdrains _
    cases r with
    | ok vs => exact hall (hr.ok vs rfl).1
    | error e =>
      rcases hr.error e rfl with ⟨hminds, _⟩ | ⟨hlen, _⟩
      · rw [hminds] at hdrains
        cases hdrains
      · exact hall hlen
  · rintro e hdrains ⟨⟩
    rcases hr.error e rfl with ⟨hminds, _⟩ | ⟨_, hmark, rfl⟩
    · rw [hminds] at hdrains
      cases hdrains
    · exact ⟨rfl, hold.marked hmark⟩

theorem Tended.member {g : Nat} (h : Tended c none l s) (hpop : Pops (.member g t) s s') :
    Tended c none l (s'.member g t) := by
  have hmarks : s'.marks = s.marks := by rw [Schedule.marks, hpop.tasks, ← Schedule.marks]
  have hstands : Stands s s' := .of_eq hpop.groups hpop.screens
  have hscreens (n : Nat) (screen : Screen ε ρ) (hn : s'.screens[n]? = some screen) :
      Upright l screen := h.screens n screen (hpop.screens ▸ hn)
  cases hg : s'.groups[g]? with
  | none =>
    have heq : s'.member g t = s' := by simp [Schedule.member, hg]
    rw [heq]
    apply h.still (heq ▸ h.tidy.member hpop) (fun _ => id) hpop.phases hstands _ _ hscreens
    · rw [hmarks]
      exact fun u hu => ⟨by simp, hu⟩
    · exact fun i group hi => h.groups i group (hpop.groups ▸ hi)
  | some group =>
    have htally (o : Option (Except (Stop ε) (List ρ))) (ts : List Nat)
        (heq : s'.member g t = (s'.tally g o).enqueue (ts.map .wake))
        (ho : Honest l { group with ended := group.ended + 1, outcome := o }) :
        Tended c none l (s'.member g t) := by
      have hmarks' : (s'.member g t).marks = s.marks := by
        rw [heq, ← hmarks]
        rfl
      apply h.still (h.tidy.member hpop) (fun _ => id) _ _ _ _ _
      · rw [heq]
        exact hpop.phases
      · rw [heq]
        exact hstands.trans (.tally s' g o ts)
      · rw [hmarks']
        exact fun u hu => ⟨by simp, hu⟩
      · intro i new hi
        rw [heq, enqueue, groups_tally] at hi
        split at hi
        · next hgi =>
          subst hgi
          rw [hg] at hi
          obtain rfl := Option.some.inj hi
          exact ho
        · exact h.groups i new (hpop.groups ▸ hi)
      · rw [heq]
        exact hscreens
    have hold := h.groups g group (hpop.groups ▸ hg)
    have hquiet (o : Option (Except (Stop ε) (List ρ))) :
        s'.tally g o = (s'.tally g o).enqueue (([] : List Nat).map .wake) := by
      simp [Schedule.enqueue]
    rcases member_cases hg with ⟨_, heq⟩ | ⟨hopen, _, _, heq⟩ | ⟨hopen, r, hsettles, heq⟩
    · apply htally group.outcome [] (heq.trans (hquiet _))
      exact ⟨hold.marked, hold.results, hold.failure, hold.ended, hold.drained⟩
    · apply htally none [] (heq.trans (hquiet _))
      refine ⟨hold.marked, ?_, ?_, ?_, ?_⟩ <;> simp
    · exact htally (some r) [group.owner] heq (h.honest hpop hg hopen hsettles)

theorem Tended.relay {n : Nat} (h : Tended c none l s) (hpop : Pops (.relay n) s s') :
    Tended c none l (s'.relay n) := by
  have htidy := h.tidy.relay hpop
  have hmarks : s'.marks = s.marks := by rw [Schedule.marks, hpop.tasks, ← Schedule.marks]
  have hstands : Stands s s' := .of_eq hpop.groups hpop.screens
  have hgroups (g : Nat) (group : Group ε ρ) (hg : s'.groups[g]? = some group) : Honest l group :=
    h.groups g group (hpop.groups ▸ hg)
  have hscreens (n : Nat) (screen : Screen ε ρ) (hn : s'.screens[n]? = some screen) :
      Upright l screen := h.screens n screen (hpop.screens ▸ hn)
  rcases relay_cases s' n with ⟨u, owner, r, hn, hr, heq⟩ | ⟨heq, _⟩
  · rw [heq] at htidy ⊢
    apply h.still htidy (fun _ => id) hpop.phases _ _ hgroups
    · intro i new hi
      rw [enqueue, screens_setScreen] at hi
      split at hi
      · next hni =>
        subst hni
        rw [hn] at hi
        obtain rfl := Option.some.inj hi
        rintro _ ⟨⟩
        exact .inl ((h.outcomes u r).mp (hpop.outcome? ▸ hr))
      · exact hscreens i new hi
    · refine hstands.trans ⟨fun g group hg => ⟨group, hg, rfl⟩, ?_⟩
      intro i screen hi
      rw [enqueue, screens_setScreen, hi]
      split
      · exact ⟨_, rfl, rfl⟩
      · exact ⟨_, rfl, rfl⟩
    · have hsame : ((s'.setScreen n r).enqueue [.wake owner]).marks = s.marks := hmarks
      rw [hsame]
      exact fun u hu => ⟨by simp, hu⟩
  · rw [heq] at htidy ⊢
    apply h.still htidy (fun _ => id) hpop.phases hstands _ hgroups hscreens
    rw [hmarks]
    exact fun u hu => ⟨by simp, hu⟩

theorem Tended.fireAt (h : Tended c none l s) (hinv : c.inv l s.shared) (i : Nat) :
    ∃ l', l.Grows l' ∧ Tended c none l' (s.fireAt i) ∧ c.inv l' (s.fireAt i).shared := by
  rw [Schedule.fireAt]
  split
  · exact ⟨l, .refl l, h, hinv⟩
  · next tick htick =>
    have hpop := Pops.eraseIdx htick
    cases tick with
    | wake t => exact h.wake hpop hinv
    | member g t =>
      rw [fire, shared_member]
      exact ⟨l, .refl l, h.member hpop, hinv⟩
    | relay n =>
      rw [fire, shared_relay]
      exact ⟨l, .refl l, h.relay hpop, hinv⟩

end Fires

theorem tended_of_empty (c : Terms σ ε ρ κ π) (x : σ) :
    Tended c none {} ({ shared := x } : Schedule σ ε ρ) where
  tidy := by
    refine ⟨?_, ?_, ?_, ?_, ?_, ?_⟩
    · rintro t p ⟨⟩
    · rintro t p _ ⟨⟩
    · rintro g group ⟨⟩
    · rintro u g v ⟨⟩
    · rintro g u ⟨⟩
    · exact fun g u hu => absurd rfl hu
  length := rfl
  older := by rintro t u ⟨_, ⟨⟩, _⟩
  fresh := fun _ _ => rfl
  known := by rintro t ⟨⟩
  outcomes := by
    intro t r
    simp [outcome?]
  tasks := by rintro t p _ ⟨⟩
  marks := by rintro t p ⟨⟩
  unmarked := by rintro t ⟨⟩
  groups := by rintro g group ⟨⟩
  screens := by rintro n screen ⟨⟩

end Polyglot.Loop.Schedule
