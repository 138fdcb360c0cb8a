import Polyglot.Proofs.Loop.Twins

/-!
Two runs whose routines take the same steps stay alike, whatever tick is fired next.
-/

namespace Polyglot.Loop.Schedule

variable {σ ε ρ α : Type} {c : Likeness σ ρ} {bs gs : Bonds ρ} {b q : ρ → ρ → Prop}
variable {s s' : Schedule σ ε ρ} {t u : Nat} {r r' : Routine σ ε ρ}

theorem outcome?_setPhase_of_ne (s : Schedule σ ε ρ) (p : Phase σ ε ρ) (hne : u ≠ t) :
    (s.setPhase t p).outcome? u = s.outcome? u := by
  rw [outcome?_setPhase, if_neg fun h => hne h.1.symm]

theorem outcome?_exec (r : Routine σ ε ρ) (s : Schedule σ ε ρ) (hne : u ≠ t) :
    (s.exec t r).outcome? u = s.outcome? u := by
  induction r generalizing s with
  | finish r => exact outcome?_setPhase_of_ne s (.ended r) hne
  | pause next ih => exact outcome?_setPhase_of_ne s (.ready next) hne
  | look next ih => exact ih s.shared s
  | change f next ih => exact ih _
  | spawn child next _ ih => exact (ih s.tasks.length _).trans (congrFun (outcome?_addTask s _ rfl) u)
  | await v next ih =>
    simp only [Schedule.exec]
    split
    · next r _ => exact ih r s
    · rw [outcome?_setPhase_of_ne _ _ hne, outcome?_listen]
  | follow v next ih =>
    simp only [Schedule.exec]
    split
    · next r _ => exact ih r s
    · rw [outcome?_setPhase_of_ne _ _ hne, outcome?_listen]
      rfl
  | gather vs next ih =>
    simp only [Schedule.exec]
    split
    · exact ih _ s
    · rw [outcome?_eq, phases_assemble, List.getElem?_set_ne hne.symm, ← outcome?_eq]
  | drain vs next ih =>
    simp only [Schedule.exec]
    split
    · exact ih _ s
    · rw [outcome?_eq, phases_assemble, List.getElem?_set_ne hne.symm, (cancels_cancelAll s vs).phases,
        ← outcome?_eq]

def Open (c : Likeness σ ρ) (bs : Bonds ρ) (s : Schedule σ ε ρ) : Prop :=
  ∀ (t : Nat) q, bs[t]? = some q → ¬ c.Close q → s.outcome? t = none

theorem Open.addTask (h : Open c bs s) (hlen : bs.length = s.phases.length) (b : ρ → ρ → Prop) :
    Open c (bs ++ [b]) ((s.addTask ⟨.ready r, [], false⟩).enqueue [.wake bs.length]) := by
  intro u q hq hfar
  rw [outcome?_enqueue, outcome?_addTask s _ rfl]
  by_cases hu : u < bs.length
  · rw [List.getElem?_append_left hu] at hq
    exact h u q hq hfar
  · rw [outcome?_eq, List.getElem?_eq_none (hlen ▸ Nat.le_of_not_lt hu)]
    rfl

def Faithful (s : Schedule σ ε ρ) : Prop :=
  ∀ (n : Nat) (screen : Screen ε ρ) v, s.screens[n]? = some screen → screen.outcome = some (.ok v) →
    s.outcome? screen.task = some (.ok v)

theorem agrees_of_hollow {o o' : Option (Except (Stop ε) α)} {q : α → α → Prop}
    (hshape : o.map (·.map fun _ => ()) = o'.map (·.map fun _ => ()))
    (hq : ∀ v v', o = some (.ok v) → o' = some (.ok v') → q v v') :
    (o = none ∧ o' = none) ∨ ∃ r r', o = some r ∧ o' = some r' ∧ Agrees q r r' := by
  match o, o' with
  | none, none => exact .inl ⟨rfl, rfl⟩
  | some (.ok v), some (.ok v') => exact .inr ⟨_, _, rfl, rfl, .ok (hq v v' rfl rfl)⟩
  | some (.error e), some (.error e') =>
    obtain rfl : e = e' := by simpa [Except.map] using hshape
    exact .inr ⟨_, _, rfl, rfl, .error e⟩
  | some (.ok _), some (.error _) => simp [Except.map] at hshape
  | some (.error _), some (.ok _) => simp [Except.map] at hshape
  | none, some _ => simp at hshape
  | some _, none => simp at hshape

namespace Twins

theorem straight (h : Straight c q r r') (hx : c.after s.shared s'.shared) (t : Nat) :
    ∃ x x' e e', c.after x x' ∧ Agrees q e e' ∧ s.exec t r = { s with shared := x }.finish t e ∧
      s'.exec t r' = { s' with shared := x' }.finish t e' := by
  induction h generalizing s s' with
  | finish h => exact ⟨_, _, _, _, hx, h, rfl, rfl⟩
  | look _ ih => exact ih _ _ hx hx
  | @change f f' _ _ hf _ ih =>
    exact @ih { s with shared := f s.shared } { s' with shared := f' s'.shared } (hf _ _ hx)
  | @left f _ _ hf _ ih => exact @ih { s with shared := f s.shared } s' (hf _ _ hx)
  | @right f _ _ hf _ ih => exact @ih s { s' with shared := f s'.shared } (hf _ _ hx)

theorem finish (h : Twins c bs gs s s') (hq : bs[t]? = some q) {e e' : Except (Stop ε) ρ}
    (he : Agrees q e e') : Twins c bs gs (s.finish t e) (s'.finish t e') := by
  refine h.setPhase hq ?_ (phases_setPhase s t _) (phases_setPhase s' t _) rfl rfl (.ended he)
  rw [shape_finish, shape_finish, h.shape, he.hollow]

theorem execStraight (h : Twins c bs gs s s') (hq : bs[t]? = some q) (hr : Straight c q r r')
    (hx : c.after s.shared s'.shared) : Twins c bs gs (s.exec t r) (s'.exec t r') ∧
      c.after (s.exec t r).shared (s'.exec t r').shared ∧
        ∃ e e', (s.exec t r).phases = s.phases.set t (.ended e) ∧
          (s'.exec t r').phases = s'.phases.set t (.ended e') := by
  obtain ⟨x, x', e, e', hafter, he, heq, heq'⟩ := straight hr hx t
  rw [heq, heq']
  exact ⟨(h.changeShared x x').finish hq he, hafter, e, e', phases_setPhase { s with shared := x } t _,
    phases_setPhase { s' with shared := x' } t _⟩

theorem await (h : Twins c bs gs s s') (hq : bs[t]? = some q) {k k' : Except (Stop ε) ρ → Routine σ ε ρ}
    (hp : Waits c bs gs q (.awaiting u k) (.awaiting u k')) :
    Twins c bs gs ((s.listen u (.wake t)).setPhase t (.awaiting u k))
      ((s'.listen u (.wake t)).setPhase t (.awaiting u k')) := by
  refine h.setPhase hq ?_ ?_ ?_ (groups_listen s u _) (groups_listen s' u _) hp
  · rw [shape_setPhase, shape_setPhase, shape_listen, shape_listen, h.shape]
    rfl
  · rw [phases_setPhase, phases_listen]
  · rw [phases_setPhase, phases_listen]

theorem follow (h : Twins c bs gs s s') (hq : bs[t]? = some q) {k k' : Except (Stop ε) ρ → Routine σ ε ρ}
    (hk : ∀ bs', bs <+: bs' → ∀ e e', Agrees c.near e e' → Alike c bs' q (k e) (k' e')) (n : Nat) :
    Twins c bs gs (((s.addScreen ⟨u, t, none⟩).listen u (.relay n)).setPhase t (.following n k))
      (((s'.addScreen ⟨u, t, none⟩).listen u (.relay n)).setPhase t (.following n k')) := by
  have hp : Waits c bs gs q (.following n k) (.following n k') := .following hk
  refine h.setPhase hq ?_ ?_ ?_ (groups_follow s u t _ _) (groups_follow s' u t _ _) hp
  · rw [shape_setPhase, shape_setPhase, shape_listen, shape_listen, shape_addScreen, shape_addScreen,
      h.shape]
    rfl
  · exact phases_follow s u t _ _
  · exact phases_follow s' u t _ _

theorem leading (hr : Leading c b q u r r') (hu : s.outcome? u = none) (hu' : s'.outcome? u = none)
    (hx : c.state s.shared s'.shared) (t : Nat) : ∃ x x' k k', c.state x x' ∧
      (∀ e e', Agrees b e e' → Straight c q (k e) (k' e')) ∧
      s.exec t r = ({ s with shared := x }.listen u (.wake t)).setPhase t (.awaiting u k) ∧
      s'.exec t r' = ({ s' with shared := x' }.listen u (.wake t)).setPhase t (.awaiting u k') := by
  induction hr generalizing s s' with
  | await h =>
    refine ⟨_, _, _, _, hx, h, ?_, ?_⟩
    · simp only [Schedule.exec, hu]
    · simp only [Schedule.exec, hu']
  | @change f f' _ _ hf _ ih =>
    exact @ih { s with shared := f s.shared } { s' with shared := f' s'.shared } hu hu' (hf _ _ hx)

theorem lead (h : Twins c bs gs s s') (hq : bs[t]? = some q) (hx : c.state s.shared s'.shared)
    {k k' : Nat → Routine σ ε ρ} (hchild : ∀ bs', bs ++ [b] <+: bs' → Alike c bs' b r r') (hfar : ¬ c.Close q)
    (hlead : Leading c b q bs.length (k bs.length) (k' bs.length)) :
    Twins c (bs ++ [b]) gs (s.exec t (.spawn r k)) (s'.exec t (.spawn r' k')) ∧
      c.state (s.exec t (.spawn r k)).shared (s'.exec t (.spawn r' k')).shared := by
  have hnew (s : Schedule σ ε ρ) (r : Routine σ ε ρ) (hlen : s.phases.length = bs.length) :
      ((s.addTask ⟨.ready r, [], false⟩).enqueue [.wake bs.length]).outcome? bs.length = none := by
    rw [outcome?_enqueue, outcome?_addTask s _ rfl, outcome?_eq, List.getElem?_eq_none (Nat.le_of_eq hlen)]
    rfl
  obtain ⟨x, x', k₁, k₁', hx', hk, heq, heq'⟩ := leading hlead (hnew s r h.tasks.symm)
    (hnew s' r' (h.tasks.trans h.length_phases_eq).symm) hx t
  simp only [Schedule.exec, h.length_tasks, h.length_tasks']
  rw [heq, heq', shared_await, shared_await]
  refine ⟨?_, hx'⟩
  apply ((h.addTask b hchild).changeShared x x').await (getElem?_grown (List.prefix_append _ _) hq)
  exact .leans (.awaiting List.getElem?_concat_length hfar hk)

theorem outcome?_near (h : Twins c bs gs s s') (hopen : Open c bs s) {e : Except (Stop ε) ρ}
    (he : s.outcome? u = some e) : ∃ e', s'.outcome? u = some e' ∧ Agrees c.near e e' := by
  have hlt : u < bs.length := h.tasks ▸ lt_of_outcome? s he
  have hb := List.getElem?_eq_getElem hlt
  rcases h.outcome? hb with ⟨hnone, _⟩ | ⟨e₁, e', he₁, he', hagrees⟩
  · rw [he] at hnone
    cases hnone
  · obtain rfl := Option.some.inj (he.symm.trans he₁)
    have hclose : c.Close (bs[u]) := by
      by_contra hfar
      rw [hopen u _ hb hfar] at he
      cases he
    exact ⟨e', he', hagrees.imp hclose⟩

theorem exec (h : Twins c bs gs s s') (hr : Alike c bs q r r') (hopen : Open c bs s)
    (hq : bs[t]? = some q) (hx : c.state s.shared s'.shared) :
    ∃ bs' gs', bs <+: bs' ∧ gs <+: gs' ∧ Twins c bs' gs' (s.exec t r) (s'.exec t r') ∧
      c.state (s.exec t r).shared (s'.exec t r').shared := by
  induction hr generalizing s s' gs with
  | finish he => exact ⟨_, _, List.prefix_rfl, List.prefix_rfl, h.finish hq he, hx⟩
  | @pause bs q r r' hr =>
    refine ⟨_, _, List.prefix_rfl, List.prefix_rfl, ?_, hx⟩
    refine h.setPhase hq ?_ (phases_setPhase s t _) (phases_setPhase s' t _) rfl rfl (.ready hr)
    simp only [Schedule.exec, shape_enqueue, shape_setPhase, h.shape]
    rfl
  | look _ ih => exact ih _ _ hx h hopen hq hx
  | @change bs q f f' r r' hf _ ih =>
    exact ih (h.changeShared (f s.shared) (f' s'.shared)) hopen hq (hf _ _ hx)
  | @left bs q f r r' hf _ ih => exact ih (h.changeShared (f s.shared) s'.shared) hopen hq (hf _ _ hx)
  | @right bs q f r r' hf _ ih => exact ih (h.changeShared s.shared (f s'.shared)) hopen hq (hf _ _ hx)
  | @spawn bs q b r r' k k' hb hchild _ _ ih =>
    obtain ⟨bs', gs', hbs, hgs, hrest⟩ := ih (h.addTask b hchild) (hopen.addTask h.tasks b)
      (getElem?_grown (List.prefix_append _ _) hq) hx
    refine ⟨bs', gs', (List.prefix_append _ _).trans hbs, hgs, ?_⟩
    simp only [Schedule.exec, h.length_tasks, h.length_tasks']
    exact hrest
  | @lead bs q b r r' k k' hclose hchild hlead =>
    exact ⟨bs ++ [b], gs, List.prefix_append _ _, List.prefix_rfl, h.lead hq hx hchild hclose hlead⟩
  | @await bs q b u k k' hu hb hk ih =>
    simp only [Schedule.exec]
    rcases h.outcome? hu with ⟨hnone, hnone'⟩ | ⟨e, e', he, he', hagrees⟩
    · simp only [hnone, hnone', shared_await]
      exact ⟨_, _, List.prefix_rfl, List.prefix_rfl, h.await hq (.awaiting hu hb hk), hx⟩
    · simp only [he, he']
      exact ih _ List.prefix_rfl e e' hagrees h hopen hq hx
  | @follow bs q u k k' hk ih =>
    simp only [Schedule.exec]
    cases he : s.outcome? u with
    | none =>
      have hnone' : s'.outcome? u = none := by simpa [he] using h.outcome?_isSome u
      have hscreens : s.screens.length = s'.screens.length := by
        have hshape := congrArg Schedule.screens h.shape
        simpa [Schedule.shape] using congrArg List.length hshape
      simp only [hnone', ← hscreens, shared_follow]
      exact ⟨_, _, List.prefix_rfl, List.prefix_rfl, h.follow hq hk s.screens.length, hx⟩
    | some e =>
      obtain ⟨e', he', hagrees⟩ := h.outcome?_near hopen he
      simp only [he']
      exact ih _ List.prefix_rfl e e' hagrees h hopen hq hx
  | @gather bs q b us k k' hus hb hk ih =>
    simp only [Schedule.exec]
    by_cases hnil : us.isEmpty
    · simp only [hnil, ↓reduceIte]
      exact ih _ List.prefix_rfl _ _ (.ok .nil) h hopen hq hx
    · simp only [hnil, Bool.false_eq_true, ↓reduceIte, shared_assemble]
      refine ⟨bs, gs ++ [b], List.prefix_rfl, List.prefix_append _ _, ?_, hx⟩
      refine h.assemble hq (fun u hu => ⟨b, hus u hu, hb, fun _ _ => id⟩) false ?_ fun _ => rfl
      exact .gathering List.getElem?_concat_length hk
  | @drain bs q us k k' hus hk ih =>
    simp only [Schedule.exec]
    by_cases hnil : us.isEmpty
    · simp only [hnil, ↓reduceIte]
      exact ih _ List.prefix_rfl _ h hopen hq hx
    · simp only [hnil, Bool.false_eq_true, ↓reduceIte, shared_assemble, (cancels_cancelAll s us).shared,
        (cancels_cancelAll s' us).shared]
      refine ⟨bs, gs ++ [fun _ _ => True], List.prefix_rfl, List.prefix_append _ _, ?_, hx⟩
      refine (h.cancelAll us).assemble hq ?_ true ?_ fun _ => rfl
      · intro u hu
        obtain ⟨b, hb, hclose⟩ := hus u hu
        exact ⟨b, hb, hclose, fun _ _ _ => trivial⟩
      · refine .draining ?_ hk
        rw [List.length_append, List.length_singleton]
        exact Nat.lt_succ_self _

/--
What tasks hear that lean on another one: the end of that, or that they are cancelled.
-/
theorem leans_hears (h : Twins c bs gs s s') {p p' : Phase σ ε ρ} (hp : Leans c bs q p p') (cut : Bool) :
    (s.hears cut p = none ∧ s'.hears cut p' = none) ∨ ∃ next next',
      s.hears cut p = some next ∧ s'.hears cut p' = some next' ∧ Straight c q next next' := by
  obtain ⟨hu, _, hk⟩ := hp
  cases cut with
  | true => exact .inr ⟨_, _, rfl, rfl, hk _ _ (.error .cancelled)⟩
  | false =>
    rcases h.outcome? hu with ⟨hnone, hnone'⟩ | ⟨e, e', he, he', hagrees⟩
    · exact .inl ⟨by simp [hears, hnone], by simp [hears, hnone']⟩
    · exact .inr ⟨_, _, by simp [hears, he], by simp [hears, he'], hk e e' hagrees⟩

theorem screen (h : Twins c bs gs s s') (hopen : Open c bs s) (hs : Faithful s) (hs' : Faithful s')
    (n : Nat) :
    ((s.screens[n]?).bind (·.outcome) = none ∧ (s'.screens[n]?).bind (·.outcome) = none) ∨
      ∃ r r', (s.screens[n]?).bind (·.outcome) = some r ∧ (s'.screens[n]?).bind (·.outcome) = some r' ∧
        Agrees c.near r r' := by
  have hshape : (s.screens[n]?).map (·.shape) = (s'.screens[n]?).map (·.shape) := by
    rw [← List.getElem?_map, ← List.getElem?_map]
    exact congrArg (fun s : Schedule Unit ε Unit => s.screens[n]?) h.shape
  cases hn : s.screens[n]? with
  | none =>
    rw [hn] at hshape
    have hn' : s'.screens[n]? = none := by simpa using hshape.symm
    exact .inl ⟨rfl, by rw [hn']; rfl⟩
  | some screen =>
    rw [hn, Option.map_some] at hshape
    obtain ⟨screen', hn', heq⟩ := Option.map_eq_some_iff.mp hshape.symm
    have htask : screen'.task = screen.task := congrArg (fun c : Screen ε Unit => c.task) heq
    rw [hn']
    apply agrees_of_hollow
    · exact congrArg (fun c : Screen ε Unit => c.outcome) heq.symm
    · intro v v' hv hv'
      have hv := hs n screen v hn hv
      have hv' := hs' n screen' v' hn' hv'
      rw [htask] at hv'
      obtain ⟨r', hr', hagrees⟩ := h.outcome?_near hopen hv
      obtain rfl := Option.some.inj (hv'.symm.trans hr')
      cases hagrees with
      | ok hnear => exact hnear

theorem group (h : Twins c bs gs s s') {g : Nat} (hg : gs[g]? = some b) :
    ∃ group group', s.groups[g]? = some group ∧ s'.groups[g]? = some group' ∧
      group.shape = group'.shape ∧ Confers c bs b group group' := by
  have hlt : g < s.groups.length := h.boards ▸ (List.getElem?_eq_some_iff.mp hg).1
  have hgroup := List.getElem?_eq_getElem hlt
  have hgroup' := List.getElem?_eq_getElem (h.length_groups_eq ▸ hlt)
  have hshape := congrArg (fun s : Schedule Unit ε Unit => s.groups[g]?) h.shape
  simp only [Schedule.shape, List.getElem?_map, hgroup, hgroup', Option.map_some, Option.some.injEq] at hshape
  exact ⟨_, _, hgroup, hgroup', hshape, h.groups g b _ _ hg hgroup hgroup'⟩

theorem groupNews (h : Twins c bs gs s s') {g : Nat} (hg : gs[g]? = some b) :
    ((s.groups[g]?).bind (·.outcome) = none ∧ (s'.groups[g]?).bind (·.outcome) = none) ∨
      ∃ r r', (s.groups[g]?).bind (·.outcome) = some r ∧ (s'.groups[g]?).bind (·.outcome) = some r' ∧
        Agrees (List.Forall₂ b) r r' := by
  obtain ⟨group, group', hgroup, hgroup', hshape, hconfers⟩ := h.group hg
  rw [hgroup, hgroup']
  apply agrees_of_hollow _ hconfers.results
  have hout := congrArg (fun g : Group ε Unit => g.outcome.map (·.map fun _ => ())) hshape
  simp only [Group.shape, Option.map_map] at hout
  convert hout using 2
  · funext r
    cases r <;> rfl
  · funext r
    cases r <;> rfl

theorem hears (h : Twins c bs gs s s') (hopen : Open c bs s) (hs : Faithful s) (hs' : Faithful s')
    {p p' : Phase σ ε ρ} (hp : Waits c bs gs q p p') (cut : Bool) :
    (s.hears cut p = none ∧ s'.hears cut p' = none) ∨ ∃ next next',
      s.hears cut p = some next ∧ s'.hears cut p' = some next' ∧
        (Alike c bs q next next' ∨ Leans c bs q p p' ∧ Straight c q next next') := by
  cases hp with
  | ended => exact .inl ⟨rfl, rfl⟩
  | leans hp =>
    rcases h.leans_hears hp cut with hnone | ⟨next, next', hnext, hnext', hstraight⟩
    · exact .inl hnone
    · exact .inr ⟨next, next', hnext, hnext', .inr ⟨hp, hstraight⟩⟩
  | ready hk =>
    cases cut with
    | true => exact .inr ⟨_, _, rfl, rfl, .inl (.finish (.error .cancelled))⟩
    | false => exact .inr ⟨_, _, rfl, rfl, .inl (hk bs List.prefix_rfl)⟩
  | awaiting hu _ hk =>
    cases cut with
    | true => exact .inr ⟨_, _, rfl, rfl, .inl (hk bs List.prefix_rfl _ _ (.error .cancelled))⟩
    | false =>
      rcases h.outcome? hu with ⟨hnone, hnone'⟩ | ⟨e, e', he, he', hagrees⟩
      · exact .inl ⟨by simp [Schedule.hears, hnone], by simp [Schedule.hears, hnone']⟩
      · exact .inr ⟨_, _, by simp [Schedule.hears, he], by simp [Schedule.hears, he'],
          .inl (hk bs List.prefix_rfl e e' hagrees)⟩
  | @following n k k' hk =>
    cases cut with
    | true => exact .inr ⟨_, _, rfl, rfl, .inl (hk bs List.prefix_rfl _ _ (.error .cancelled))⟩
    | false =>
      rcases h.screen hopen hs hs' n with ⟨hnone, hnone'⟩ | ⟨e, e', he, he', hagrees⟩
      · exact .inl ⟨by simp [Schedule.hears, hnone], by simp [Schedule.hears, hnone']⟩
      · exact .inr ⟨_, _, by simp [Schedule.hears, he], by simp [Schedule.hears, he'],
          .inl (hk bs List.prefix_rfl e e' hagrees)⟩
  | gathering hg hk =>
    cases cut with
    | true => exact .inr ⟨_, _, rfl, rfl, .inl (hk bs List.prefix_rfl _ _ (.error .cancelled))⟩
    | false =>
      rcases h.groupNews hg with ⟨hnone, hnone'⟩ | ⟨e, e', he, he', hagrees⟩
      · exact .inl ⟨by simp [Schedule.hears, hnone], by simp [Schedule.hears, hnone']⟩
      · exact .inr ⟨_, _, by simp [Schedule.hears, he], by simp [Schedule.hears, he'],
          .inl (hk bs List.prefix_rfl e e' hagrees)⟩
  | @draining g k k' hg hk =>
    cases cut with
    | true => exact .inr ⟨_, _, rfl, rfl, .inl (hk bs List.prefix_rfl _)⟩
    | false =>
      rcases h.groupNews (List.getElem?_eq_getElem hg) with ⟨hnone, hnone'⟩ | ⟨e, e', he, he', hagrees⟩
      · exact .inl ⟨by simp [Schedule.hears, hnone], by simp [Schedule.hears, hnone']⟩
      · have hunit : (e'.map fun _ => ()) = e.map fun _ => () := by cases hagrees <;> rfl
        exact .inr ⟨k (e.map fun _ => ()), k' (e.map fun _ => ()), by simp [Schedule.hears, he],
          by simp [Schedule.hears, he', hunit], .inl (hk bs List.prefix_rfl _)⟩

/--
A task that waits for one whose results are not close waits for no other, and for nothing else.
-/
theorem leans_of_watched (h : Twins c bs gs s s') {p p' : Phase σ ε ρ} (hp : Waits c bs gs q p p')
    (hu : u ∈ s.watched p) (hb : bs[u]? = some b) (hfar : ¬ c.Close b) :
    s.watched p = [u] ∧ Leans c bs q p p' ∧ ¬ c.Close q := by
  have hmembers {g : Nat} {b' : ρ → ρ → Prop} (hg : gs[g]? = some b') (hu : u ∈ s.members g) : False := by
    obtain ⟨group, _, hgroup, _, _, hconfers⟩ := h.group hg
    rw [members_of_groups hgroup] at hu
    obtain ⟨b'', hb'', hclose, _⟩ := hconfers.members u hu
    obtain rfl := Option.some.inj (hb.symm.trans hb'')
    exact hfar hclose
  cases hp with
  | leans hp =>
    obtain ⟨hv, hq, hk⟩ := hp
    exact ⟨by rw [List.mem_singleton.mp hu]; rfl, .awaiting hv hq hk, hq⟩
  | awaiting hv hclose =>
    rw [List.mem_singleton.mp hu] at hb
    obtain rfl := Option.some.inj (hb.symm.trans hv)
    exact absurd hclose hfar
  | gathering hg => exact (hmembers hg hu).elim
  | draining hg => exact (hmembers (List.getElem?_eq_getElem hg) hu).elim
  | ready => cases hu
  | following => cases hu
  | ended => cases hu

end Twins

end Polyglot.Loop.Schedule
