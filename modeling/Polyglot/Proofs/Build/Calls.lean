import Polyglot.Proofs.Build.Task
import Polyglot.Proofs.Table

/-!
A task that is prepared, run and closed in any order, any number of times. Every run adds its results to an
account that is never begun anew: a task that is run again tells of its earlier runs as well, and it has
failed if one of them has.
-/

namespace Polyglot.Build

open Hub (Machine)

variable {K X : Type} {m : Machine K X} {fuel : Nat} {t : Task}

inductive Move where
  | prepare
  | run
  | close

/--
A call to a task. It may find the hub, and with it the files, in any state.
-/
structure Step (K X : Type) where
  hub : Hub.State K X
  move : Move

def act (m : Machine K X) (fuel : Nat) (t : Task) (c : Step K X) : Except TaskError (Site K X) :=
  match c.move with
  | .prepare => Site.prepare ⟨c.hub, t⟩
  | .run => Site.run m fuel ⟨c.hub, t⟩
  | .close => .ok (Site.close ⟨c.hub, t⟩)

/--
The task after some calls, of which the latest is first. A call that is rejected leaves it as it is.
-/
def after (m : Machine K X) (fuel : Nat) (t : Task) : List (Step K X) → Task
  | [] => t
  | c :: cs =>
    match act m fuel (after m fuel t cs) c with
    | .ok s => s.task
    | .error _ => after m fuel t cs

/--
What a call that is not rejected does: it finds items, comes to a result for each item, or ends the task.
-/
inductive Deed where
  | prepared (is : List Item)
  | ran (rs : List (Except ItemError Artifact))
  | closed

def Deed.results : Deed → List (Except ItemError Artifact)
  | .prepared _ => []
  | .ran rs => rs
  | .closed => []

def Deed.isRun : Deed → Bool
  | .ran _ => true
  | _ => false

def resultsOf (ds : List Deed) : List (Except ItemError Artifact) :=
  ds.reverse.flatMap Deed.results

def itemsAt : List Deed → List Item
  | [] => []
  | .prepared is :: _ => is
  | .ran _ :: past => itemsAt past
  | .closed :: past => itemsAt past

def phaseAt : List Deed → Phase
  | [] => .created
  | .prepared _ :: _ => .prepared
  | .ran rs :: past => if (resultsOf (.ran rs :: past)).filterMap error? = [] then .finished else .failed
  | .closed :: _ => .closed

/--
The deed of a call, given the deeds before it. A run works off the items that the call right before it has
found.
-/
inductive Does (m : Machine K X) (fuel : Nat) (t : Task) : Step K X → List Deed → Deed → Prop where
  | prepared (hub : Hub.State K X) (past : List Deed) :
      Does m fuel t ⟨hub, .prepare⟩ past (.prepared (collect hub.world t.source t.output))
  | ran {hub : Hub.State K X} {past : List Deed} {is : List Item} {rs : List (Except ItemError Artifact)}
      {worked : Site K X} (hworks : Works m fuel ⟨hub, t⟩ is rs worked) :
      Does m fuel t ⟨hub, .run⟩ (.prepared is :: past) (.ran rs)
  | closed (hub : Hub.State K X) (past : List Deed) : Does m fuel t ⟨hub, .close⟩ past .closed

/--
What a task has done in some calls: one deed for each call that was not rejected.
-/
inductive Lives (m : Machine K X) (fuel : Nat) (t : Task) : List (Step K X) → List Deed → Prop where
  | nil : Lives m fuel t [] []
  | rejected {cs : List (Step K X)} {ds : List Deed} {c : Step K X} {e : TaskError}
      (hact : act m fuel (after m fuel t cs) c = .error e) (h : Lives m fuel t cs ds) :
      Lives m fuel t (c :: cs) ds
  | done {cs : List (Step K X)} {ds : List Deed} {c : Step K X} {d : Deed} {s : Site K X}
      (hact : act m fuel (after m fuel t cs) c = .ok s) (hdoes : Does m fuel (after m fuel t cs) c ds d)
      (h : Lives m fuel t cs ds) : Lives m fuel t (c :: cs) (d :: ds)

/--
The task tells of these deeds.
-/
structure Task.Tells (t : Task) (ds : List Deed) : Prop where
  items : t.items = itemsAt ds
  artifacts : t.artifacts = (resultsOf ds).filterMap Except.toOption
  errors : t.errors = (resultsOf ds).filterMap error?
  phase : t.phase = phaseAt ds
  failed : t.diagnostics.get? "failed" =
    if ds.any Deed.isRun then some (.int t.errors.length) else none

theorem resultsOf_cons (d : Deed) (ds : List Deed) : resultsOf (d :: ds) = resultsOf ds ++ d.results := by
  simp [resultsOf]

theorem resultsOf_of_quiet {d : Deed} (h : d.results = []) (ds : List Deed) :
    resultsOf (d :: ds) = resultsOf ds := by
  rw [resultsOf_cons, h, List.append_nil]

theorem phaseAt_eq_prepared {ds : List Deed} : phaseAt ds = .prepared ↔ ∃ is past, ds = .prepared is :: past := by
  constructor
  · intro h
    match ds with
    | .prepared is :: past => exact ⟨is, past, rfl⟩
    | .ran rs :: past =>
      rw [phaseAt] at h
      split at h <;> cases h
  · rintro ⟨is, past, rfl⟩
    rfl

namespace Task.Tells

variable {ds : List Deed} {hub : Hub.State K X} {s : Site K X}

theorem ofConfig (l : Config.Loaded) (debug : Bool) : (Task.ofConfig l debug).Tells [] :=
  ⟨rfl, rfl, rfl, rfl, rfl⟩

theorem prepare (h : t.Tells ds) (hs : Site.prepare ⟨hub, t⟩ = .ok s) :
    s.task.Tells (.prepared (collect hub.world t.source t.output) :: ds) := by
  obtain ⟨-, hphase, hitems, hartifacts, herrors⟩ := task_of_prepare hs
  have hfailed : s.task.diagnostics.get? "failed" = t.diagnostics.get? "failed" := by
    rw [Site.prepare] at hs
    dsimp only at hs
    split at hs
    · cases hs
    · cases hs
      dsimp only [Site.log]
      rw [Table.get?_set_of_ne _ _ (by decide), Table.get?_set_of_ne _ _ (by decide),
        Table.get?_set_of_ne _ _ (by decide)]
  refine ⟨hitems, ?_, ?_, hphase, ?_⟩
  · rw [hartifacts, h.artifacts, resultsOf_of_quiet rfl]
  · rw [herrors, h.errors, resultsOf_of_quiet rfl]
  · rw [hfailed, h.failed, herrors]
    rfl

theorem close (h : t.Tells ds) : (Site.close ⟨hub, t⟩).task.Tells (.closed :: ds) := by
  refine ⟨h.items, ?_, ?_, rfl, h.failed⟩
  · rw [resultsOf_of_quiet rfl]
    exact h.artifacts
  · rw [resultsOf_of_quiet rfl]
    exact h.errors

theorem run_iff (h : t.Tells ds) :
    (∃ s, Site.run m fuel ⟨hub, t⟩ = .ok s) ↔ ∃ is past, ds = .prepared is :: past := by
  rw [← phaseAt_eq_prepared, ← h.phase, Site.run]
  dsimp only
  split
  · next hphase => exact iff_of_false nofun hphase
  · next hphase => exact iff_of_true ⟨_, rfl⟩ (not_not.mp hphase)

theorem run (h : t.Tells ds) (hs : Site.run m fuel ⟨hub, t⟩ = .ok s) : ∃ is past rs worked,
    ds = .prepared is :: past ∧ Works m fuel ⟨hub, t⟩ is rs worked ∧ s.task.Tells (.ran rs :: ds) := by
  obtain ⟨is, past, rfl⟩ := h.run_iff.mp ⟨s, hs⟩
  obtain ⟨rs, hworks⟩ := works_foldl m fuel ⟨hub, t⟩ is
  refine ⟨is, past, rs, _, rfl, hworks, ?_⟩
  have htask := hworks.task
  have hitems : t.items = is := h.items
  rw [Site.run, if_neg (by simp [h.phase, phaseAt])] at hs
  dsimp only at hs
  rw [hitems] at hs
  generalize is.foldl (Site.attempt m fuel) ⟨hub, t⟩ = worked at htask hs
  cases hs
  have hartifacts : worked.task.artifacts =
      (resultsOf (.ran rs :: .prepared is :: past)).filterMap Except.toOption := by
    rw [htask, h.artifacts, resultsOf_cons (.ran rs), Deed.results, List.filterMap_append]
  have herrors : worked.task.errors = (resultsOf (.ran rs :: .prepared is :: past)).filterMap error? := by
    rw [htask, h.errors, resultsOf_cons (.ran rs), Deed.results, List.filterMap_append]
  refine ⟨?_, hartifacts, herrors, ?_, ?_⟩
  · dsimp only
    rw [htask]
    exact hitems
  · simp only [phaseAt, ← herrors, List.length_eq_zero_iff]
  · dsimp only
    rw [Table.get?_set_self]
    rfl

theorem act (h : t.Tells ds) {c : Step K X} (hs : act m fuel t c = .ok s) :
    ∃ d, Does m fuel t c ds d ∧ s.task.Tells (d :: ds) := by
  obtain ⟨hub, move⟩ := c
  cases move with
  | prepare => exact ⟨_, .prepared hub ds, h.prepare hs⟩
  | run =>
    obtain ⟨is, past, rs, worked, rfl, hworks, htells⟩ := h.run hs
    exact ⟨_, .ran hworks, htells⟩
  | close =>
    cases hs
    exact ⟨_, .closed hub ds, h.close⟩

end Task.Tells

/--
Whatever calls a task has been given, it tells of what it has done in them, of all runs together; and it can
be run if and only if the latest call that was not rejected has prepared it.
-/
theorem tells_of_calls (m : Machine K X) (fuel : Nat) (l : Config.Loaded) (debug : Bool)
    (cs : List (Step K X)) : ∃ ds, Lives m fuel (.ofConfig l debug) cs ds ∧
      (after m fuel (.ofConfig l debug) cs).Tells ds ∧
      ∀ hub, (∃ s, act m fuel (after m fuel (.ofConfig l debug) cs) ⟨hub, .run⟩ = .ok s) ↔
        ∃ is past, ds = .prepared is :: past := by
  obtain ⟨ds, hlives, htells⟩ : ∃ ds, Lives m fuel (.ofConfig l debug) cs ds ∧
      (after m fuel (.ofConfig l debug) cs).Tells ds := by
    induction cs with
    | nil => exact ⟨[], .nil, .ofConfig l debug⟩
    | cons c cs ih =>
      obtain ⟨ds, hlives, htells⟩ := ih
      rw [after]
      cases hact : act m fuel (after m fuel (.ofConfig l debug) cs) c with
      | error e => exact ⟨ds, .rejected hact hlives, htells⟩
      | ok s =>
        obtain ⟨d, hdoes, hnext⟩ := htells.act hact
        exact ⟨d :: ds, .done hact hdoes hlives, hnext⟩
  exact ⟨ds, hlives, htells, fun hub => htells.run_iff⟩

/--
A task that has failed fails again when there is nothing left to build.
-/
example :
    let hub (entries : List (AbsPath × Entry)) : Hub.State Unit Unit := { world := { entries }, ext := () }
    let full := hub [(["s", "html", "a.md"], .file [])]
    let bare := hub [(["s"], .directory)]
    let t := after ⟨{}, fun _ r => .answer .null r.compilerOptions r.executerOptions⟩ 9
      { source := ["s"], output := ["o"] } [⟨bare, .run⟩, ⟨bare, .prepare⟩, ⟨full, .run⟩, ⟨full, .prepare⟩]
    t.items = [] ∧ t.phase = .failed := by
  decide +kernel

end Polyglot.Build
