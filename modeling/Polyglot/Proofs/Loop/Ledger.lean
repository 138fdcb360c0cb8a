import Polyglot.Proofs.Loop.Upkeep

/-!
Ledgers: what is known of the tasks of a loop besides what they are doing. A task is in the care of the
one that started it, plays a part of its own, and stands at some point until it ends.
-/

namespace Polyglot.Loop

variable {κ π ε ρ : Type}

/--
A task with the part that it plays, in the care of the one that started it if that is a task.
-/
structure Ward (κ : Type) where
  guardian : Option Nat
  role : κ

/--
How far a task has come, where `new` stands for one that there is not yet.
-/
inductive Stage (π ε ρ : Type) where
  | new
  | pending (point : π)
  | ended (r : Except (Stop ε) ρ)

/--
The tasks of a loop, how far each has come, and which of them have been cut off by their guardians.
-/
structure Ledger (κ π ε ρ : Type) where
  wards : List (Ward κ) := []
  stage : Nat → Stage π ε ρ := fun _ => .new
  cut : List Nat := []

def Raises (ws : List (Ward κ)) (t u : Nat) : Prop := ∃ w, ws[u]? = some w ∧ w.guardian = some t

/--
A task has been cut off by its guardian, or the guardian is doomed.
-/
inductive Dooms (ws : List (Ward κ)) (cut : List Nat) : Nat → Prop where
  | cut {t u : Nat} (h : Raises ws t u) (hu : u ∈ cut) : Dooms ws cut u
  | ward {t u : Nat} (h : Raises ws t u) (ht : Dooms ws cut t) : Dooms ws cut u

section Raises

variable {ws ws' : List (Ward κ)} {cut cut' us : List Nat} {t t' u : Nat}

theorem Raises.mono (h : Raises ws t u) (hws : ws <+: ws') : Raises ws' t u := by
  obtain ⟨w, hw, ht⟩ := h
  obtain ⟨more, rfl⟩ := hws
  exact ⟨w, by rw [List.getElem?_append_left (List.getElem?_eq_some_iff.mp hw).1, hw], ht⟩

theorem Raises.lt (h : Raises ws t u) : u < ws.length := by
  obtain ⟨w, hw, _⟩ := h
  exact (List.getElem?_eq_some_iff.mp hw).1

theorem Raises.unique (h : Raises ws t u) (h' : Raises ws t' u) : t = t' := by
  obtain ⟨w, hw, ht⟩ := h
  obtain ⟨w', hw', ht'⟩ := h'
  obtain rfl := Option.some.inj (hw.symm.trans hw')
  exact Option.some.inj (ht.symm.trans ht')

theorem Raises.of_prefix (h : Raises ws' t u) (hws : ws <+: ws') (hu : u < ws.length) :
    Raises ws t u := by
  obtain ⟨w, hw, ht⟩ := h
  obtain ⟨more, rfl⟩ := hws
  exact ⟨w, by rwa [List.getElem?_append_left hu] at hw, ht⟩

theorem ward_of_concat {w w' : Ward κ} (h : (ws ++ [w])[u]? = some w') :
    ws[u]? = some w' ∨ (u = ws.length ∧ w' = w) := by
  rw [List.getElem?_append] at h
  split at h
  · exact .inl h
  · have hlt := (List.getElem?_eq_some_iff.mp h).1
    rw [List.length_singleton] at hlt
    exact .inr ⟨by omega, List.mem_singleton.mp (List.mem_of_getElem? h)⟩

theorem ward_of_concat_of_ne {w w' : Ward κ} (h : (ws ++ [w])[u]? = some w') (hu : u ≠ ws.length) :
    ws[u]? = some w' :=
  (ward_of_concat h).resolve_right fun hself => hu hself.1

theorem Raises.of_concat {w : Ward κ} (h : Raises (ws ++ [w]) t u) :
    Raises ws t u ∨ (u = ws.length ∧ w.guardian = some t) := by
  obtain ⟨w', hw, ht⟩ := h
  rcases ward_of_concat hw with hw | ⟨hu, rfl⟩
  · exact .inl ⟨w', hw, ht⟩
  · exact .inr ⟨hu, ht⟩

theorem Dooms.raised (h : Dooms ws cut u) : ∃ t, Raises ws t u := by
  cases h with
  | cut h _ => exact ⟨_, h⟩
  | ward h _ => exact ⟨_, h⟩

theorem Dooms.mono (h : Dooms ws cut t) (hws : ws <+: ws') (hcut : cut ⊆ cut') :
    Dooms ws' cut' t := by
  induction h with
  | cut h hu => exact .cut (h.mono hws) (hcut hu)
  | ward h _ ih => exact .ward (h.mono hws) ih

theorem Dooms.of_concat {w : Ward κ} (h : Dooms (ws ++ [w]) cut u)
    (holder : ∀ t u, Raises ws t u → t < u) (hu : u < ws.length) : Dooms ws cut u := by
  induction h with
  | cut h hcut => exact .cut (h.of_prefix (List.prefix_append _ _) hu) hcut
  | ward h _ ih =>
    have hraise := h.of_prefix (List.prefix_append _ _) hu
    exact .ward hraise (ih (Nat.lt_trans (holder _ _ hraise) hu))

theorem Dooms.lt (h : Dooms ws us u) (holder : ∀ t u, Raises ws t u → t < u)
    (hus : ∀ u ∈ us, t < u) : t < u := by
  induction h with
  | cut _ hu => exact hus _ hu
  | ward h _ ih => exact Nat.lt_trans ih (holder _ _ h)

end Raises

namespace Ledger

variable {l l' l'' : Ledger κ π ε ρ} {t u : Nat} {r : Except (Stop ε) ρ}

abbrev Raise (l : Ledger κ π ε ρ) : Nat → Nat → Prop := Raises l.wards

abbrev Doomed (l : Ledger κ π ε ρ) : Nat → Prop := Dooms l.wards l.cut

theorem not_doomed {w : Ward κ} (hw : l.wards[t]? = some w) (hnone : w.guardian = none) :
    ¬ l.Doomed t := by
  intro hdoom
  obtain ⟨_, w', hw', hguardian⟩ := hdoom.raised
  obtain rfl := Option.some.inj (hw.symm.trans hw')
  cases hnone.symm.trans hguardian

def Ended (l : Ledger κ π ε ρ) (t : Nat) : Prop := ∃ r, l.stage t = .ended r

def reach (l : Ledger κ π ε ρ) (t : Nat) (stage : Stage π ε ρ) : Ledger κ π ε ρ :=
  { l with stage := Function.update l.stage t stage }

/--
There is a new task, which stands at some point.
-/
def start (l : Ledger κ π ε ρ) (w : Ward κ) (point : π) : Ledger κ π ε ρ :=
  { l with
    wards := l.wards ++ [w]
    stage := Function.update l.stage l.wards.length (.pending point) }

def cutOff (l : Ledger κ π ε ρ) (us : List Nat) : Ledger κ π ε ρ :=
  { l with cut := l.cut ++ us }

section Simp

variable (l) (t) (stage : Stage π ε ρ) (w : Ward κ) (point : π) (us : List Nat)

@[simp]
theorem wards_reach : (l.reach t stage).wards = l.wards := rfl

@[simp]
theorem cut_reach : (l.reach t stage).cut = l.cut := rfl

@[simp]
theorem stage_reach_self : (l.reach t stage).stage t = stage := by
  simp [reach]

theorem stage_reach_of_ne (h : u ≠ t) : (l.reach t stage).stage u = l.stage u := by
  simp [reach, h]

@[simp]
theorem wards_start : (l.start w point).wards = l.wards ++ [w] := rfl

@[simp]
theorem cut_start : (l.start w point).cut = l.cut := rfl

@[simp]
theorem stage_start_self : (l.start w point).stage l.wards.length = .pending point := by
  simp [start]

theorem stage_start_of_ne (h : u ≠ l.wards.length) : (l.start w point).stage u = l.stage u := by
  simp [start, h]

@[simp]
theorem wards_cutOff : (l.cutOff us).wards = l.wards := rfl

@[simp]
theorem stage_cutOff : (l.cutOff us).stage = l.stage := rfl

@[simp]
theorem cut_cutOff : (l.cutOff us).cut = l.cut ++ us := rfl

@[simp]
theorem reach_reach (stage' : Stage π ε ρ) : (l.reach t stage).reach t stage' = l.reach t stage' := by
  simp [reach]

theorem start_reach (h : t ≠ l.wards.length) :
    (l.start w point).reach t stage = (l.reach t stage).start w point := by
  simp [reach, start, Function.update_comm h]

theorem reach_self (h : l.stage t = stage) : l.reach t stage = l := by
  simp [reach, ← h]

theorem stage_reach_eq_iff (stage' : Stage π ε ρ) : (l.reach t stage).stage u = stage' ↔
    u = t ∧ stage = stage' ∨ u ≠ t ∧ l.stage u = stage' := by
  by_cases h : u = t
  · simp [h]
  · simp [h, stage_reach_of_ne]

theorem stage_start_eq_iff (stage' : Stage π ε ρ) : (l.start w point).stage u = stage' ↔
    u = l.wards.length ∧ .pending point = stage' ∨ u ≠ l.wards.length ∧ l.stage u = stage' := by
  by_cases h : u = l.wards.length
  · simp [h]
  · simp [h, stage_start_of_ne]

variable {l t stage w point} {stage' : Stage π ε ρ}

theorem of_stage_reach (h : (l.reach t stage).stage u = stage') (hne : stage ≠ stage') :
    u ≠ t ∧ l.stage u = stage' :=
  ((stage_reach_eq_iff _ _ _ _).mp h).resolve_left fun hself => hne hself.2

theorem of_stage_start (h : (l.start w point).stage u = stage') (hne : .pending point ≠ stage') :
    u ≠ l.wards.length ∧ l.stage u = stage' :=
  ((stage_start_eq_iff _ _ _ _).mp h).resolve_left fun hself => hne hself.2

end Simp

theorem running_start (l : Ledger κ π ε ρ) (w : Ward κ) (point : π) :
    ¬ (l.start w point).Ended l.wards.length := by
  rintro ⟨_, hr⟩
  cases hr.symm.trans (l.stage_start_self _ _)

/--
A ledger as it may have become some time later: what has ended stays so, and nothing is forgotten.
-/
structure Extends (l l' : Ledger κ π ε ρ) : Prop where
  wards : l.wards <+: l'.wards
  ended : ∀ u r, l.stage u = .ended r → l'.stage u = .ended r
  cut : l.cut ⊆ l'.cut

/--
A ledger as it may have become when a task goes on.
-/
structure Later (t : Nat) (l l' : Ledger κ π ε ρ) : Prop extends Extends l l' where
  stage : l'.stage t = l.stage t

/--
A ledger as it may have become after a tick, where each new task is in the care of another one.
-/
structure Grows (l l' : Ledger κ π ε ρ) : Prop extends Extends l l' where
  raised : ∀ (u : Nat) (w : Ward κ), l'.wards[u]? = some w →
    l.wards[u]? = some w ∨ w.guardian.isSome

namespace Extends

theorem refl (l : Ledger κ π ε ρ) : Extends l l := ⟨List.prefix_rfl, fun _ _ => id, fun _ => id⟩

theorem trans (h : Extends l l') (h' : Extends l' l'') : Extends l l'' where
  wards := h.wards.trans h'.wards
  ended := fun u r hr => h'.ended u r (h.ended u r hr)
  cut := fun _ hu => h'.cut (h.cut hu)

theorem cutOff (l : Ledger κ π ε ρ) (us : List Nat) : Extends l (l.cutOff us) :=
  ⟨List.prefix_rfl, fun _ _ => id, List.subset_append_left l.cut us⟩

theorem reach (ht : ¬ l.Ended t) (stage : Stage π ε ρ) : Extends l (l.reach t stage) where
  wards := List.prefix_rfl
  ended := by
    intro u r hr
    have hu : u ≠ t := by
      rintro rfl
      exact ht ⟨r, hr⟩
    rw [stage_reach_of_ne _ _ _ hu, hr]
  cut := fun _ => id

theorem start (hnew : l.stage l.wards.length = .new) (w : Ward κ) (point : π) :
    Extends l (l.start w point) where
  wards := List.prefix_append _ _
  ended := by
    intro u r hr
    have hu : u ≠ l.wards.length := by
      rintro rfl
      rw [hnew] at hr
      cases hr
    rw [stage_start_of_ne _ _ _ hu, hr]
  cut := fun _ => id

theorem ward (h : Extends l l') {w : Ward κ} (hw : l.wards[t]? = some w) : l'.wards[t]? = some w := by
  obtain ⟨more, heq⟩ := h.wards
  rw [← heq, List.getElem?_append_left (List.getElem?_eq_some_iff.mp hw).1, hw]

theorem raise (h : Extends l l') (hu : l.Raise t u) : l'.Raise t u := hu.mono h.wards

theorem doomed (h : Extends l l') (ht : l.Doomed t) : l'.Doomed t := ht.mono h.wards h.cut

theorem hasEnded (h : Extends l l') (ht : l.Ended t) : l'.Ended t := by
  obtain ⟨r, hr⟩ := ht
  exact ⟨r, h.ended t r hr⟩

end Extends

namespace Grows

theorem of_extends (h : Extends l l') (hwards : l'.wards = l.wards) : Grows l l' :=
  ⟨h, fun _ _ hw => .inl (hwards ▸ hw)⟩

theorem refl (l : Ledger κ π ε ρ) : Grows l l := .of_extends (.refl l) rfl

theorem trans (h : Grows l l') (h' : Grows l' l'') : Grows l l'' where
  toExtends := h.toExtends.trans h'.toExtends
  raised := by
    intro u w hw
    rcases h'.raised u w hw with hw | hsome
    · exact h.raised u w hw
    · exact .inr hsome

theorem start (hnew : l.stage l.wards.length = .new) (t : Nat) (role : κ) (point : π) :
    Grows l (l.start ⟨some t, role⟩ point) where
  toExtends := .start hnew _ point
  raised := by
    intro u w hw
    rcases ward_of_concat hw with hw | ⟨_, rfl⟩
    · exact .inl hw
    · exact .inr rfl

end Grows

namespace Later

theorem refl (t : Nat) (l : Ledger κ π ε ρ) : Later t l l := ⟨.refl l, rfl⟩

theorem trans (h : Later t l l') (h' : Later t l' l'') : Later t l l'' :=
  ⟨h.toExtends.trans h'.toExtends, h'.stage.trans h.stage⟩

theorem cutOff (t : Nat) (l : Ledger κ π ε ρ) (us : List Nat) : Later t l (l.cutOff us) :=
  ⟨.cutOff l us, rfl⟩

theorem reach (hu : ¬ l.Ended u) (hne : t ≠ u) (stage : Stage π ε ρ) : Later t l (l.reach u stage) :=
  ⟨.reach hu stage, stage_reach_of_ne l u stage hne⟩

theorem start (hnew : l.stage l.wards.length = .new) (w : Ward κ) (point : π)
    (hne : t ≠ l.wards.length) : Later t l (l.start w point) :=
  ⟨.start hnew w point, stage_start_of_ne l w point hne⟩

end Later

/--
Some tasks are all of those that a task has in its care and that have not ended, and maybe more.
-/
structure Minds (l : Ledger κ π ε ρ) (t : Nat) (us : List Nat) : Prop where
  own : ∀ u ∈ us, l.Raise t u
  all : ∀ u, l.Raise t u → ¬ l.Ended u → u ∈ us

def Attached (l : Ledger κ π ε ρ) (t : Nat) (us : List Nat) : Prop :=
  ∀ u ∈ us, l.Doomed u → l.Doomed t

section Wards

variable {us : List Nat}

theorem Minds.extend (h : l.Minds t us) (hl : l.Extends l') (hwards : l'.wards = l.wards) :
    l'.Minds t us where
  own := by
    rw [Raise, hwards]
    exact h.own
  all := by
    rw [Raise, hwards]
    exact fun u hu hrun => h.all u hu fun hended => hrun (hl.hasEnded hended)

theorem Minds.start (h : l.Minds t us) (hnew : l.stage l.wards.length = .new) (role : κ) (point : π) :
    (l.start ⟨some t, role⟩ point).Minds t (us ++ [l.wards.length]) where
  own := by
    intro u hu
    rcases List.mem_append.mp hu with hu | hu
    · exact (h.own u hu).mono (List.prefix_append _ _)
    · rw [List.mem_singleton.mp hu]
      exact ⟨_, List.getElem?_concat_length, rfl⟩
  all := by
    intro u hu hrun
    rcases hu.of_concat with hu | ⟨rfl, _⟩
    · apply List.mem_append_left
      exact h.all u hu fun hended => hrun ((Extends.start hnew _ point).hasEnded hended)
    · exact List.mem_append_right _ (List.mem_singleton_self _)

theorem Attached.start (h : l.Attached t us) (hus : ∀ u ∈ us, l.Raise t u)
    (holder : ∀ t u, l.Raise t u → t < u) (hknown : ∀ u ∈ l.cut, u < l.wards.length) (role : κ)
    (point : π) : (l.start ⟨some t, role⟩ point).Attached t (us ++ [l.wards.length]) := by
  intro u hu hdoom
  rcases List.mem_append.mp hu with hu | hu
  · have hold := h u hu (hdoom.of_concat holder (hus u hu).lt)
    exact hold.mono (List.prefix_append _ _) fun _ => id
  · rw [List.mem_singleton.mp hu] at hdoom
    cases hdoom with
    | cut _ hcut => exact absurd (hknown _ hcut) (Nat.lt_irrefl _)
    | @ward t' _ hraise ht' =>
      rcases hraise.of_concat with hraise | ⟨_, hguardian⟩
      · exact absurd hraise.lt (Nat.lt_irrefl _)
      · exact Option.some.inj hguardian ▸ ht'

theorem Minds.nil (h : l.Minds t us) (hus : ∀ u ∈ us, l.Ended u) : l.Minds t [] where
  own := by rintro u ⟨⟩
  all := fun u hu hrun => absurd (hus u (h.all u hu hrun)) hrun

theorem ended_of_results {vs : List ρ}
    (h : List.Forall₂ (fun u v => l.stage u = .ended (.ok v)) us vs) : ∀ u ∈ us, l.Ended u := by
  induction h with
  | nil => simp
  | cons hv _ ih => exact List.forall_mem_cons.mpr ⟨⟨_, hv⟩, ih⟩

theorem attached_nil (l : Ledger κ π ε ρ) (t : Nat) : l.Attached t [] := by
  rintro u ⟨⟩

end Wards

end Ledger

end Polyglot.Loop
