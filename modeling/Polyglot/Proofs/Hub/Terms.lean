import Polyglot.Proofs.Hub.History
import Polyglot.Proofs.Loop.Block

/-!
The contract between the tasks of a hub: what is kept agrees with the history, tasks only add to the
history and never drop results, and a task that others may join has promised a result that may be kept.
-/

namespace Polyglot.Hub

open Loop

variable {K X : Type}

abbrev Pledges := Promises (Option Envelope)

def Joinable (c : Scene K) (ps : Pledges) (mode : Mode) (key : String) (u : Nat) : Prop :=
  0 < u ∧ ∃ q, ps[u]? = some q ∧ ∀ o, q o → ∃ e, o = some e ∧ c.kept mode key e.payload

/--
The state of a hub between ticks.
-/
structure Inv (m : Machine K X) (c : Scene K) (base : Mode → Memo Payload) (ps : Pledges)
    (x : State K X) : Prop where
  fits : c.fits x.world x.root x.registry
  memo : ∀ mode, x.memo mode = replay (base mode) mode x.history
  sound : ∀ event ∈ x.history, event.Sound m.settings
  good : ∀ e, .finished e ∈ x.history → c.good e.request.mode e.payload
  kept : ∀ mode key p, (x.memo mode).get? key = some p → c.kept mode key p
  inflight : ∀ mode key u, x.inflight.get? (mode, key) = some u → Joinable c ps mode key u

def Adds (x x' : State K X) : Prop :=
  ∃ new, x'.history = new ++ x.history ∧ ∀ mode, .cleared mode ∉ new

theorem Adds.of_eq {x x' : State K X} (h : x'.history = x.history) : Adds x x' :=
  ⟨[], h, by simp⟩

theorem Adds.trans {x y z : State K X} (h : Adds x y) (h' : Adds y z) : Adds x z := by
  obtain ⟨new, heq, hnew⟩ := h
  obtain ⟨new', heq', hnew'⟩ := h'
  refine ⟨new' ++ new, by rw [heq', heq, List.append_assoc], ?_⟩
  intro mode hmem
  rcases List.mem_append.mp hmem with hmem | hmem
  · exact hnew' mode hmem
  · exact hnew mode hmem

theorem Adds.note (x : State K X) {event : Event} (h : ∀ mode, event ≠ .cleared mode) :
    Adds x (x.note event) := by
  refine ⟨[event], rfl, ?_⟩
  intro mode hmem
  exact h mode (List.mem_singleton.mp hmem).symm

/--
Who may wait for whom in a hub: a task at least for those that started after it.
-/
structure Order where
  waits : Nat → Nat → Prop
  later : ∀ {t u}, t < u → waits t u

section Inv

variable {m : Machine K X} {c : Scene K} {base : Mode → Memo Payload} {ps ps' : Pledges}
variable {x x' : State K X}

theorem Inv.mono (h : Inv m c base ps x) (hps : ps <+: ps') : Inv m c base ps' x := by
  refine { h with inflight := ?_ }
  intro mode key u hu
  obtain ⟨hpos, q, hq, hkept⟩ := h.inflight mode key u hu
  refine ⟨hpos, q, ?_, hkept⟩
  obtain ⟨more, rfl⟩ := hps
  rw [List.getElem?_append_left (List.getElem?_eq_some_iff.mp hq).1, hq]

theorem memo_eq (htranspiled : x'.transpiled = x.transpiled)
    (hinterpreted : x'.interpreted = x.interpreted) (mode : Mode) : x'.memo mode = x.memo mode := by
  cases mode with
  | transpile => exact htranspiled
  | interpret => exact hinterpreted

theorem memo_note (x : State K X) (event : Event) (mode : Mode) :
    (x.note event).memo mode = x.memo mode :=
  memo_eq rfl rfl mode

theorem Inv.frame (h : Inv m c base ps x) (hfits : c.fits x'.world x'.root x'.registry)
    (htranspiled : x'.transpiled = x.transpiled) (hinterpreted : x'.interpreted = x.interpreted)
    (hhistory : x'.history = x.history)
    (hinflight : ∀ mode key u, x'.inflight.get? (mode, key) = some u → Joinable c ps mode key u) :
    Inv m c base ps x' where
  fits := hfits
  memo := by
    intro mode
    rw [memo_eq htranspiled hinterpreted, hhistory, h.memo]
  sound := by
    rw [hhistory]
    exact h.sound
  good := by
    rw [hhistory]
    exact h.good
  kept := by
    intro mode
    rw [memo_eq htranspiled hinterpreted]
    exact h.kept mode
  inflight := hinflight

theorem Inv.report (h : Inv m c base ps x) (records : List Log.Record) (calls : List Source.WebCall) :
    Inv m c base ps { x with records, calls } :=
  h.frame h.fits rfl rfl rfl h.inflight

theorem Inv.apply (h : Inv m c base ps x) (e : Effect X) : Inv m c base ps (x.apply e) := by
  cases e with
  | unregister input output => exact h.frame (c.fits_erase input output h.fits) rfl rfl rfl h.inflight
  | log r => exact h.frame h.fits rfl rfl rfl h.inflight
  | appendStyles head sheets => exact h.frame h.fits rfl rfl rfl h.inflight
  | extend f => exact h.frame h.fits rfl rfl rfl h.inflight

theorem Inv.setInflight (h : Inv m c base ps x) {mode : Mode} {key : String} {u : Nat}
    (hu : Joinable c ps mode key u) :
    Inv m c base ps { x with inflight := x.inflight.set (mode, key) u } := by
  refine h.frame h.fits rfl rfl rfl ?_
  intro mode' key' u' hu'
  rw [Table.get?_set] at hu'
  split at hu'
  · next heq =>
    cases heq
    cases hu'
    exact hu
  · exact h.inflight mode' key' u' hu'

theorem Inv.eraseInflight (h : Inv m c base ps x) (mode : Mode) (key : String) :
    Inv m c base ps { x with inflight := x.inflight.erase (mode, key) } := by
  refine h.frame h.fits rfl rfl rfl ?_
  intro mode' key' u' hu'
  by_cases heq : (mode', key') = (mode, key)
  · rw [heq, Table.get?_erase_self] at hu'
    cases hu'
  · rw [Table.get?_erase_of_ne _ heq] at hu'
    exact h.inflight mode' key' u' hu'

theorem Inv.note (h : Inv m c base ps x) {event : Event} (hsound : event.Sound m.settings)
    (hplain : (∃ parent r, event = .asked parent r) ∨ ∃ r, event = .called r) :
    Inv m c base ps (x.note event) where
  fits := h.fits
  memo := by
    intro mode
    have hreplay : replay (base mode) mode (event :: x.history) = replay (base mode) mode x.history := by
      rcases hplain with ⟨parent, r, rfl⟩ | ⟨r, rfl⟩ <;> rfl
    rw [memo_note, h.memo]
    exact hreplay.symm
  sound := by
    intro event' hmem
    rcases List.mem_cons.mp hmem with rfl | hmem
    · exact hsound
    · exact h.sound event' hmem
  good := by
    intro e hmem
    rcases List.mem_cons.mp hmem with heq | hmem
    · rcases hplain with ⟨parent, r, rfl⟩ | ⟨r, rfl⟩ <;> cases heq
    · exact h.good e hmem
  kept := by
    intro mode
    rw [memo_note]
    exact h.kept mode
  inflight := h.inflight

variable {e : Envelope}

theorem Inv.finished (h : Inv m c base ps x) (hnamed : e.request.Named)
    (hgood : c.good e.request.mode e.payload)
    (hkeep : e.request.allowCache → (x.memo e.request.mode).has e.request.key) :
    Inv m c base ps (x.note (.finished e)) where
  fits := h.fits
  memo := by
    intro mode
    rw [memo_note, h.memo]
    change _ = replay (base mode) mode (.finished e :: x.history)
    rw [replay, if_neg]
    intro hset
    simp only [Bool.and_eq_true, decide_eq_true_eq, Bool.not_eq_true'] at hset
    obtain ⟨⟨rfl, hcache⟩, hhas⟩ := hset
    rw [← h.memo, hkeep hcache] at hhas
    cases hhas
  sound := by
    intro event hmem
    rcases List.mem_cons.mp hmem with rfl | hmem
    · exact hnamed
    · exact h.sound event hmem
  good := by
    intro e' hmem
    rcases List.mem_cons.mp hmem with heq | hmem
    · cases heq
      exact hgood
    · exact h.good e' hmem
  kept := by
    intro mode
    rw [memo_note]
    exact h.kept mode
  inflight := h.inflight

theorem memo_setMemo (x : State K X) (mode mode' : Mode) (memo : Memo Payload) :
    (x.setMemo mode memo).memo mode' = if mode = mode' then memo else x.memo mode' := by
  cases mode <;> cases mode' <;> rfl

theorem history_setMemo (x : State K X) (mode : Mode) (memo : Memo Payload) :
    (x.setMemo mode memo).history = x.history := by
  cases mode <;> rfl

theorem inflight_setMemo (x : State K X) (mode : Mode) (memo : Memo Payload) :
    (x.setMemo mode memo).inflight = x.inflight := by
  cases mode <;> rfl

theorem Inv.keep (h : Inv m c base ps x) (hnamed : e.request.Named)
    (hkept : c.kept e.request.mode e.request.key e.payload) (hcache : e.request.allowCache)
    (hnew : (x.memo e.request.mode).has e.request.key = false) :
    Inv m c base ps ((x.setMemo e.request.mode
      ((x.memo e.request.mode).set e.request.key e.payload)).note (.finished e)) := by
  have hmemo (mode : Mode) : ((x.setMemo e.request.mode
      ((x.memo e.request.mode).set e.request.key e.payload)).note (.finished e)).memo mode =
      if e.request.mode = mode then (x.memo mode).set e.request.key e.payload else x.memo mode := by
    rw [memo_note, memo_setMemo]
    split
    · next hmode => rw [hmode]
    · rfl
  have hhistory : ((x.setMemo e.request.mode
      ((x.memo e.request.mode).set e.request.key e.payload)).note (.finished e)).history =
      .finished e :: x.history := congrArg (_ :: ·) (history_setMemo x _ _)
  refine ⟨?_, ?_, ?_, ?_, ?_, ?_⟩
  · cases e.request.mode <;> exact h.fits
  · intro mode
    rw [hmemo, hhistory, replay, ← h.memo]
    split
    · next hmode =>
      subst hmode
      simp [hcache, hnew]
    · next hmode => simp [hmode]
  · rw [hhistory]
    intro event hmem
    rcases List.mem_cons.mp hmem with rfl | hmem
    · exact hnamed
    · exact h.sound event hmem
  · rw [hhistory]
    intro e' hmem
    rcases List.mem_cons.mp hmem with heq | hmem
    · cases heq
      exact c.good_of_kept hkept
    · exact h.good e' hmem
  · intro mode key p hp
    rw [hmemo] at hp
    split at hp
    · next hmode =>
      subst hmode
      rw [Table.get?_set] at hp
      split at hp
      · next hkey =>
        cases hp
        rw [hkey]
        exact hkept
      · exact h.kept _ key p hp
    · exact h.kept mode key p hp
  · have hinflight := inflight_setMemo x e.request.mode
      ((x.memo e.request.mode).set e.request.key e.payload)
    intro mode key u hu
    exact h.inflight mode key u (hinflight ▸ hu)

end Inv

def contract (m : Machine K X) (c : Scene K) (base : Mode → Memo Payload) (order : Order) :
    Contract (State K X) (Option Envelope) where
  inv := Inv m c base
  step := Adds
  waits := order.waits
  mono := fun hps h => h.mono hps
  refl := fun _ => .of_eq rfl
  trans := Adds.trans
  later := order.later

end Polyglot.Hub
