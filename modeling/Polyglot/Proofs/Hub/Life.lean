import Polyglot.Proofs.Hub.Rules
import Polyglot.Proofs.Hub.Sharing
import Polyglot.Proofs.Loop.Turn

/-!
The life of a hub: requests come from outside while others are on their way, ticks are fired in any
order, tasks are cancelled, results are dropped, and everything around the hub may change between two
ticks. What is kept is at all times what the history says.
-/

namespace Polyglot

namespace Loop.Schedule

variable {σ ε ρ : Type}

def enter (s : Schedule σ ε ρ) (r : Loop.Routine σ ε ρ) : Schedule σ ε ρ :=
  (s.addTask ⟨.ready r, [], false⟩).enqueue [.wake s.tasks.length]

end Loop.Schedule

namespace Hub

open Loop

variable {K X : Type}

abbrev Loop (K X : Type) := Schedule (State K X) Failure (Option Envelope)

/--
One thing that happens to a hub: a tick, a request from outside, the cancelling of a task, the
dropping of the results of a mode, or a change of anything around it, its registry included.
-/
inductive Move (K X : Type) where
  | fire (i : Nat)
  | request (a : Ask)
  | cancel (fuel task : Nat)
  | clear (mode : Mode)
  | change (registry : Registry K) (heads : Table Nat Style.Head) (world : World) (root : String)
      (records : List Log.Record) (calls : List Source.WebCall) (ext : X)

def Move.apply (m : Machine K X) (s : Loop K X) : Move K X → Loop K X
  | .fire i => s.fireAt i
  | .request a => s.enter (requestRoutine m a)
  | .cancel fuel t => (Schedule.cancel fuel s t).1
  | .clear mode => { s with shared := s.shared.clearMemo mode }
  | .change registry heads world root records calls ext =>
    { s with shared := { s.shared with registry, heads, world, root, records, calls, ext } }

/--
A hub that has done nothing yet.
-/
structure Fresh (x : State K X) : Prop where
  transpiled : x.transpiled = {}
  interpreted : x.interpreted = {}
  inflight : x.inflight = {}
  history : x.history = []

/--
What a hub comes to from its start on, with the tasks of the requests from outside. When nothing is
being worked out for others, a new loop may take the place of the old one.
-/
inductive Reached (m : Machine K X) : List Nat → Loop K X → Prop where
  | new {x : State K X} (h : Fresh x) : Reached m [] { shared := x }
  | renew {tasks : List Nat} {s : Loop K X} (h : Reached m tasks s)
      (hidle : s.shared.inflight = {}) : Reached m [] { shared := s.shared }
  | request {tasks : List Nat} {s : Loop K X} (h : Reached m tasks s) (a : Ask) :
      Reached m (tasks ++ [s.tasks.length]) (Move.apply m s (.request a))
  | other {tasks : List Nat} {s : Loop K X} (h : Reached m tasks s) (move : Move K X)
      (hmove : ∀ a, move ≠ .request a) : Reached m tasks (move.apply m s)

/--
What is known of the registries that a hub may have, whatever its compilers take out of them.
-/
structure Stock (K : Type) where
  holds : Registry K → Prop
  erase : ∀ {registry} input output, holds registry → holds (registry.eraseTranspiler input output)

/--
Nothing is known of what is around the hub but its registry, and of results only that they suit their
modes.
-/
def Stock.scene (k : Stock K) : Scene K where
  fits := fun _ _ registry => k.holds registry
  kept := fun mode _ p => p.Suits mode
  good := fun mode p => p.Suits mode
  fits_erase := k.erase
  good_of_kept := id
  good_of_suits := id

def anyStock (K : Type) : Stock K where
  holds := fun _ => True
  erase := fun _ _ h => h

/--
What a hub comes to when it has, from its start on, registries of a stock only.
-/
inductive Stock.Reached (k : Stock K) (m : Machine K X) : List Nat → Loop K X → Prop where
  | new {x : State K X} (h : Fresh x) (hholds : k.holds x.registry) : Reached k m [] { shared := x }
  | renew {tasks : List Nat} {s : Loop K X} (h : Reached k m tasks s)
      (hidle : s.shared.inflight = {}) : Reached k m [] { shared := s.shared }
  | request {tasks : List Nat} {s : Loop K X} (h : Reached k m tasks s) (a : Ask) :
      Reached k m (tasks ++ [s.tasks.length]) (Move.apply m s (.request a))
  | other {tasks : List Nat} {s : Loop K X} (h : Reached k m tasks s) (move : Move K X)
      (hmove : ∀ a, move ≠ .request a)
      (hholds : ∀ registry heads world root records calls ext,
        move = .change registry heads world root records calls ext → k.holds registry) :
      Reached k m tasks (move.apply m s)

theorem Reached.stocked {m : Machine K X} {tasks : List Nat} {s : Loop K X}
    (h : Reached m tasks s) : (anyStock K).Reached m tasks s := by
  induction h with
  | new h => exact .new h trivial
  | renew _ hidle ih => exact ih.renew hidle
  | request _ a ih => exact ih.request a
  | other _ move hmove ih => exact ih.other move hmove fun _ _ _ _ _ _ _ _ => trivial

def anyOrder : Order where
  waits := fun _ _ => True
  later := fun _ => trivial

variable {m : Machine K X} {k : Stock K}

theorem works_suits {answers : Request → Ask → Envelope → Prop} {parent : Option Request} {a : Ask}
    {e : Envelope} {c : Scene K} (h : Works m c answers parent a e) :
    e.payload.Suits e.request.mode := by
  obtain ⟨r, r', k, _, _, _, he⟩ := h
  obtain ⟨hmode, _, _, hsuits⟩ := he.like
  rw [hmode]
  exact hsuits

theorem served_suits {left : Nat} {parent : Option Request} {a : Ask} {e : Envelope}
    (h : Served m k.scene left parent a e) : e.payload.Suits e.request.mode := by
  have hrecalls (h : Recalls m k.scene parent a e) : e.payload.Suits e.request.mode := by
    obtain ⟨r, _, _, hkept, heq | hloads⟩ := h
    · rw [heq]
      exact hkept
    · obtain ⟨source, heq⟩ := hloads.exists_source
      rw [heq]
      exact hkept
  cases left with
  | zero => exact hrecalls h
  | succ left =>
    rcases h with h | h
    · exact hrecalls h
    · exact works_suits h

theorem keeps_requestRoutine (a : Ask) {n : Nat} {ps : Pledges} {x : State K X} (hn : n < ps.length)
    (hinv : Inv m k.scene (fun _ => {}) ps x) :
    (requestRoutine m a).Keeps (contract m k.scene (fun _ => {}) anyOrder) n
      (fun o => ∃ e, o = some e ∧ e.payload.Suits e.request.mode) ps x := by
  have hshares (t left : Nat) (parent : Option Request) (a : Ask) :
      Shares m k.scene anyOrder t left parent a :=
    ⟨fun _ _ => trivial, fun _ _ _ h _ => works_suits h⟩
  have hrequest : KeepsContract m k.scene (fun _ => {}) anyOrder n (request m _ none a) _ :=
    .request (fun k r => Call.asksOnly_of_forall (fun a => .inr fun t left => hshares t left _ a) _)
      (Nat.zero_add _) (.inr (hshares n _ none a))
  apply hrequest ps x hn hinv
  rintro e ps' x' _ ⟨hinv', he⟩
  refine ⟨hinv', ?_⟩
  rintro _ ⟨⟩
  exact ⟨e, rfl, served_suits he⟩

theorem memo_clearMemo (x : State K X) (mode mode' : Mode) :
    (x.clearMemo mode).memo mode' = if mode = mode' then {} else x.memo mode' :=
  (memo_eq rfl rfl mode').trans (memo_setMemo x mode mode' {})

theorem Inv.clear {c : Scene K} {base : Mode → Memo Payload} {ps : Pledges} {x : State K X}
    (h : Inv m c base ps x) (mode : Mode) : Inv m c base ps (x.clearMemo mode) := by
  have hhistory : (x.clearMemo mode).history = .cleared mode :: x.history :=
    congrArg (_ :: ·) (history_setMemo x mode {})
  have hinflight : (x.clearMemo mode).inflight = x.inflight := inflight_setMemo x mode {}
  refine ⟨?_, ?_, ?_, ?_, ?_, ?_⟩
  · cases mode <;> exact h.fits
  · intro mode'
    rw [memo_clearMemo, hhistory, replay, h.memo]
  · rw [hhistory]
    intro event hmem
    rcases List.mem_cons.mp hmem with rfl | hmem
    · trivial
    · exact h.sound event hmem
  · rw [hhistory]
    intro e hmem
    rcases List.mem_cons.mp hmem with heq | hmem
    · cases heq
    · exact h.good e hmem
  · intro mode' key p hp
    rw [memo_clearMemo] at hp
    split at hp
    · cases hp
    · exact h.kept mode' key p hp
  · intro mode' key u hu
    exact h.inflight mode' key u (hinflight ▸ hu)

/--
The tasks of a hub keep its contract, and those of requests from outside have promised results that
suit their modes.
-/
def Stock.Orderly (k : Stock K) (m : Machine K X) (tasks : List Nat) (ps : Pledges)
    (s : Loop K X) : Prop :=
  s.Upholds (contract m k.scene (fun _ => {}) anyOrder) none ps ∧
    Inv m k.scene (fun _ => {}) ps s.shared ∧
    ∀ t ∈ tasks, ∃ q, ps[t]? = some q ∧ ∀ o, q o → ∃ e, o = some e ∧ e.payload.Suits e.request.mode

theorem Stock.Orderly.apply {tasks : List Nat} {ps : Pledges} {s : Loop K X}
    (h : k.Orderly m tasks ps s) (move : Move K X) (hmove : ∀ a, move ≠ .request a)
    (hholds : ∀ registry heads world root records calls ext,
      move = .change registry heads world root records calls ext → k.holds registry) :
    ∃ ps', ps <+: ps' ∧ k.Orderly m tasks ps' (move.apply m s) := by
  obtain ⟨hup, hinv, htasks⟩ := h
  cases move with
  | fire i =>
    obtain ⟨ps', hps, hup', hinv', _⟩ := hup.fireAt hinv i
    refine ⟨ps', hps, hup', hinv', ?_⟩
    intro t ht
    obtain ⟨q, hq, hsuits⟩ := htasks t ht
    obtain ⟨more, rfl⟩ := hps
    refine ⟨q, ?_, hsuits⟩
    rw [List.getElem?_append_left (List.getElem?_eq_some_iff.mp hq).1, hq]
  | request a => exact absurd rfl (hmove a)
  | cancel fuel t =>
    have hc := Schedule.cancels_cancel fuel s t
    refine ⟨ps, List.prefix_rfl, hup.cancels hc, ?_, htasks⟩
    rw [Move.apply, hc.shared]
    exact hinv
  | clear mode => exact ⟨ps, List.prefix_rfl, hup.changeShared _, hinv.clear mode, htasks⟩
  | change registry heads world root records calls ext =>
    exact ⟨ps, List.prefix_rfl, hup.changeShared _,
      hinv.frame (hholds _ _ _ _ _ _ _ rfl) rfl rfl rfl hinv.inflight, htasks⟩

theorem Stock.Reached.orderly {tasks : List Nat} {s : Loop K X} (h : k.Reached m tasks s) :
    ∃ ps, k.Orderly m tasks ps s := by
  induction h with
  | @new x h hholds =>
    refine ⟨[], Schedule.upholds_of_empty _ _, ⟨hholds, ?_, ?_, ?_, ?_, ?_⟩, by simp⟩
    · intro mode
      rw [h.history, replay]
      cases mode with
      | transpile => exact h.transpiled
      | interpret => exact h.interpreted
    · simp [h.history]
    · simp [h.history]
    · intro mode key p hp
      cases mode with
      | transpile =>
        rw [State.memo, h.transpiled] at hp
        cases hp
      | interpret =>
        rw [State.memo, h.interpreted] at hp
        cases hp
    · intro mode key u hu
      rw [h.inflight] at hu
      cases hu
  | @renew tasks s _ hidle ih =>
    obtain ⟨ps, _, hinv, _⟩ := ih
    refine ⟨[], Schedule.upholds_of_empty _ _, { hinv with inflight := ?_ }, by simp⟩
    intro mode key u hu
    rw [hidle] at hu
    cases hu
  | @request tasks s _ a ih =>
    obtain ⟨ps, hup, hinv, htasks⟩ := ih
    have hnew := hup.spawn (requestRoutine m a)
      (q := fun o => ∃ e, o = some e ∧ e.payload.Suits e.request.mode) fun ps' x hps hinv' =>
        keeps_requestRoutine a (Nat.lt_of_lt_of_le (by simp) hps.length_le) hinv'
    refine ⟨_, hnew, hinv.mono (List.prefix_append _ _), ?_⟩
    intro t ht
    rcases List.mem_append.mp ht with ht | ht
    · obtain ⟨q, hq, hsuits⟩ := htasks t ht
      refine ⟨q, ?_, hsuits⟩
      rw [List.getElem?_append_left (List.getElem?_eq_some_iff.mp hq).1, hq]
    · obtain rfl := List.mem_singleton.mp ht
      refine ⟨_, ?_, fun _ h => h⟩
      rw [← Schedule.length_phases, ← hup.length, List.getElem?_concat_length]
  | @other tasks s _ move hmove hholds ih =>
    obtain ⟨ps, h⟩ := ih
    obtain ⟨ps', _, h'⟩ := h.apply move hmove hholds
    exact ⟨ps', h'⟩

theorem Reached.orderly {tasks : List Nat} {s : Loop K X} (h : Reached m tasks s) :
    ∃ ps, (anyStock K).Orderly m tasks ps s :=
  h.stocked.orderly

end Hub

end Polyglot

/-!
The life of a hub in which nobody cancels a task: the books are in order at all times.
-/

namespace Polyglot.Hub

open Loop

variable {K X : Type} {m : Machine K X} {old : State K X} {l : Book} {x : State K X}
variable {tasks : List Nat} {s s' : Loop K X}

/--
One loop of a hub goes on, where nobody cancels a task.
-/
inductive Runs (m : Machine K X) (s : Loop K X) : Loop K X → Prop where
  | refl : Runs m s s
  | step {s' : Loop K X} (h : Runs m s s') (move : Move K X) (hmove : ∀ fuel t, move ≠ .cancel fuel t) :
    Runs m s (move.apply m s')

/--
What a hub comes to from an older state on where nobody cancels a task, with the tasks of the requests
from outside. When nothing is being worked out for others, a new loop may take the place of the old one.
-/
inductive Uncancelled (m : Machine K X) (old : State K X) : List Nat → Loop K X → Prop where
  | new : Uncancelled m old [] { shared := old }
  | renew {tasks : List Nat} {s : Loop K X} (h : Uncancelled m old tasks s) (hidle : s.shared.inflight = {}) :
    Uncancelled m old [] { shared := s.shared }
  | request {tasks : List Nat} {s : Loop K X} (h : Uncancelled m old tasks s) (a : Ask) :
    Uncancelled m old (tasks ++ [s.tasks.length]) (Move.apply m s (.request a))
  | other {tasks : List Nat} {s : Loop K X} (h : Uncancelled m old tasks s) (move : Move K X)
    (hrequest : ∀ a, move ≠ .request a) (hcancel : ∀ fuel t, move ≠ .cancel fuel t) :
    Uncancelled m old tasks (move.apply m s)

theorem Uncancelled.runs (h : Uncancelled m old tasks s) (hruns : Runs m s s') :
    ∃ tasks', tasks ⊆ tasks' ∧ Uncancelled m old tasks' s' := by
  induction hruns with
  | refl => exact ⟨tasks, fun _ => id, h⟩
  | step _ move hmove ih =>
    obtain ⟨tasks', hsub, h'⟩ := ih
    by_cases hrequest : ∃ a, move = .request a
    · obtain ⟨a, rfl⟩ := hrequest
      exact ⟨_, fun t ht => List.mem_append_left _ (hsub ht), h'.request a⟩
    · exact ⟨tasks', hsub, h'.other move (fun a heq => hrequest ⟨a, heq⟩) hmove⟩

theorem Uncancelled.run (h : Uncancelled m old tasks s) (fuel : Nat) :
    Uncancelled m old tasks (s.run fuel) := by
  induction fuel generalizing s with
  | zero => exact h
  | succ fuel ih =>
    rw [Schedule.run]
    split
    · exact h
    · next tick rest hqueue =>
      apply ih
      have hfire := h.other (.fire 0) (by simp) (by simp)
      rw [Move.apply, Schedule.fireAt, hqueue] at hfire
      exact hfire

theorem Uncancelled.reached (h : Uncancelled m old tasks s) (hfresh : Fresh old) : Reached m tasks s := by
  induction h with
  | new => exact .new hfresh
  | renew _ hidle ih => exact ih.renew hidle
  | request _ a ih => exact ih.request a
  | other _ move hrequest _ ih => exact ih.other move hrequest

theorem not_since_self {event : Event} : ¬ Since x x event := by
  rintro ⟨new, heq, hmem⟩
  obtain rfl : new = [] := List.append_left_eq_self.mp heq.symm
  cases hmem

namespace SoundBook

/--
A loop without tasks has its books in order if nothing is being worked out for others and all results
have their origins.
-/
theorem blank (hinflight : x.inflight = {}) (hhistory : old.history <:+ x.history)
    (hmemo : ∀ mode key p, (x.memo mode).get? key = some p → (old.memo mode).get? key = some p ∨
      ∃ r, Stems m old x r p ∧ r.mode = mode ∧ r.key = key ∧ r.allowCache)
    (hfinished : ∀ e, Since old x (.finished e) → e.request.Sound m.settings.inlineStart ∧
      (e.request.allowCache ∧ (old.memo e.request.mode).get? e.request.key = some e.payload ∨
        ∃ r, Stems m old x r e.payload ∧ r.Serves e.request))
    (hagrees : Sole m → ∀ mode, ¬ Since old x (.cleared mode) → ∀ e, Since old x (.finished e) →
      e.request.mode = mode → e.request.allowCache → e.request.fromLocation = false →
      (x.memo mode).get? e.request.key = some e.payload) : SoundBook m old none {} x where
  fresh := fun _ _ => rfl
  entries := by
    refine ⟨?_, ?_, ?_, ?_, ?_, ?_⟩
    · rw [hinflight]
      exact List.nodup_nil
    · rw [hinflight]
      rintro mode key u ⟨⟩
    · rintro t r u ⟨⟩
    · rintro t r u ⟨⟩
    · rintro u g r ⟨⟩
    · rintro t g ⟨⟩
  origins := by
    refine ⟨hhistory, ?_, ?_, ?_, ?_, ?_, hmemo, hfinished⟩
    · rintro u g r p ⟨⟩
    · rintro u g r o ⟨⟩
    · rintro u g r o ⟨⟩
    · rintro u g p o ⟨⟩
    · rintro u g o ⟨⟩
  single := by
    intro hsole mode hclear
    refine ⟨?_, ?_, ?_, ?_, hagrees hsole mode hclear⟩
    · rintro u g r ⟨⟩
    · rintro u g r o ⟨⟩
    · rintro t r u g u' r' o ⟨⟩
    · rintro t r u p (⟨⟨⟩⟩ | ⟨⟨⟩⟩)

theorem new (hinflight : old.inflight = {}) : SoundBook m old none {} old :=
  blank hinflight List.suffix_rfl (fun _ _ _ => .inl) (fun _ he => absurd he not_since_self)
    fun _ _ _ _ he => absurd he not_since_self

theorem renew (h : SoundBook m old none l x) (hinflight : x.inflight = {}) : SoundBook m old none {} x :=
  blank hinflight h.origins.history h.origins.memo h.origins.finished fun hsole mode hclear =>
    (h.single hsole mode hclear).finished

theorem clear (h : SoundBook m old none l x) (mode : Mode) : SoundBook m old none l (x.clearMemo mode) where
  fresh := h.fresh
  entries := h.entries.frame (inflight_setMemo x mode {})
  origins := h.origins.clear mode
  single := by
    intro hsole mode' hclear
    have hhistory : (x.clearMemo mode).history = .cleared mode :: x.history :=
      congrArg (_ :: ·) (history_setMemo x mode {})
    have hnote {event : Event} : Since old (x.clearMemo mode) event ↔
        Since old (x.note (.cleared mode)) event := by
      unfold Since
      rw [hhistory]
      rfl
    have hne : mode ≠ mode' := by
      rintro rfl
      exact hclear (hnote.mpr (since_note h.origins.history))
    have hsingle := h.single hsole mode' fun hold => hclear (hnote.mpr hold.note)
    have hinflight : (x.clearMemo mode).inflight = x.inflight := inflight_setMemo x mode {}
    apply hsingle.frame hinflight
    · rw [memo_clearMemo, if_neg hne]
    · intro e he
      rcases (hnote.mp he).of_note h.origins.history with heq | he
      · cases heq
      · exact he

end SoundBook

/--
The tasks of a hub tend their wards and keep the books, and those in nobody's care are the tasks of
the requests from outside.
-/
structure Accounts (m : Machine K X) (old : State K X) (l : Book) (tasks : List Nat) (s : Loop K X) :
    Prop where
  tended : s.Tended (terms m old) none l
  book : SoundBook m old none l s.shared
  outside : ∀ t ∈ tasks, l.wards[t]? = some ⟨none, .outside⟩
  roots : ∀ (t : Nat) (w : Ward Role), l.wards[t]? = some w → w.guardian = none → t ∈ tasks

namespace Accounts

theorem new (hbook : SoundBook m old none {} x) : Accounts m old {} [] { shared := x } where
  tended := Schedule.tended_of_empty _ x
  book := hbook
  outside := by rintro t ⟨⟩
  roots := by rintro t w ⟨⟩

theorem request (h : Accounts m old l tasks s) (a : Ask) :
    Accounts m old (l.start ⟨none, .outside⟩ .start) (tasks ++ [s.tasks.length])
      (Move.apply m s (.request a)) where
  tended := by
    apply h.tended.start ⟨none, .outside⟩ (by rintro _ ⟨⟩)
    · exact ⟨by rintro _ _ _ ⟨⟩, by rintro _ _ ⟨⟩⟩
    · intro l' x' hl hbook
      have hw : l'.wards[l.wards.length]? = some ⟨none, .outside⟩ :=
        hl.ward List.getElem?_concat_length
      have hstart : l'.stage l.wards.length = .pending .start := hl.stage.trans (l.stage_start_self _ _)
      exact ⟨tends_requestRoutine a hbook hw hstart,
        fun _ => stop_of_pending hw hstart hbook (by simp) _⟩
  book := h.book.start (by simp) fun _ => rfl
  outside := by
    have hlen : l.wards.length = s.tasks.length := by rw [h.tended.length, Schedule.length_phases]
    intro t ht
    rcases List.mem_append.mp ht with ht | ht
    · exact (Ledger.Extends.start h.tended.new _ .start).ward (h.outside t ht)
    · rw [List.mem_singleton.mp ht, ← hlen, Ledger.wards_start, List.getElem?_concat_length]
  roots := by
    have hlen : l.wards.length = s.tasks.length := by rw [h.tended.length, Schedule.length_phases]
    intro t w hw hnone
    rw [Ledger.wards_start, List.getElem?_append] at hw
    split at hw
    · exact List.mem_append_left _ (h.roots t w hw hnone)
    · next hge =>
      have hlt := (List.getElem?_eq_some_iff.mp hw).1
      rw [List.length_singleton] at hlt
      apply List.mem_append_right
      rw [List.mem_singleton]
      omega

theorem other (h : Accounts m old l tasks s) (move : Move K X) (hrequest : ∀ a, move ≠ .request a)
    (hcancel : ∀ fuel t, move ≠ .cancel fuel t) :
    ∃ l', l.Grows l' ∧ Accounts m old l' tasks (move.apply m s) := by
  have hsame (x : State K X) (hbook : SoundBook m old none l x) :
      Accounts m old l tasks { s with shared := x } :=
    ⟨h.tended.changeShared x, hbook, h.outside, h.roots⟩
  cases move with
  | fire i =>
    obtain ⟨l', hgrows, htended, hbook⟩ := h.tended.fireAt h.book i
    refine ⟨l', hgrows, htended, hbook, fun t ht => hgrows.ward (h.outside t ht), ?_⟩
    intro t w hw hnone
    rcases hgrows.raised t w hw with hold | hsome
    · exact h.roots t w hold hnone
    · rw [hnone] at hsome
      cases hsome
  | request a => exact absurd rfl (hrequest a)
  | cancel fuel t => exact absurd rfl (hcancel fuel t)
  | clear mode => exact ⟨l, .refl l, hsame _ (h.book.clear mode)⟩
  | change registry heads world root records calls ext =>
    exact ⟨l, .refl l, hsame _ (h.book.frame rfl (memo_eq rfl rfl) rfl)⟩

theorem runs (h : Accounts m old l tasks s) (hruns : Runs m s s') :
    ∃ l' tasks', l.Extends l' ∧ tasks ⊆ tasks' ∧ Accounts m old l' tasks' s' := by
  induction hruns with
  | refl => exact ⟨l, tasks, .refl l, fun _ => id, h⟩
  | step _ move hmove ih =>
    obtain ⟨l', tasks', hl, hsub, h'⟩ := ih
    by_cases hrequest : ∃ a, move = .request a
    · obtain ⟨a, rfl⟩ := hrequest
      exact ⟨_, _, hl.trans (.start h'.tended.new _ .start), fun t ht => List.mem_append_left _ (hsub ht),
        h'.request a⟩
    · obtain ⟨l'', hl', h''⟩ := h'.other move (fun a heq => hrequest ⟨a, heq⟩) hmove
      exact ⟨l'', tasks', hl.trans hl'.toExtends, hsub, h''⟩

end Accounts

theorem Uncancelled.accounts (h : Uncancelled m old tasks s) (hold : old.inflight = {}) :
    ∃ l, Accounts m old l tasks s := by
  induction h with
  | new => exact ⟨{}, .new (.new hold)⟩
  | renew _ hidle ih =>
    obtain ⟨l, h⟩ := ih
    exact ⟨{}, .new (h.book.renew hidle)⟩
  | request _ a ih =>
    obtain ⟨l, h⟩ := ih
    exact ⟨_, h.request a⟩
  | other _ move hrequest hcancel ih =>
    obtain ⟨l, h⟩ := ih
    obtain ⟨l', _, h'⟩ := h.other move hrequest hcancel
    exact ⟨l', h'⟩

end Polyglot.Hub
