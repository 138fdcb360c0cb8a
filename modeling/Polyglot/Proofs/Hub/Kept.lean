import Polyglot.Proofs.Hub.Life

/-!
What a hub keeps, over its whole life: each result is that of a finished request with its key, stays
until it is dropped, and answers later requests at once.
-/

namespace Polyglot.Hub

open Loop

variable {K X : Type} {m : Machine K X}

section Exec

variable (s : Loop K X) (t : Nat)

theorem exec_look_bind {α : Type} (f : State K X → Block K X α) (k : α → Routine K X) :
    s.exec t ((Block.look >>= f) k) = s.exec t (f s.shared k) := rfl

theorem exec_change_bind {α : Type} (g : State K X → State K X) (f : Unit → Block K X α)
    (k : α → Routine K X) : s.exec t ((Block.change g >>= f) k) =
      { s with shared := g s.shared }.exec t (f () k) := rfl

end Exec

theorem exec_trace (s : Loop K X) (t : Nat) (debug : Bool) (logger text : String)
    (k : Unit → Routine K X) : ∃ records, s.exec t (trace debug logger text k) =
      { s with shared := { s.shared with records } }.exec t (k ()) := by
  cases debug with
  | true => exact ⟨_, rfl⟩
  | false => exact ⟨s.shared.records, rfl⟩

theorem request_eq (m : Machine K X) (left : Nat) (parent : Option Request) (a : Ask)
    (k : Envelope → Routine K X) : ∃ f, request m left parent a k = prepare m.settings a parent f ∧
      ∀ e, f (.hit e) = request.finish e k := by
  cases left with
  | zero =>
    unfold request
    exact ⟨_, rfl, fun _ => rfl⟩
  | succ left =>
    unfold request
    exact ⟨_, rfl, fun _ => rfl⟩

theorem exec_request_of_kept (s : Loop K X) (t left : Nat) (parent : Option Request) (a : Ask)
    (k : Envelope → Routine K X) {r : Request} {p : Payload}
    (hr : requestOf a.mode a.options m.settings.inlineStart (Request.depthBelow parent) = .ok r)
    (hcache : r.allowCache) (hp : (s.shared.memo r.mode).get? r.key = some p) :
    ∃ records, s.exec t (request m left parent a k) =
      { s with
        shared := { s.shared with
          records
          history := .finished ⟨{ r with cacheHit := true }, p⟩ :: .asked parent r ::
            s.shared.history } }.exec t (k ⟨{ r with cacheHit := true }, p⟩) := by
  have hprepare (k : Prepared → Routine K X) : ∃ records, s.exec t (prepare m.settings a parent k) =
      { s with shared := { s.shared with records, history := .asked parent r :: s.shared.history } }.exec
        t (k (.hit ⟨{ r with cacheHit := true }, p⟩)) := by
    have hnoted : (if r.allowCache then
        ((s.shared.note (.asked parent r)).memo r.mode).get? r.key else none) = some p := by
      rw [if_pos hcache, memo_note, hp]
    rw [prepare, hr]
    dsimp only
    rw [exec_change_bind, exec_look_bind, hnoted]
    obtain ⟨records, heq⟩ := exec_trace { s with shared := s.shared.note (.asked parent r) } t
      r.debug normalizerLog ("returning from cache: " ++ r.location) fun _ => trace r.debug
      normalizerLog ("options: " ++ (Json.write? Json.spaced 0 (.ofFields r.describe)).getD "") fun _ =>
      k (.hit ⟨{ r with cacheHit := true }, p⟩)
    obtain ⟨records', heq'⟩ := exec_trace { s with shared := { s.shared.note (.asked parent r) with
      records } } t r.debug normalizerLog
      ("options: " ++ (Json.write? Json.spaced 0 (.ofFields r.describe)).getD "") fun _ =>
      k (.hit ⟨{ r with cacheHit := true }, p⟩)
    exact ⟨records', heq.trans heq'⟩
  obtain ⟨f, hf, hhit⟩ := request_eq m left parent a k
  obtain ⟨records, heq⟩ := hprepare f
  refine ⟨records, ?_⟩
  rw [hf, heq, hhit]
  rfl

theorem Stock.Orderly.adds {k : Stock K} {tasks : List Nat} {ps : Pledges} {s : Loop K X}
    (h : k.Orderly m tasks ps s) {move : Move K X} {mode : Mode} (hmove : move ≠ .clear mode) :
    ∃ new, (move.apply m s).shared.history = new ++ s.shared.history ∧ .cleared mode ∉ new := by
  obtain ⟨hup, hinv, _⟩ := h
  cases move with
  | fire i =>
    obtain ⟨_, _, _, _, new, heq, hnew⟩ := hup.fireAt hinv i
    exact ⟨new, heq, hnew mode⟩
  | request a => exact ⟨[], rfl, by simp⟩
  | cancel fuel t =>
    refine ⟨[], ?_, by simp⟩
    rw [Move.apply, (Schedule.cancels_cancel fuel s t).shared]
    rfl
  | clear mode' =>
    refine ⟨[.cleared mode'], congrArg (_ :: ·) (history_setMemo s.shared mode' {}), ?_⟩
    rw [List.mem_singleton]
    rintro ⟨⟩
    exact hmove rfl
  | change registry heads world root records calls ext => exact ⟨[], rfl, by simp⟩

theorem Reached.next {tasks : List Nat} {s : Loop K X} (h : Reached m tasks s) (move : Move K X) :
    ∃ tasks', Reached m tasks' (move.apply m s) := by
  by_cases hmove : ∃ a, move = .request a
  · obtain ⟨a, rfl⟩ := hmove
    exact ⟨_, h.request a⟩
  · exact ⟨tasks, h.other move fun a heq => hmove ⟨a, heq⟩⟩

/--
What is kept, in every state that a hub may come to. Each result is that of a finished request of its
mode that may be kept and has its key, which no request between other languages or for another
location has. It stays, whatever happens, until the results of its mode are dropped, and a result
comes to be kept only when such a request finishes. A request that finds a result gets it in the same
tick, with nothing read and no task started. Results of transpile requests have a text.
-/
theorem kept_of_reached {tasks : List Nat} {s : Loop K X} (h : Reached m tasks s) :
    (∀ mode key p, (s.shared.memo mode).get? key = some p →
      ∃ e, .finished e ∈ s.shared.history ∧ e.request.mode = mode ∧ e.request.allowCache ∧
        e.request.key = key ∧ e.payload = p ∧
        ∀ options start depth r, requestOf mode options start depth = .ok r → r.key = key →
          r.inputLang = e.request.inputLang ∧ r.outputLang = e.request.outputLang ∧
          r.location = e.request.location) ∧
    (∀ (move : Move K X) mode key p, move ≠ .clear mode → (s.shared.memo mode).get? key = some p →
      ((move.apply m s).shared.memo mode).get? key = some p) ∧
    (∀ (move : Move K X) mode key p, (s.shared.memo mode).get? key = none →
      ((move.apply m s).shared.memo mode).get? key = some p →
      ∃ new e, (move.apply m s).shared.history = new ++ s.shared.history ∧ .finished e ∈ new ∧
        e.request.mode = mode ∧ e.request.allowCache ∧ e.request.key = key ∧ e.payload = p) ∧
    (∀ t left parent a k r p,
      requestOf a.mode a.options m.settings.inlineStart (Request.depthBelow parent) = .ok r →
      r.allowCache → (s.shared.memo r.mode).get? r.key = some p →
      ∃ records, s.exec t (request m left parent a k) =
        { s with
          shared := { s.shared with
            records
            history := .finished ⟨{ r with cacheHit := true }, p⟩ :: .asked parent r ::
              s.shared.history } }.exec t (k ⟨{ r with cacheHit := true }, p⟩)) ∧
    (∀ key p, (s.shared.memo .transpile).get? key = some p → ∃ o, p = .output o ∧ o.text ≠ "") ∧
    ∀ t ∈ tasks, ∀ o, s.outcome? t = some (.ok o) →
      ∃ e, o = some e ∧ (e.request.mode = .transpile → ∃ out, e.payload = .output out ∧ out.text ≠ "") := by
  obtain ⟨ps, horderly⟩ := h.orderly
  obtain ⟨hup, hinv, htasks⟩ := horderly
  refine ⟨?_, ?_, ?_, ?_, ?_, ?_⟩
  · intro mode key p hp
    rw [hinv.memo] at hp
    rcases finished_of_replay hp with hbase | ⟨e, he, rfl, hcache, rfl, rfl⟩
    · cases hbase
    · refine ⟨e, he, rfl, hcache, rfl, rfl, ?_⟩
      intro options start depth r hr hkey
      have hmade := made_of_requestOf hr
      exact hmade.named.of_key_eq (hinv.sound _ he) hmade.mode hkey
  · intro move mode key p hmove hp
    obtain ⟨_, hnext⟩ := h.next move
    obtain ⟨_, _, hinv', _⟩ := hnext.orderly
    obtain ⟨new, heq, hnew⟩ := Stock.Orderly.adds ⟨hup, hinv, htasks⟩ hmove
    rw [hinv.memo] at hp
    rw [hinv'.memo, heq]
    exact replay_append_of_some hnew hp
  · intro move mode key p hnone hp
    obtain ⟨_, hnext⟩ := h.next move
    obtain ⟨_, _, hinv', _⟩ := hnext.orderly
    have hmove : move ≠ .clear mode := by
      rintro rfl
      rw [Move.apply, memo_clearMemo, if_pos rfl] at hp
      cases hp
    obtain ⟨new, heq, hnew⟩ := Stock.Orderly.adds ⟨hup, hinv, htasks⟩ hmove
    rw [hinv.memo] at hnone
    rw [hinv'.memo, heq] at hp
    obtain ⟨e, he, hprops⟩ := replay_append_of_none hnew hnone hp
    exact ⟨new, e, heq, he, hprops⟩
  · intro t left parent a k r p hr hcache hp
    exact exec_request_of_kept s t left parent a k hr hcache hp
  · intro key p hp
    exact hinv.kept _ key p hp
  · intro t ht o ho
    obtain ⟨q, hq, hsuits⟩ := htasks t ht
    obtain ⟨q', hq', hfit⟩ := hup.fit (by simp) ho
    obtain rfl := Option.some.inj (hq.symm.trans hq')
    obtain ⟨e, rfl, he⟩ := hsuits o hfit
    refine ⟨e, rfl, ?_⟩
    intro hmode
    rw [hmode] at he
    exact he

def mute : Machine Unit Unit where
  perform := fun _ r => .done r .null

def muteStart : State Unit Unit where
  registry := { interpreters := Table.set {} "x" () }
  ext := ()

def muteAsk : Ask := ⟨.interpret, .ofFields [("source", .str ""), ("lang", .str "x")]⟩

def muteEnd : Loop Unit Unit :=
  [Move.fire 0, .fire 0, .fire 0].foldl (Move.apply mute)
    (Move.apply mute { shared := muteStart } (.request muteAsk))

theorem reached_muteEnd : Reached mute [0] muteEnd := by
  have hnew : Reached mute [] { shared := muteStart } := .new ⟨rfl, rfl, rfl, rfl⟩
  have hasked := hnew.request muteAsk
  have hfirst := hasked.other (.fire 0) (by simp)
  have hsecond := hfirst.other (.fire 0) (by simp)
  exact hsecond.other (.fire 0) (by simp)

def isNull : Payload → Bool
  | .value .null => true
  | _ => false

theorem eq_null_of_isNull {p : Payload} (h : isNull p) : p = .value .null := by
  unfold isNull at h
  split at h
  · rfl
  · cases h

/--
Nothing is a result like any other: it is kept, and stays when the next tick is fired.
-/
theorem null_kept : Reached mute [0] muteEnd ∧
    ∃ key e, .finished e ∈ muteEnd.shared.history ∧ e.request.key = key ∧ e.payload = .value .null ∧
      ((Move.apply mute muteEnd (.fire 0)).shared.memo .interpret).get? key = some (.value .null) := by
  have hkept : ((muteEnd.shared.memo .interpret).get?
      "x//source/d41d8cd98f00b204e9800998ecf8427e").any isNull = true := by decide +kernel
  obtain ⟨p, hget, hnull⟩ := (Option.any_eq_true _ _).mp hkept
  obtain rfl := eq_null_of_isNull hnull
  obtain ⟨hentries, hstay, _⟩ := kept_of_reached reached_muteEnd
  obtain ⟨e, he, _, _, hkey, hpayload, _⟩ := hentries _ _ _ hget
  exact ⟨reached_muteEnd, _, e, he, hkey, hpayload, hstay _ _ _ _ (by simp) hget⟩

end Polyglot.Hub
