import Polyglot.Proofs.Hub.Terms
import Polyglot.Proofs.Loop.Structured

/-!
Requests leave no tasks behind: whatever compilers do, a request ends when all has ended that it has
started.
-/

namespace Polyglot

open Loop

variable {K X : Type}

def Call.May : Call X → Except (Stop Failure) (Value × Fields × Fields) → Prop
  | answer v compilerOptions executerOptions, o => o = .ok (v, compilerOptions, executerOptions)
  | fail e, o => o = .error (.failed e)
  | pause next, o => next.May o
  | observe next, o => ∃ view, (next view).May o
  | effect _ next, o => next.May o
  | ask _ next, o => (∃ e, (next e).May o) ∨ ∃ e, o = .error e
  | join _ next, o => (∃ results, (next results).May o) ∨ ∃ e, o = .error e

namespace Hub

def Knows (x : State K X) (n : Nat) : Prop := ∀ key u, x.inflight.get? key = some u → u < n

variable {x x' : State K X} {n : Nat}

theorem Knows.frame (h : Knows x n) (hinflight : x'.inflight = x.inflight) : Knows x' n := by
  rw [Knows, hinflight]
  exact h

theorem Knows.mono (h : Knows x n) {n' : Nat} (hn : n ≤ n') : Knows x n' :=
  fun key u hu => Nat.lt_of_lt_of_le (h key u hu) hn

theorem Knows.enter (h : Knows x n) (key : Mode × String) {u : Nat} (hu : u < n) :
    Knows { x with inflight := x.inflight.set key u } n := by
  intro key' u' hu'
  rw [Table.get?_set] at hu'
  split at hu'
  · cases hu'
    exact hu
  · exact h key' u' hu'

theorem Knows.leave (h : Knows x n) (key : Mode × String) :
    Knows { x with inflight := x.inflight.erase key } n := by
  intro key' u hu
  by_cases hkey : key' = key
  · rw [hkey, Table.get?_erase_self] at hu
    cases hu
  · rw [Table.get?_erase_of_ne x.inflight hkey] at hu
    exact h key' u hu

/--
A habit of the requests to a hub: what they see of it, how they change it, and which requests are right
at all. None of that is about what is reported, or what is being worked out for others.
-/
structure Habit (K X : Type) where
  sees : State K X → Prop
  moves : State K X → State K X → Prop
  right : Request → Prop
  report : ∀ {x} inflight records calls history, sees x →
    sees { x with inflight, records, calls, history } ∧ moves x { x with inflight, records, calls, history }
  keep : ∀ {x r} payload, right r → r.allowCache → sees x →
    sees (x.setMemo r.mode ((x.memo r.mode).set r.key payload)) ∧
      moves x (x.setMemo r.mode ((x.memo r.mode).set r.key payload))
  like : ∀ {r} source compilerOptions executerOptions cacheHit, right r →
    right { r with source, compilerOptions, executerOptions, cacheHit }

namespace Habit

def any : Habit K X where
  sees _ := True
  moves _ _ := True
  right _ := True
  report _ _ _ _ _ := ⟨trivial, trivial⟩
  keep _ _ _ _ := ⟨trivial, trivial⟩
  like _ _ _ _ _ := trivial

variable (b : Habit K X)

def frame : Frame (State K X) (Option Envelope) where
  knows x n := Knows x n ∧ b.sees x
  moves := b.moves
  fine o := ∀ e, o = some e → b.right e.request

def Asks (h : Settings) (a : Ask) : Prop :=
  ∀ depth r, requestOf a.mode a.options h.inlineStart depth = .ok r → b.right r

def Allows (f : State K X → State K X) : Prop := ∀ x, b.sees x → b.sees (f x) ∧ b.moves x (f x)

end Habit

end Hub

/--
How a call may end, and with which effect right before.
-/
structure Call.Tail (X : Type) where
  ends : Except (Stop Failure) (Value × Fields × Fields) → Prop
  lasts : Effect X → Call X → Prop

def Call.Tail.any : Tail X := ⟨fun _ => True, fun _ _ => False⟩

def Call.Heeds (b : Hub.Habit K X) (h : Hub.Settings) (tail : Tail X) : Call X → Prop
  | answer v compilerOptions executerOptions => tail.ends (.ok (v, compilerOptions, executerOptions))
  | fail e => tail.ends (.error (.failed e))
  | pause next => next.Heeds b h tail
  | observe next => ∀ view, view.hub = some h → (next view).Heeds b h tail
  | effect e next => tail.lasts e next ∨ b.Allows (·.apply e) ∧ next.Heeds b h tail
  | ask a next => b.Asks h a ∧ (∀ e, tail.ends (.error e)) ∧ ∀ e, (next e).Heeds b h tail
  | join parts next =>
    (∀ a, .ask a ∈ parts → b.Asks h a) ∧ (∀ e, tail.ends (.error e)) ∧
      ∀ results, (next results).Heeds b h tail

/--
A call that has only effects that are allowed, and asks only for what is right, heeds a habit.
-/
theorem Call.AsksOnly.heeds {b : Hub.Habit K X} {h : Hub.Settings} {may : Ask → Prop} {call : Call X}
    {tail : Tail X} (hcall : call.AsksOnly may) (hmay : ∀ a, may a → b.Asks h a)
    (hallows : ∀ e : Effect X, b.Allows (·.apply e)) (hends : ∀ o, call.May o → tail.ends o) :
    call.Heeds b h tail := by
  induction call with
  | answer v compilerOptions executerOptions => exact hends _ rfl
  | fail e => exact hends _ rfl
  | pause next ih => exact ih hcall hends
  | observe next ih => exact fun view _ => ih view (hcall view) fun o ho => hends o ⟨view, ho⟩
  | effect e next ih => exact .inr ⟨hallows e, ih hcall hends⟩
  | ask a next ih =>
    exact ⟨hmay a hcall.1, fun e => hends _ (.inr ⟨e, rfl⟩),
      fun e => ih e (hcall.2 e) fun o ho => hends o (.inl ⟨e, ho⟩)⟩
  | join parts next ih =>
    exact ⟨fun a ha => hmay a (hcall.1 a ha), fun e => hends _ (.inr ⟨e, rfl⟩),
      fun results => ih results (hcall.2 results) fun o ho => hends o (.inl ⟨results, ho⟩)⟩

theorem Call.Heeds.ends {b : Hub.Habit K X} {h : Hub.Settings} {tail : Tail X} {call : Call X}
    (hcall : call.Heeds b h .any) (hends : ∀ o, tail.ends o) : call.Heeds b h tail := by
  induction call with
  | answer v compilerOptions executerOptions => exact hends _
  | fail e => exact hends _
  | pause next ih => exact ih hcall
  | observe next ih => exact fun view hview => ih view (hcall view hview)
  | effect e next ih =>
    obtain ⟨hallows, hnext⟩ := hcall.resolve_left id
    exact .inr ⟨hallows, ih hnext⟩
  | ask a next ih => exact ⟨hcall.1, fun e => hends _, fun e => ih e (hcall.2.2 e)⟩
  | join parts next ih => exact ⟨hcall.1, fun e => hends _, fun results => ih results (hcall.2.2 results)⟩

theorem Call.heeds_any {h : Hub.Settings} {tail : Tail X} (call : Call X)
    (hends : ∀ o, call.May o → tail.ends o) : call.Heeds (Hub.Habit.any : Hub.Habit K X) h tail := by
  have hcall : call.AsksOnly fun _ => True := asksOnly_of_forall (fun _ => trivial) call
  exact hcall.heeds (fun _ _ _ _ _ => trivial) (fun _ _ _ => ⟨trivial, trivial⟩) hends

namespace Hub

def Habit.Binds (b : Habit K X) (m : Machine K X) : Prop :=
  ∀ {x r k}, b.sees x → b.right r → compiler? x.registry r = some k →
    (m.perform k r).Heeds b m.settings .any

theorem Habit.any_binds (m : Machine K X) : (any : Habit K X).Binds m :=
  fun _ _ _ => Call.heeds_any _ fun _ _ => trivial

section Blocks

variable {α : Type} {f : Frame (State K X) (Option Envelope)} {b : Habit K X} {m : Machine K X}
variable {h : Settings} {r : Request} {a : Ask} {parent : Option Request}

def Reports (f : Frame (State K X) (Option Envelope)) : Prop :=
  ∀ n x records calls history, f.Allows n x { x with records, calls, history }

theorem Habit.reports (b : Habit K X) : Reports b.frame := by
  intro n x records calls history hknows
  obtain ⟨hsees, hmoves⟩ := b.report x.inflight records calls history hknows.2
  exact ⟨⟨hknows.1.frame rfl, hsees⟩, hmoves⟩

section Reports

variable (hf : Reports f)
include hf

theorem structured_trace (debug : Bool) (logger text : String) :
    (trace debug logger text : Block K X Unit).Structured f fun _ => True := by
  rw [trace]
  split
  · exact .change fun x n => hf n x _ x.calls x.history
  · exact .pure trivial

theorem structured_warn (debug : Bool) (logger text : String) :
    (warn debug logger text : Block K X Unit).Structured f fun _ => True := by
  rw [warn]
  split
  · exact .change fun x n => hf n x _ x.calls x.history
  · exact .pure trivial

theorem structured_note (event : Event) :
    (Block.change (·.note event) : Block K X Unit).Structured f fun _ => True :=
  .change fun x n => hf n x x.records x.calls _

theorem structured_readSource (h : Settings) (r : Request) :
    (readSource h r : Block K X Request).Structured f fun r' => ∃ source, r' = { r with source } := by
  apply (structured_trace hf _ _ _).bind
  intro _ _
  apply Block.Structured.look
  intro x _ _
  apply (Block.Structured.ofExcept _).bind
  intro plan _
  apply Block.Structured.pause.bind
  intro _ _
  apply Block.Structured.look
  intro x' _ _
  apply Block.Structured.bind (Block.Structured.change fun x n => hf n x _ _ x.history)
  exact fun _ _ => (Block.Structured.ofExcept _).bind fun _ _ => .pure ⟨_, rfl⟩

def Readies (f : Frame (State K X) (Option Envelope)) (h : Settings) (a : Ask) (parent : Option Request) :
    Prepared → Prop
  | .hit e => ∃ r x n payload,
    requestOf a.mode a.options h.inlineStart (Request.depthBelow parent) = .ok r ∧ r.allowCache ∧
      f.knows x n ∧ (x.memo r.mode).get? r.key = some payload ∧ e = ⟨{ r with cacheHit := true }, payload⟩
  | .fresh r' => ∃ r source,
    requestOf a.mode a.options h.inlineStart (Request.depthBelow parent) = .ok r ∧ r' = { r with source }

theorem structured_prepare (h : Settings) (a : Ask) (parent : Option Request) :
    (prepare h a parent : Block K X Prepared).Structured f (Readies f h a parent) := by
  rw [prepare]
  split
  · split
    · exact (structured_warn hf _ _ _).bind fun _ _ => .fail _
    · exact .fail _
  · next r hr =>
    have hfresh (r' : Request) (hr' : ∃ source, r' = { r with source }) : (do
        traceRequest r'
        return Prepared.fresh r' : Block K X Prepared).Structured f (Readies f h a parent) := by
      obtain ⟨source, rfl⟩ := hr'
      exact (structured_trace hf _ _ _).bind fun _ _ => .pure ⟨r, source, hr, rfl⟩
    apply (structured_note hf _).bind
    intro _ _
    apply Block.Structured.look
    intro x n hx
    split
    · next payload hmemo =>
      split at hmemo
      · next hcache =>
        apply (structured_trace hf _ _ _).bind
        intro _ _
        apply (structured_trace hf _ _ _).bind
        exact fun _ _ => .pure ⟨r, x, n, payload, hr, hcache, hx, hmemo, rfl⟩
      · cases hmemo
    · split
      · exact (structured_readSource hf h r).bind hfresh
      · exact hfresh r ⟨r.source, rfl⟩

theorem structured_lookUp (r : Request) : (lookUp r : Block K X K).Structured f fun k =>
    ∃ x n, f.knows x n ∧ compiler? x.registry r = some k := by
  have hfail (e : Failure) : (do
      warn r.debug dispatcherLog e.message
      Block.fail e : Block K X K).Structured f fun k =>
        ∃ x n, f.knows x n ∧ compiler? x.registry r = some k :=
    (structured_warn hf _ _ _).bind fun _ _ => .fail _
  apply Block.Structured.look
  intro x n hx
  cases hmode : r.mode with
  | transpile =>
    dsimp only
    split
    · next k hk => exact .pure ⟨x, n, hx, by rw [compiler?, hmode, hk]⟩
    · exact hfail _
  | interpret =>
    dsimp only
    split
    · next k hk => exact .pure ⟨x, n, hx, by rw [compiler?, hmode, hk]⟩
    · exact hfail _

theorem structured_finish (e : Envelope) : (request.finish e : Block K X Envelope).Structured f (· = e) :=
  (structured_note hf _).bind fun _ _ => .pure rfl

end Reports

theorem structured_ending (r : Except (Stop Failure) (Option Envelope)) :
    (ending r : Block K X Envelope).Structured f fun e => r = .ok (some e) := by
  rcases r with e | _ | e
  · exact .stop e
  · exact .stop .cancelled
  · exact .pure rfl

theorem structured_keep {e : Envelope} (he : b.right e.request) :
    (keep e : Block K X Unit).Structured b.frame fun _ => True := by
  apply Block.Structured.look
  intro x n _
  split
  · next hcache =>
    have hcache : e.request.allowCache := (Bool.and_eq_true_iff.mp hcache).1
    apply (structured_trace b.reports _ _ _).bind
    intro _ _
    apply Block.Structured.change
    rintro x n ⟨hknows, hsees⟩
    obtain ⟨hsees', hmoves⟩ := b.keep e.payload he hcache hsees
    exact ⟨⟨hknows.frame (inflight_setMemo x _ _), hsees'⟩, hmoves⟩
  · exact .pure trivial

abbrev Rightly (b : Habit K X) (block : Block K X Envelope) : Prop :=
  block.Structured b.frame fun e => b.right e.request

theorem structured_child {block : Block K X Envelope} (hblock : Rightly b block) (n : Nat) :
    (block fun e => .finish (.ok (some e))).Structured b.frame b.frame.close n [] := by
  apply hblock b.frame.close n _ fun _ => b.frame.fine_error _
  intro e he _ _
  apply Routine.Structured.finish
  rintro _ ⟨⟩ _ ⟨⟩
  exact he

theorem structured_share {work : Block K X Envelope} (hwork : Rightly b work) (hr : b.right r) :
    Rightly b (share work r) := by
  intro close n k herror hk
  apply Routine.Structured.look
  intro x hx
  dsimp only
  cases hentry : x.inflight.get? (r.mode, r.key) with
  | some u =>
    apply structured_trace b.reports _ _ _ close n _ herror
    intro _ _ n' hn'
    refine .follow (Nat.lt_of_lt_of_le (hx.1 _ u hentry) hn') ?_
    intro n'' hn'' result
    have hjoined : Rightly b (ending result >>= fun e => pure ⟨r, e.payload⟩) :=
      (structured_ending result).bind fun _ _ => .pure hr
    apply hjoined close n'' k herror
    exact fun e he n' h => hk e he n' (by omega)
  | none =>
    refine .spawn (fun n' _ => structured_child hwork n') (.change ?_ (.await ?_))
    · rintro x ⟨hknows, hsees⟩
      obtain ⟨hsees', hmoves⟩ := b.report (x.inflight.set (r.mode, r.key) n) x.records x.calls x.history hsees
      exact ⟨⟨hknows.enter _ (Nat.lt_succ_self n), hsees'⟩, hmoves⟩
    · intro n' hn' result hresult
      refine .change ?_ ?_
      · rintro x ⟨hknows, hsees⟩
        obtain ⟨hsees', hmoves⟩ := b.report (x.inflight.erase (r.mode, r.key)) x.records x.calls x.history
          hsees
        exact ⟨⟨hknows.leave _, hsees'⟩, hmoves⟩
      · apply structured_ending result close n' k herror
        rintro e rfl n'' hn''
        exact hk e (hresult _ rfl e rfl) n'' (by omega)

end Blocks

section Requests

variable {m : Machine K X} {b : Habit K X} {h : Settings} {ask : Ask → Block K X Envelope} {r : Request}
variable (hask : ∀ a, b.Asks h a → Rightly b (ask a))
include hask

theorem structured_part (part : Part) (n : Nat) : (∀ a, part = .ask a → b.Asks h a) →
    (match part with
      | .ask a => ask a fun e => .finish (.ok (some e))
      | .done => .finish (.ok none)
      | .failed e => .finish (.error (.failed e)) : Routine K X).Structured b.frame b.frame.close n [] := by
  intro hpart
  cases part with
  | ask a => exact structured_child (hask a (hpart a rfl)) n
  | done =>
    apply Routine.Structured.finish
    rintro _ ⟨⟩ _ ⟨⟩
  | failed e => exact .finish (b.frame.fine_error _)

/--
The task of a compiler that heeds a habit goes on till the last effect of its call, or to the end.
-/
theorem structured_callRoutine {close : Close (State K X) Failure (Option Envelope)} {tail : Call.Tail X}
    {call : Call X} (hcall : call.Heeds b h tail) (hends : ∀ o, tail.ends o → close.ends (handed r o))
    (hexits : ∀ e next, tail.lasts e next → close.exits (callRoutine h ask r (.effect e next))) (n : Nat) :
    (callRoutine h ask r call).Structured b.frame close n [] := by
  induction call generalizing n with
  | answer v compilerOptions executerOptions => exact .finish (hends _ hcall)
  | fail e => exact .finish (hends _ hcall)
  | pause next ih => exact .pause fun n' _ => ih hcall n'
  | observe next ih => exact .look fun x _ => ih _ (hcall _ rfl) n
  | effect e next ih =>
    rcases hcall with hlast | ⟨hallows, hcall⟩
    · exact .exit (hexits e next hlast)
    · refine .change ?_ (ih hcall n)
      rintro x ⟨hknows, hsees⟩
      refine ⟨⟨?_, (hallows x hsees).1⟩, (hallows x hsees).2⟩
      cases e <;> exact hknows.frame rfl
  | ask a next ih =>
    obtain ⟨ha, herror, hnext⟩ := hcall
    apply hask a ha close n _ fun e => hends (.error e) (herror e)
    exact fun e _ n' _ => ih e (hnext e) n'
  | join parts next ih =>
    obtain ⟨hparts, herror, hnext⟩ := hcall
    apply Block.Structured.join _ close n _ fun e => hends (.error e) (herror e)
    · exact fun results _ n' _ => ih results (hnext results) n'
    · intro routine hroutine n
      obtain ⟨part, hpart, rfl⟩ := List.mem_map.mp hroutine
      apply structured_part hask part n
      rintro a rfl
      exact hparts a hpart

end Requests

section Requests

variable {m : Machine K X} {b : Habit K X} {ask : Ask → Block K X Envelope} {r : Request}

theorem handed_right (hr : b.right r) (o : Except (Stop Failure) (Value × Fields × Fields)) :
    b.frame.Fine (handed r o) := by
  cases o with
  | error e => exact b.frame.fine_error e
  | ok o =>
    rintro _ ⟨⟩ _ ⟨⟩
    exact b.like r.source _ _ r.cacheHit hr

theorem structured_compute (hask : ∀ a, b.Asks m.settings a → Rightly b (ask a)) {k : K} (hr : b.right r)
    (hcall : (m.perform k r).Heeds b m.settings .any) : Rightly b (compute m ask k r) := by
  apply Block.Structured.call
  · intro n
    refine .look fun x _ => .change (fun x => b.reports n x x.records x.calls _) ?_
    exact structured_callRoutine hask hcall (fun o _ => handed_right hr o) (by rintro _ _ ⟨⟩) n
  · intro result hresult
    apply (structured_ending result).bind
    rintro e rfl
    have he := hresult _ rfl e rfl
    split
    · exact (Block.Structured.ofExcept _).bind fun _ _ => .pure he
    · exact .pure he

theorem structured_dispatch (hb : b.Binds m) (hask : ∀ a, b.Asks m.settings a → Rightly b (ask a))
    (hr : b.right r) : Rightly b (dispatch m ask r) := by
  have hkeep (e : Envelope) (he : b.right e.request) : Rightly b (do
      keep e
      return e : Block K X Envelope) :=
    (structured_keep he).bind fun _ _ => .pure he
  apply (structured_lookUp b.reports r).bind
  rintro k ⟨x, n, hknows, hk⟩
  have hcall := hb hknows.2 hr hk
  dsimp only
  split
  · exact (structured_share (structured_compute hask hr hcall) hr).bind hkeep
  · exact (structured_compute hask hr hcall).bind hkeep

theorem rightly_finish {e : Envelope} (he : b.right e.request) : Rightly b (request.finish e) :=
  Block.Structured.weaken (structured_finish b.reports e) (by rintro _ rfl; exact he)

theorem right_of_readies {f : Frame (State K X) (Option Envelope)} {parent : Option Request} {a : Ask}
    (ha : b.Asks m.settings a) {prepared : Prepared} (h : Readies f m.settings a parent prepared) :
    match prepared with
    | .hit e => b.right e.request
    | .fresh r => b.right r := by
  cases prepared with
  | hit e =>
    obtain ⟨r, _, _, _, hr, _, _, _, rfl⟩ := h
    exact b.like r.source r.compilerOptions r.executerOptions true (ha _ r hr)
  | fresh r =>
    obtain ⟨r, source, hr, rfl⟩ := h
    exact b.like source r.compilerOptions r.executerOptions r.cacheHit (ha _ r hr)

/--
A request that is right leaves no tasks behind and keeps to the habit, if the compilers of the hub do.
-/
theorem structured_request (hb : b.Binds m) (left : Nat) (parent : Option Request) {a : Ask}
    (ha : b.Asks m.settings a) : Rightly b (request m left parent a) := by
  induction left generalizing parent a with
  | zero =>
    rw [request]
    apply (structured_prepare b.reports _ a parent).bind
    intro prepared hprepared
    cases prepared with
    | hit e => exact rightly_finish (right_of_readies ha hprepared)
    | fresh r => exact .fail _
  | succ left ih =>
    rw [request]
    apply (structured_prepare b.reports _ a parent).bind
    intro prepared hprepared
    cases prepared with
    | hit e => exact rightly_finish (right_of_readies ha hprepared)
    | fresh r =>
      have hr : b.right r := right_of_readies ha hprepared
      exact (structured_dispatch hb (fun a ha => ih (some r) ha) hr).bind fun _ he => rightly_finish he

end Requests

end Hub

end Polyglot
