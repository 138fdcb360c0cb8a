import Polyglot.Proofs.Hub.Paired

/-!
Requests side by side whose compilers hand back different results: nothing but the request itself goes on
after its compiler has ended, so that the results are kept and passed on, and never looked at.
-/

namespace Polyglot.Hub

open Loop

variable {K X : Type}

/--
Two answers to requests that differ in the debug flag alone, with results that go together.
-/
def Seen (like : Payload → Payload → Prop) (debug debug' : Bool) (e e' : Envelope) : Prop :=
  e.request.debug = debug ∧ e'.request = e.request.debugged debug' ∧ like e.payload e'.payload

theorem Told.seen {like : Payload → Payload → Prop} (hlike : ∀ p, like p p) {debug debug' : Bool}
    {e e' : Envelope} (h : Told debug debug' e e') : Seen like debug debug' e e' := by
  obtain ⟨hdebug, rfl⟩ := h
  exact ⟨hdebug, rfl, hlike _⟩

/--
How the results of compilers may go together.
-/
def Yields (like : Payload → Payload → Prop) (ends : Value → Value → Prop) (mode : Mode) : Prop :=
  ∀ v v', ends v v' → (∃ e, Payload.ofValue mode v = .error e ∧ Payload.ofValue mode v' = .error e) ∨
    ∃ p p', Payload.ofValue mode v = .ok p ∧ Payload.ofValue mode v' = .ok p' ∧ like p p'

section Blocks

variable {x₀ : State K X} {like : Payload → Payload → Prop} {hlike : ∀ p, like p p}
variable {r : Request} {debug debug' : Bool} {go go₀ : Envelope → Envelope → Prop}

theorem not_close_seen (hfar : ∃ p p', like p p' ∧ p ≠ p') (debug debug' : Bool) :
    ¬ (likeness x₀ like hlike).Close (Option.Rel (Seen like debug debug')) := by
  obtain ⟨p, p', hpp', hne⟩ := hfar
  intro hclose
  let r : Request := { mode := .transpile, location := "", inputLang := "", debug }
  have hnear := hclose (some ⟨r, p⟩) (some ⟨r.debugged debug', p'⟩) (.some ⟨rfl, rfl, hpp'⟩)
  exact hne (Option.some.inj hnear)

theorem keeps_abreast {f f' : State K X → State K X} (hrest : ∀ x x' : State K X,
      { x.mute with transpiled := {}, interpreted := {} } =
        { x'.mute with transpiled := {}, interpreted := {} } →
      { (f x).mute with transpiled := {}, interpreted := {} } =
        { (f' x').mute with transpiled := {}, interpreted := {} })
    (hmemo : ∀ x x' : State K X, (∀ mode, MemoLike like (x.memo mode) (x'.memo mode)) →
      ∀ mode, MemoLike like ((f x).memo mode) ((f' x').memo mode)) :
    Likeness.Keeps (Abreast like) f f' :=
  fun x x' hx => ⟨hrest x x' hx.rest, hmemo x x' hx.memo⟩

theorem keeps_report {f f' : State K X → State K X} (hf : ∀ x, (f x).mute = x.mute)
    (hf' : ∀ x, (f' x).mute = x.mute) : Likeness.Keeps (Abreast like) f f' := by
  refine keeps_abreast ?_ ?_
  · intro x x' hx
    rw [hf, hf', hx]
  · intro x x' hx mode
    rw [memo_of_mute (hf x), memo_of_mute (hf' x')]
    exact hx mode

theorem straight_trace (debug debug' : Bool) (logger text text' : String) :
    (trace debug logger text : Block K X Unit).Straight (likeness x₀ like hlike) (trace debug' logger text')
      fun _ _ => True := by
  cases debug with
  | true =>
    cases debug' with
    | true => exact .change (keeps_report (fun _ => rfl) fun _ => rfl)
    | false => exact .left (keeps_report (fun _ => rfl) fun _ => rfl)
  | false =>
    cases debug' with
    | true => exact .right (keeps_report (fun _ => rfl) fun _ => rfl)
    | false => exact .pure trivial

theorem straight_ending {result result' : Except (Stop Failure) (Option Envelope)}
    (hresult : Agrees (Option.Rel go) result result') :
    (ending result : Block K X Envelope).Straight (likeness x₀ like hlike) (ending result') go := by
  cases hresult with
  | error e => exact .stop e
  | ok hv =>
    cases hv with
    | none => exact .stop .cancelled
    | some he => exact .pure he

theorem straight_finish {e e' : Envelope} (he : go e e') :
    (request.finish e : Block K X Envelope).Straight (likeness x₀ like hlike) (request.finish e') go :=
  (Block.Straight.change (keeps_report (mute_note · _) (mute_note · _))).bind fun _ _ _ => .pure he

theorem memo_setMemo_eq (x : State K X) (mode mode' : Mode) (memo : Memo Payload) :
    (x.setMemo mode memo).memo mode' = if mode' = mode then memo else x.memo mode' := by
  cases mode <;> cases mode' <;> rfl

theorem straight_keep {e e' : Envelope} (he : Seen like debug debug' e e') :
    (keep e : Block K X Unit).Straight (likeness x₀ like hlike) (keep e') fun _ _ => True := by
  obtain ⟨request, payload⟩ := e
  obtain ⟨_, payload'⟩ := e'
  obtain ⟨_, rfl, hpayload⟩ := he
  rw [keep_eq, keep_eq]
  apply Block.Straight.look
  intro x x' hx
  have hhas : (x'.memo (request.debugged debug').mode).has (request.debugged debug').key =
      (x.memo request.mode).has request.key := ((hx.memo request.mode).has request.key).symm
  have hcache : (request.debugged debug').allowCache = request.allowCache := rfl
  dsimp only
  rw [hhas, hcache]
  split
  · apply (straight_trace _ _ _ _ _).bind
    intro _ _ _
    refine .change (keeps_abreast ?_ ?_)
    · intro y y' hy
      have hset (y : State K X) (memo : Memo Payload) :
          { (y.setMemo request.mode memo).mute with transpiled := {}, interpreted := {} } =
            { y.mute with transpiled := {}, interpreted := {} } := by
        cases request.mode <;> rfl
      exact (hset y _).trans (hy.trans (hset y' _).symm)
    · intro y y' hy mode
      rw [memo_setMemo_eq, memo_setMemo_eq]
      have hmode : (request.debugged debug').mode = request.mode := rfl
      rw [hmode]
      split
      · exact (hy request.mode).set request.key hpayload
      · exact hy mode
  · exact .pure trivial

theorem leads_compute {pair : (Envelope → Envelope → Prop) → Ask → Ask → Prop}
    {ask ask' : Ask → Block K X Envelope} {m : Machine K X} {k : K} {ends : Value → Value → Prop}
    (hask : ∀ go a a', pair go a a' → (ask a).Alike (likeness x₀ like hlike) (ask' a') go)
    (hcall : (m.perform k r).Pair m.settings pair ends (m.perform k (r.debugged debug')))
    (hends : Yields like ends r.mode) :
    (compute m ask k r).Leads (likeness x₀ like hlike) (compute m ask' k (r.debugged debug')) go₀
      (Seen like r.debug debug') := by
  refine .call (alike_called hask hcall debug') ?_
  intro result result' hresult
  apply (straight_ending hresult).bind
  rintro ⟨request, _⟩ ⟨_, _⟩ ⟨hdebug, rfl, v, v', rfl, rfl, hv⟩
  have hpayload : (Block.ofExcept ((Payload.ofValue r.mode v).mapError .contract) :
      Block K X Payload).Straight (likeness x₀ like hlike)
        (Block.ofExcept ((Payload.ofValue r.mode v').mapError .contract)) like := by
    apply Block.Straight.ofExcept
    rcases hends v v' hv with ⟨e, he, he'⟩ | ⟨p, p', hp, hp', hlike⟩
    · rw [he, he']
      exact .inl ⟨_, rfl, rfl⟩
    · rw [hp, hp']
      exact .inr ⟨_, _, rfl, rfl, hlike⟩
  exact hpayload.bind fun p p' hp => .pure ⟨hdebug, rfl, hp⟩

theorem leads_shared (hfar : ∃ p p', like p p' ∧ p ≠ p') {work work' : Block K X Envelope}
    (hwork : work.Leads (likeness x₀ like hlike) work' (Told r.debug debug') (Seen like r.debug debug')) :
    (share work r).Leads (likeness x₀ like hlike) (share work' (r.debugged debug')) (Told r.debug debug')
      (Seen like r.debug debug') := by
  apply Block.Leads.look
  intro x x' hx
  have hinflight : x'.inflight = x.inflight := (congrArg State.inflight hx.1.symm :)
  rw [hinflight]
  have hkey : ((r.debugged debug').mode, (r.debugged debug').key) = (r.mode, r.key) := rfl
  rw [hkey]
  cases x.inflight.get? (r.mode, r.key) with
  | some t => exact .of_alike (alike_join t r debug')
  | none =>
    have hchild (bs : Bonds (Option Envelope)) : Loop.Alike (likeness x₀ like hlike) bs
        (Option.Rel (Seen like r.debug debug')) (work fun e => .finish (.ok (some e)))
        (work' fun e => .finish (.ok (some e))) :=
      hwork bs _ _ _ (not_close_seen hfar _ _) (fun _ _ _ _ he => .finish (.ok (.some (he.seen hlike))))
        fun _ _ he => .finish (.ok (.some he))
    refine .callNoted hchild (fun t => keeps_inflight (·.set (r.mode, r.key) t)) ?_
    intro result result' hresult
    refine (Block.Straight.change (keeps_abreast ?_ ?_)).bind fun _ _ _ => straight_ending hresult
    · intro y y' hy
      exact (congrArg (fun x : State K X => { x with inflight := x.inflight.erase (r.mode, r.key) }) hy :)
    · intro y y' hy mode
      have herase (y : State K X) :
          State.memo { y with inflight := y.inflight.erase (r.mode, r.key) } mode = y.memo mode := by
        cases mode <;> rfl
      have hmemo := hy mode
      rw [← herase y, ← herase y'] at hmemo
      exact hmemo

theorem leads_dispatch (hfar : ∃ p p', like p p' ∧ p ≠ p')
    {pair : (Envelope → Envelope → Prop) → Ask → Ask → Prop} {ask ask' : Ask → Block K X Envelope}
    {m : Machine K X} {ends : Value → Value → Prop}
    (hask : ∀ go a a', pair go a a' → (ask a).Alike (likeness x₀ like hlike) (ask' a') go)
    (hcalls : ∀ k, compiler? x₀.registry r = some k →
      (m.perform k r).Pair m.settings pair ends (m.perform k (r.debugged debug')))
    (hends : Yields like ends r.mode) :
    (dispatch m ask r).Leads (likeness x₀ like hlike) (dispatch m ask' (r.debugged debug'))
      (Told r.debug debug') (Seen like r.debug debug') := by
  refine .after (alike_lookUp r debug') ?_
  rintro k _ ⟨hk, rfl⟩
  have hwork : (compute m ask k r).Leads (likeness x₀ like hlike) (compute m ask' k (r.debugged debug'))
      (Told r.debug debug') (Seen like r.debug debug') := leads_compute hask (hcalls k hk) hends
  have hkeep (e e' : Envelope) (he : Told r.debug debug' e e') : (do
      keep e
      return e : Block K X Envelope).Alike (likeness x₀ like hlike) (do
        keep e'
        return e') (Told r.debug debug') :=
    (alike_keep he).bind fun _ _ _ => .pure he
  have hkeep' (e e' : Envelope) (he : Seen like r.debug debug' e e') : (do
      keep e
      return e : Block K X Envelope).Straight (likeness x₀ like hlike) (do
        keep e'
        return e') (Seen like r.debug debug') :=
    (straight_keep he).bind fun _ _ _ => .pure he
  have hcache : (r.debugged debug').allowCache = r.allowCache := rfl
  dsimp only
  rw [hcache]
  split
  · exact (leads_shared hfar hwork).bind hkeep hkeep'
  · exact hwork.bind hkeep hkeep'

theorem leads_request {m : Machine K X} (left : Nat) {a a' : Ask} {parent : Option Request}
    {ends : Value → Value → Prop} (hfar : ∃ p p', like p p' ∧ p ≠ p')
    (htwin : Twin m.settings.inlineStart debug debug' a a')
    (hcalls : ∀ r k, Comes m.settings x₀ a (Request.depthBelow parent) r →
      compiler? x₀.registry r = some k →
        (m.perform k r).Pair m.settings (Paired m x₀) ends (m.perform k (r.debugged debug')))
    (hends : Yields like ends a.mode) :
    (request m left parent a).Leads (likeness x₀ like hlike) (request m left parent a')
      (Told debug debug') (Seen like debug debug') := by
  cases left with
  | zero =>
    rw [request, request]
    refine .of_alike ((alike_prepare rfl htwin).bind ?_)
    intro prepared prepared' hprepared
    cases prepared with
    | hit e =>
      cases prepared' with
      | hit e' => exact alike_finish hprepared
      | fresh r' => exact hprepared.elim
    | fresh r =>
      cases prepared' with
      | hit e' => exact hprepared.elim
      | fresh r' =>
        obtain ⟨_, rfl, _⟩ := hprepared
        exact .fail _
  | succ left =>
    rw [request, request]
    refine .after (alike_prepare rfl htwin) ?_
    intro prepared prepared' hprepared
    cases prepared with
    | hit e =>
      cases prepared' with
      | hit e' => exact .of_alike (alike_finish hprepared)
      | fresh r' => exact hprepared.elim
    | fresh r =>
      cases prepared' with
      | hit e' => exact hprepared.elim
      | fresh r' =>
        obtain ⟨rfl, rfl, hr⟩ := hprepared
        have hmode : r.mode = a.mode := by
          obtain ⟨r₀, hr₀, hr⟩ := hr
          obtain ⟨source, rfl⟩ := exists_source_of_loaded hr
          exact (made_of_requestOf hr₀).mode
        have hbelow : Request.depthBelow (some r) = Request.depthBelow (some (r.debugged debug')) := rfl
        refine (leads_dispatch hfar (fun go a a' ha => alike_of_paired left hbelow ha)
          (fun k hk => hcalls r k hr hk) (hmode ▸ hends)).bind
          (fun e e' he => alike_finish he) fun e e' he => straight_finish he

theorem alike_requestRoutine {m : Machine K X} {a a' : Ask} {ends : Value → Value → Prop}
    (hfar : ∃ p p', like p p' ∧ p ≠ p') (htwin : Twin m.settings.inlineStart debug debug' a a')
    (hcalls : ∀ r k, Comes m.settings x₀ a 0 r → compiler? x₀.registry r = some k →
      (m.perform k r).Pair m.settings (Paired m x₀) ends (m.perform k (r.debugged debug')))
    (hends : Yields like ends a.mode) (bs : Bonds (Option Envelope)) :
    Loop.Alike (likeness x₀ like hlike) bs (Option.Rel (Seen like debug debug')) (requestRoutine m a)
      (requestRoutine m a') := by
  have hleads : (request m (levels m.settings) none a).Leads (likeness x₀ like hlike)
      (request m (levels m.settings) none a') (Told debug debug') (Seen like debug debug') :=
    leads_request (levels m.settings) hfar htwin hcalls hends
  exact hleads bs _ _ _ (not_close_seen hfar debug debug')
    (fun _ _ _ _ he => .finish (.ok (.some (he.seen hlike)))) fun _ _ he => .finish (.ok (.some he))

end Blocks

end Polyglot.Hub
