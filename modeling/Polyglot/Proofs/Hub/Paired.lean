import Polyglot.Proofs.Hub.Muted

/-!
Requests that differ in the debug flag alone, side by side in two hubs that have nothing but their reports
apart: they take the same steps, as long as what they ask compilers for does not depend on the flag.
-/

namespace Polyglot

open Loop

variable {K X : Type}

def Part.Pair (pair : (Envelope → Envelope → Prop) → Ask → Ask → Prop) (go : Envelope → Envelope → Prop) :
    Part → Part → Prop
  | .ask a, .ask a' => pair go a a'
  | .done, .done => True
  | .failed e, .failed e' => e = e'
  | _, _ => False

/--
Two calls take the same steps, apart from what they report. What they ask for is paired, so that the
answers go together.
-/
inductive Call.Pair (h : Hub.Settings) (pair : (Envelope → Envelope → Prop) → Ask → Ask → Prop)
    (ends : Value → Value → Prop) : Call X → Call X → Prop where
  | answer {v v' compilerOptions executerOptions} (hv : ends v v') :
    Pair h pair ends (.answer v compilerOptions executerOptions) (.answer v' compilerOptions executerOptions)
  | fail {e} : Pair h pair ends (.fail e) (.fail e)
  | pause {next next'} (hnext : Pair h pair ends next next') : Pair h pair ends (.pause next) (.pause next')
  | observe {next next'} (hnext : ∀ view, view.hub = some h → Pair h pair ends (next view) (next' view)) :
    Pair h pair ends (.observe next) (.observe next')
  | effect {e next next'} (hnext : Pair h pair ends next next') :
    Pair h pair ends (.effect e next) (.effect e next')
  | left {r next next'} (hnext : Pair h pair ends next next') : Pair h pair ends (.effect (.log r) next) next'
  | right {r next next'} (hnext : Pair h pair ends next next') : Pair h pair ends next (.effect (.log r) next')
  | ask {go a a' next next'} (ha : pair go a a')
    (hnext : ∀ e e', go e e' → Pair h pair ends (next e) (next' e')) :
    Pair h pair ends (.ask a next) (.ask a' next')
  | join {q parts parts' next next'} (hq : ∀ e e', q e e' → e.payload = e'.payload)
    (hparts : List.Forall₂ (Part.Pair pair q) parts parts')
    (hnext : ∀ results results', List.Forall₂ (Option.Rel q) results results' →
      Pair h pair ends (next results) (next' results')) :
    Pair h pair ends (.join parts next) (.join parts' next')

theorem Call.pair_self {h : Hub.Settings} {pair : (Envelope → Envelope → Prop) → Ask → Ask → Prop}
    (hpair : ∀ a, pair Eq a a) (call : Call X) : call.Pair h pair Eq call := by
  induction call with
  | answer v compilerOptions executerOptions => exact .answer rfl
  | fail e => exact .fail
  | pause next ih => exact .pause ih
  | observe next ih => exact .observe fun view _ => ih view
  | effect e next ih => exact .effect ih
  | ask a next ih =>
    refine .ask (hpair a) ?_
    rintro e _ rfl
    exact ih e
  | join parts next ih =>
    refine .join (fun e e' (he : e = e') => congrArg Envelope.payload he) (List.forall₂_same.mpr ?_) ?_
    · intro part _
      cases part with
      | ask a => exact hpair a
      | done => trivial
      | failed e => rfl
    · intro results results' hresults
      have hsame : results = results' := by
        rw [← List.forall₂_eq_eq_eq]
        refine hresults.imp ?_
        rintro _ _ (h | _)
        · rw [h]
        · rfl
      rw [← hsame]
      exact ih results

namespace Hub

def Told (debug debug' : Bool) (e e' : Envelope) : Prop :=
  e.request.debug = debug ∧ e' = e.debugged debug'

def HandedBack (ends : Value → Value → Prop) (debug debug' : Bool) (e e' : Envelope) : Prop :=
  e.request.debug = debug ∧ e'.request = e.request.debugged debug' ∧
    ∃ v v', e.payload = .value v ∧ e'.payload = .value v' ∧ ends v v'

def Prepared.Pair (debug debug' : Bool) (may : Request → Prop) : Prepared → Prepared → Prop
  | .hit e, .hit e' => Told debug debug' e e'
  | .fresh r, .fresh r' => r.debug = debug ∧ r' = r.debugged debug' ∧ may r
  | _, _ => False

/--
The request with its text that what is asked for comes to, at a depth.
-/
def Comes (h : Settings) (x₀ : State K X) (a : Ask) (depth : Nat) (r : Request) : Prop :=
  ∃ r₀, requestOf a.mode a.options h.inlineStart depth = .ok r₀ ∧ loaded h x₀ r₀ = .ok r

section Blocks

variable {x₀ : State K X} {like : Payload → Payload → Prop} {hlike : ∀ p, like p p}
variable {r : Request} {debug debug' : Bool} {h : Settings} {go : Envelope → Envelope → Prop}

theorem keeps_level {f f' : State K X → State K X}
    (hmute : ∀ x x', x.mute = x'.mute → (f x).mute = (f' x').mute)
    (hstanding : ∀ x, Standing x₀ x → Standing x₀ (f x)) : Likeness.Keeps (Level x₀) f f' :=
  fun x x' hx => ⟨hmute x x' hx.1, hstanding x hx.2⟩

theorem alike_record (debug debug' : Bool) (level : Int) (logger text text' : String) :
    (if debug then Block.change fun s => s.record level logger text else pure () : Block K X Unit).Alike
      (likeness x₀ like hlike)
      (if debug' then Block.change fun s => s.record level logger text' else pure ()) fun _ _ => True := by
  cases debug with
  | true =>
    cases debug' with
    | true => exact .change (keeps_level (fun _ _ => id) fun _ => id)
    | false => exact .left (keeps_level (fun _ _ => id) fun _ => id)
  | false =>
    cases debug' with
    | true => exact .right (keeps_level (fun _ _ => id) fun _ => id)
    | false => exact .pure trivial

theorem alike_trace (debug debug' : Bool) (logger text text' : String) :
    (trace debug logger text : Block K X Unit).Alike (likeness x₀ like hlike) (trace debug' logger text')
      fun _ _ => True :=
  alike_record debug debug' 10 logger _ _

theorem alike_warn (debug debug' : Bool) (logger text text' : String) :
    (warn debug logger text : Block K X Unit).Alike (likeness x₀ like hlike) (warn debug' logger text')
      fun _ _ => True :=
  alike_record debug debug' 30 logger _ _

theorem alike_note (event event' : Event) :
    (Block.change (·.note event) : Block K X Unit).Alike (likeness x₀ like hlike)
      (Block.change (·.note event')) fun _ _ => True :=
  .change (keeps_level (fun _ _ => id) fun _ => id)

theorem alike_readSource (hlocation : r.fromLocation) :
    (readSource h r : Block K X Request).Alike (likeness x₀ like hlike) (readSource h (r.debugged debug'))
      fun r₁ r₁' => loaded h x₀ r = .ok r₁ ∧ r₁' = r₁.debugged debug' := by
  apply (alike_trace _ _ _ _ _).bind
  intro _ _ _
  apply Block.Alike.look
  intro x x' hx
  have hworld : x'.world = x.world := (congrArg State.world hx.1.symm :)
  have hroot : x'.root = x.root := (congrArg State.root hx.1.symm :)
  rw [hworld, hroot, hx.2.1, hx.2.2.1]
  apply (Block.Alike.ofExcept _).bind
  rintro plan _ ⟨hplan, rfl⟩
  apply Block.Alike.pause.bind
  intro _ _ _
  apply Block.Alike.look
  intro y y' hy
  have hworld : y'.world = y.world := (congrArg State.world hy.1.symm :)
  rw [hworld, hy.2.1]
  have hreport (reading : Source.Reading) : Likeness.Keeps (Level x₀)
      (fun s => { s with records := s.records ++ reading.records, calls := s.calls ++ reading.calls })
      (fun s => { s with records := s.records ++ reading.records, calls := s.calls ++ reading.calls }) := by
    refine keeps_level ?_ fun _ hz => hz
    intro z z' hz
    exact (congrArg (fun s : State K X => { s with calls := s.calls ++ reading.calls }) hz :)
  apply (Block.Alike.change (hreport _)).bind
  intro _ _ _
  apply (Block.Alike.ofExcept _).bind
  rintro text _ ⟨htext, rfl⟩
  refine .pure ⟨?_, rfl⟩
  rw [loaded, if_pos hlocation, Source.load, hplan]
  dsimp only
  rw [htext]
  rfl

theorem alike_prepare {a a' : Ask} {parent parent' : Option Request}
    (hparent : Request.depthBelow parent = Request.depthBelow parent')
    (htwin : Twin h.inlineStart debug debug' a a') :
    (prepare h a parent : Block K X Prepared).Alike (likeness x₀ like hlike) (prepare h a' parent')
      (Prepared.Pair debug debug' (Comes h x₀ a (Request.depthBelow parent))) := by
  rw [prepare, prepare, ← hparent]
  rcases htwin (Request.depthBelow parent) with ⟨e, he, he'⟩ | ⟨r, hr, hdebug, hr'⟩
  · rw [he, he']
    have hfail (b b' : Bool) (text : String) : (do
          warn b normalizerLog text
          Block.fail e : Block K X Prepared).Alike (likeness x₀ like hlike) (do
            warn b' normalizerLog text
            Block.fail e) (Prepared.Pair debug debug' (Comes h x₀ a (Request.depthBelow parent))) :=
      (alike_warn _ _ _ _ _).bind fun _ _ _ => .fail e
    -- the failure is reported or not
    dsimp only
    split
    · split
      · exact hfail _ _ _
      · exact hfail _ false _
    · split
      · exact hfail false _ _
      · exact .fail _
  · rw [hr, hr']
    dsimp only
    have hfresh {r₁ : Request} (hr₁ : loaded h x₀ r = .ok r₁) : (do
          traceRequest r₁
          return Prepared.fresh r₁ : Block K X Prepared).Alike (likeness x₀ like hlike) (do
            traceRequest (r₁.debugged debug')
            return Prepared.fresh (r₁.debugged debug'))
        (Prepared.Pair debug debug' (Comes h x₀ a (Request.depthBelow parent))) := by
      obtain ⟨source, rfl⟩ := exists_source_of_loaded hr₁
      apply (alike_trace _ _ _ _ _).bind
      exact fun _ _ _ => .pure ⟨hdebug, rfl, r, hr, hr₁⟩
    apply (alike_note _ _).bind
    intro _ _ _
    apply Block.Alike.look
    intro x x' hx
    have hmemo : (if (r.debugged debug').allowCache then
        (x'.memo (r.debugged debug').mode).get? (r.debugged debug').key else none) =
          if r.allowCache then (x.memo r.mode).get? r.key else none := by
      rw [← memo_of_mute hx.1]
      rfl
    rw [hmemo]
    cases if r.allowCache then (x.memo r.mode).get? r.key else none with
    | some p =>
      apply (alike_trace _ _ _ _ _).bind
      intro _ _ _
      apply (alike_trace _ _ _ _ _).bind
      exact fun _ _ _ => .pure ⟨hdebug, rfl⟩
    | none =>
      dsimp only
      by_cases hlocation : r.fromLocation
      · have hlocation' : (r.debugged debug').fromLocation := hlocation
        rw [if_pos hlocation, if_pos hlocation']
        apply (alike_readSource hlocation).bind
        rintro r₁ _ ⟨hr₁, rfl⟩
        exact hfresh hr₁
      · have hlocation' : ¬ (r.debugged debug').fromLocation := hlocation
        rw [if_neg hlocation, if_neg hlocation']
        exact hfresh (by rw [loaded, if_neg hlocation])

theorem alike_lookUp (r : Request) (debug' : Bool) :
    (lookUp r : Block K X K).Alike (likeness x₀ like hlike) (lookUp (r.debugged debug'))
      fun k k' => compiler? x₀.registry r = some k ∧ k = k' := by
  have hfail (e : Failure) : (do
      warn r.debug dispatcherLog e.message
      Block.fail e : Block K X K).Alike (likeness x₀ like hlike) (do
        warn debug' dispatcherLog e.message
        Block.fail e) fun k k' => compiler? x₀.registry r = some k ∧ k = k' :=
    (alike_warn _ _ _ _ _).bind fun _ _ _ => .fail e
  apply Block.Alike.look
  intro x x' hx
  have hregistry : x'.registry = x.registry := (congrArg State.registry hx.1.symm :)
  rw [hregistry]
  have hmode' : (r.debugged debug').mode = r.mode := rfl
  rw [hmode']
  cases hmode : r.mode with
  | transpile =>
    dsimp only [Request.debugged]
    split
    · next k hk => exact .pure ⟨hx.2.compiler (by rw [compiler?, hmode, hk]), rfl⟩
    · exact hfail _
  | interpret =>
    dsimp only [Request.debugged]
    split
    · next k hk => exact .pure ⟨hx.2.compiler (by rw [compiler?, hmode, hk]), rfl⟩
    · exact hfail _

theorem keep_eq (e : Envelope) : (keep e : Block K X Unit) = Block.look >>= fun x =>
    if e.request.allowCache && !(x.memo e.request.mode).has e.request.key then
      trace e.request.debug dispatcherLog
          ("caching: " ++ e.request.location ++ " as " ++ e.request.key) >>= fun _ =>
        Block.change fun x =>
          x.setMemo e.request.mode ((x.memo e.request.mode).set e.request.key e.payload)
    else pure () := rfl

theorem alike_keep {e e' : Envelope} (he : Told debug debug' e e') :
    (keep e : Block K X Unit).Alike (likeness x₀ like hlike) (keep e') fun _ _ => True := by
  obtain ⟨-, rfl⟩ := he
  rw [keep_eq, keep_eq]
  apply Block.Alike.look
  intro x x' hx
  have hhas : (x'.memo (e.debugged debug').request.mode).has (e.debugged debug').request.key =
      (x.memo e.request.mode).has e.request.key := by
    rw [← memo_of_mute hx.1]
    rfl
  rw [hhas]
  have hcache : (e.debugged debug').request.allowCache = e.request.allowCache := rfl
  rw [hcache]
  split
  · apply (alike_trace _ _ _ _ _).bind
    intro _ _ _
    refine .change (keeps_level ?_ ?_)
    · intro y y' hy
      have hmemo := memo_of_mute hy e.request.mode
      show _ = (y'.setMemo e.request.mode ((y'.memo e.request.mode).set e.request.key e.payload)).mute
      rw [← hmemo]
      exact mute_setMemo hy _ _
    · exact fun y hy => hy.of_eq (by cases e.request.mode <;> rfl) (by cases e.request.mode <;> rfl)
        (by cases e.request.mode <;> rfl)
  · exact .pure trivial

theorem close_rel (hgo : ∀ e e', go e e' → e.payload = e'.payload) :
    (likeness x₀ like hlike).Close (Option.Rel go) := by
  rintro _ _ (h | _)
  · exact congrArg some (hgo _ _ h)
  · rfl

theorem alike_child {block block' : Block K X Envelope}
    (hblock : block.Alike (likeness x₀ like hlike) block' go) (bs : Bonds (Option Envelope)) :
    Loop.Alike (likeness x₀ like hlike) bs (Option.Rel go)
      (block fun e => .finish (.ok (some e))) (block' fun e => .finish (.ok (some e))) :=
  hblock bs _ _ _ fun _ _ _ _ he => .finish (.ok (.some he))

theorem alike_ending {result result' : Except (Stop Failure) (Option Envelope)}
    (hresult : Agrees (Option.Rel go) result result') :
    (ending result : Block K X Envelope).Alike (likeness x₀ like hlike) (ending result') go := by
  cases hresult with
  | error e => exact .stop e
  | ok hv =>
    cases hv with
    | none => exact .stop .cancelled
    | some he => exact .pure he

theorem alike_finish {e e' : Envelope} (he : go e e') :
    (request.finish e : Block K X Envelope).Alike (likeness x₀ like hlike) (request.finish e') go :=
  (alike_note _ _).bind fun _ _ _ => .pure he

section Calls

variable {pair : (Envelope → Envelope → Prop) → Ask → Ask → Prop} {ask ask' : Ask → Block K X Envelope}
variable (hask : ∀ go a a', pair go a a' → (ask a).Alike (likeness x₀ like hlike) (ask' a') go)
include hask

theorem alike_callRoutine {ends : Value → Value → Prop} {call call' : Call X}
    (hcall : call.Pair h pair ends call') (debug' : Bool) (bs : Bonds (Option Envelope)) :
    Loop.Alike (likeness x₀ like hlike) bs (Option.Rel (HandedBack ends r.debug debug'))
      (callRoutine h ask r call) (callRoutine h ask' (r.debugged debug') call') := by
  induction hcall generalizing bs with
  | answer hv => exact .finish (.ok (.some ⟨rfl, rfl, _, _, rfl, rfl, hv⟩))
  | fail => exact .finish (.error _)
  | pause _ ih => exact .pause fun bs' _ => ih bs'
  | observe _ ih =>
    refine .look fun x x' hx => ?_
    rw [← view_of_mute hx.1]
    exact ih _ rfl bs
  | @effect e _ _ _ ih =>
    exact .change (keeps_level (fun x x' hx => mute_apply hx e) fun x hx => hx.apply e) (ih bs)
  | left _ ih => exact .left (keeps_level (fun _ _ hx => hx) fun _ hx => hx) (ih bs)
  | right _ ih => exact .right (keeps_level (fun _ _ hx => hx) fun _ hx => hx) (ih bs)
  | ask ha _ ih => exact hask _ _ _ ha bs _ _ _ fun bs' _ e e' he => ih e e' he bs'
  | @join go parts parts' _ _ hgo hparts _ ih =>
    refine Block.Alike.join (close_rel hgo) ?_ bs _ _ _ fun bs' _ results results' hresults =>
      ih results results' hresults bs'
    rw [List.forall₂_map_left_iff, List.forall₂_map_right_iff]
    refine hparts.imp ?_
    intro part part' hpart bs
    cases part with
    | ask a =>
      cases part' with
      | ask a' => exact alike_child (hask go a a' hpart) bs
      | done => exact hpart.elim
      | failed e => exact hpart.elim
    | done =>
      cases part' with
      | ask a' => exact hpart.elim
      | done => exact .finish (.ok .none)
      | failed e => exact hpart.elim
    | failed e =>
      cases part' with
      | ask a' => exact hpart.elim
      | done => exact hpart.elim
      | failed e' =>
        obtain rfl : e = e' := hpart
        exact .finish (.error _)

theorem alike_called {ends : Value → Value → Prop} {call call' : Call X} (hcall : call.Pair h pair ends call')
    (debug' : Bool) (bs : Bonds (Option Envelope)) :
    Loop.Alike (likeness x₀ like hlike) bs (Option.Rel (HandedBack ends r.debug debug'))
      (.look fun _ => .change (·.note (.called r)) (callRoutine h ask r call))
      (.look fun _ => .change (·.note (.called (r.debugged debug')))
        (callRoutine h ask' (r.debugged debug') call')) :=
  .look fun _ _ _ => .change (keeps_level (fun _ _ hx => hx) fun _ hx => hx)
    (alike_callRoutine hask hcall debug' bs)

theorem alike_compute {m : Machine K X} {k : K}
    (hcall : (m.perform k r).Pair m.settings pair Eq (m.perform k (r.debugged debug'))) :
    (compute m ask k r).Alike (likeness x₀ like hlike) (compute m ask' k (r.debugged debug'))
      (Told r.debug debug') := by
  refine .call (close_rel ?_) (alike_called hask hcall debug') ?_
  · rintro e e' ⟨_, _, v, _, hv, hv', rfl⟩
    rw [hv, hv']
  · intro result result' hresult
    apply (alike_ending hresult).bind
    rintro ⟨request, _⟩ ⟨_, _⟩ ⟨hdebug, rfl, v, _, rfl, rfl, rfl⟩
    apply (Block.Alike.ofExcept _).bind
    rintro payload _ ⟨_, rfl⟩
    exact .pure ⟨hdebug, rfl⟩

end Calls

theorem keeps_inflight (f : Table (Mode × String) Nat → Table (Mode × String) Nat) :
    Likeness.Keeps (Level x₀) (fun x => { x with inflight := f x.inflight })
      (fun x => { x with inflight := f x.inflight }) := by
  refine keeps_level ?_ fun _ hx => hx
  intro x x' hx
  exact (congrArg (fun x : State K X => { x with inflight := f x.inflight }) hx :)

theorem alike_join (t : Nat) (r : Request) (debug' : Bool) :
    (do
      trace r.debug dispatcherLog ("joining in-flight: " ++ r.key)
      let e ← ending (← Block.follow t)
      return ⟨r, e.payload⟩ : Block K X Envelope).Alike (likeness x₀ like hlike) (do
        trace debug' dispatcherLog ("joining in-flight: " ++ r.key)
        let e ← ending (← Block.follow t)
        return ⟨r.debugged debug', e.payload⟩) (Told r.debug debug') := by
  apply (alike_trace _ _ _ _ _).bind
  intro _ _ _
  apply Block.Alike.follow
  intro result result' hresult
  have hnear : Agrees (Option.Rel fun e e' : Envelope => e.payload = e'.payload) result result' := by
    cases hresult with
    | error e => exact .error e
    | @ok v v' hv =>
      refine .ok ?_
      replace hv : v.map (·.payload) = v'.map (·.payload) := hv
      cases v with
      | none =>
        rw [Option.map_eq_none_iff.mp hv.symm]
        exact .none
      | some e =>
        obtain ⟨e', rfl, he'⟩ := Option.map_eq_some_iff.mp hv.symm
        exact .some he'.symm
  apply (alike_ending hnear).bind
  intro e e' he
  refine .pure ⟨rfl, ?_⟩
  rw [← he]
  rfl

theorem alike_share {work work' : Block K X Envelope}
    (hwork : work.Alike (likeness x₀ like hlike) work' (Told r.debug debug')) :
    (share work r).Alike (likeness x₀ like hlike) (share work' (r.debugged debug'))
      (Told r.debug debug') := by
  apply Block.Alike.look
  intro x x' hx
  have hinflight : x'.inflight = x.inflight := (congrArg State.inflight hx.1.symm :)
  rw [hinflight]
  have hkey : ((r.debugged debug').mode, (r.debugged debug').key) = (r.mode, r.key) := rfl
  rw [hkey]
  cases x.inflight.get? (r.mode, r.key) with
  | some t => exact alike_join t r debug'
  | none =>
    refine .callNoted (close_rel ?_) (alike_child hwork) (fun t => keeps_inflight (·.set (r.mode, r.key) t)) ?_
    · rintro e _ ⟨_, rfl⟩
      rfl
    · intro result result' hresult
      exact (Block.Alike.change (keeps_inflight (·.erase (r.mode, r.key)))).bind fun _ _ _ =>
        alike_ending hresult

theorem alike_dispatch {p : (Envelope → Envelope → Prop) → Ask → Ask → Prop}
    {ask ask' : Ask → Block K X Envelope} {m : Machine K X}
    (hask : ∀ go a a', p go a a' → (ask a).Alike (likeness x₀ like hlike) (ask' a') go)
    (hcalls : ∀ k, compiler? x₀.registry r = some k →
      (m.perform k r).Pair m.settings p Eq (m.perform k (r.debugged debug'))) :
    (dispatch m ask r).Alike (likeness x₀ like hlike) (dispatch m ask' (r.debugged debug'))
      (Told r.debug debug') := by
  apply (alike_lookUp r debug').bind
  rintro k _ ⟨hk, rfl⟩
  have hwork := alike_compute hask (hcalls k hk)
  have hkeep (e e' : Envelope) (he : Told r.debug debug' e e') : (do
      keep e
      return e : Block K X Envelope).Alike (likeness x₀ like hlike) (do
        keep e'
        return e') (Told r.debug debug') :=
    (alike_keep he).bind fun _ _ _ => .pure he
  have hcache : (r.debugged debug').allowCache = r.allowCache := rfl
  dsimp only
  rw [hcache]
  split
  · exact (alike_share hwork).bind hkeep
  · exact hwork.bind hkeep

end Blocks

section Requests

variable (m : Machine K X) (x₀ : State K X)

/--
Two things that are asked for come to requests that differ in the debug flag alone, and the compilers that
there are for these make no difference between them.
-/
def Paired (go : Envelope → Envelope → Prop) (a a' : Ask) : Prop :=
  ∃ debug debug', Twin m.settings.inlineStart debug debug' a a' ∧
    (∀ e, e.request.debug = debug → go e (e.debugged debug')) ∧
    ∀ depth r k, Comes m.settings x₀ a depth r → compiler? x₀.registry r = some k →
      m.perform k (r.debugged debug') = m.perform k r

theorem paired_self (a : Ask) : Paired m x₀ Eq a a := by
  obtain ⟨debug, htwin⟩ := twin_self a m.settings.inlineStart
  refine ⟨debug, debug, htwin, ?_, ?_⟩
  · rintro e rfl
    exact e.debugged_self
  · rintro depth r k ⟨r₀, hr₀, hr⟩ _
    rcases htwin depth with ⟨e, he, _⟩ | ⟨r₁, hr₁, hdebug, _⟩
    · rw [hr₀] at he
      cases he
    · obtain rfl := Except.ok.inj (hr₀.symm.trans hr₁)
      obtain ⟨source, rfl⟩ := exists_source_of_loaded hr
      rw [← hdebug]
      rfl

variable {m x₀} {like : Payload → Payload → Prop} {hlike : ∀ p, like p p}

/--
Requests that differ in the debug flag alone take the same steps, if the calls of their compilers do.
-/
theorem alike_request (left : Nat) {a a' : Ask} {parent parent' : Option Request} {debug debug' : Bool}
    (hparent : Request.depthBelow parent = Request.depthBelow parent')
    (htwin : Twin m.settings.inlineStart debug debug' a a')
    (hcalls : ∀ r k, Comes m.settings x₀ a (Request.depthBelow parent) r →
      compiler? x₀.registry r = some k →
        (m.perform k r).Pair m.settings (Paired m x₀) Eq (m.perform k (r.debugged debug'))) :
    (request m left parent a).Alike (likeness x₀ like hlike) (request m left parent' a')
      (Told debug debug') := by
  induction left generalizing a a' parent parent' debug debug' with
  | zero =>
    rw [request, request]
    apply (alike_prepare hparent htwin).bind
    intro prepared prepared' hprepared
    cases prepared with
    | hit e =>
      cases prepared' with
      | hit e' => exact alike_finish hprepared
      | fresh r' => exact hprepared.elim
    | fresh r =>
      cases prepared' with
      | hit e' => exact hprepared.elim
      | fresh r' =>
        obtain ⟨_, rfl, _⟩ := hprepared
        exact .fail _
  | succ left ih =>
    rw [request, request]
    apply (alike_prepare hparent htwin).bind
    intro prepared prepared' hprepared
    cases prepared with
    | hit e =>
      cases prepared' with
      | hit e' => exact alike_finish hprepared
      | fresh r' => exact hprepared.elim
    | fresh r =>
      cases prepared' with
      | hit e' => exact hprepared.elim
      | fresh r' =>
        obtain ⟨rfl, rfl, hr⟩ := hprepared
        refine (alike_dispatch (p := Paired m x₀) ?_ fun k hk => hcalls r k hr hk).bind
          fun e e' he => alike_finish he
        rintro go a a' ⟨_, _, htwin, hgo, hperform⟩
        have hbelow : Request.depthBelow (some r) = Request.depthBelow (some (r.debugged debug')) := rfl
        refine (ih hbelow htwin ?_).weaken ?_
        · intro r k hr hk
          rw [hperform _ r k hr hk]
          exact Call.pair_self (paired_self m x₀) _
        · rintro e _ ⟨hdebug, rfl⟩
          exact hgo e hdebug

theorem alike_of_paired (left : Nat) {a a' : Ask} {parent parent' : Option Request}
    {go : Envelope → Envelope → Prop} (hparent : Request.depthBelow parent = Request.depthBelow parent')
    (h : Paired m x₀ go a a') :
    (request m left parent a).Alike (likeness x₀ like hlike) (request m left parent' a') go := by
  obtain ⟨_, _, htwin, hgo, hperform⟩ := h
  refine (alike_request left hparent htwin ?_).weaken ?_
  · intro r k hr hk
    rw [hperform _ r k hr hk]
    exact Call.pair_self (paired_self m x₀) _
  · rintro e _ ⟨hdebug, rfl⟩
    exact hgo e hdebug

end Requests

end Hub

end Polyglot
