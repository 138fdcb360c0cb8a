import Polyglot.Proofs.Hub.History
import Polyglot.Proofs.Hub.Terms
import Polyglot.Proofs.Loop.Solo

/-!
Requests to a hub whose compilers are functions of their requests, one request at a time: what comes of
a request can be told from the state in which it is made.
-/

namespace Polyglot

open Loop

variable {K X : Type}

/--
What a compiler may go by that is a function of its request.
-/
structure Matter where
  source : Option String
  location : String
  inputLang : String
  outputLang : Option String
  debug : Bool
  compilerOptions : Fields
  executerOptions : Fields

def Request.matter (r : Request) : Matter :=
  ⟨r.source, r.location, r.inputLang, r.outputLang, r.debug, r.compilerOptions, r.executerOptions⟩

def Call.plain? : Call X → Option (Except Failure Value)
  | answer v _ _ => some (.ok v)
  | fail e => some (.error e)
  | pause next => next.plain?
  | _ => none

namespace Hub

/--
The compilers of a hub are functions of their requests.
-/
def Machine.Plain (m : Machine K X) (f : K → Matter → Except Failure Value) : Prop :=
  ∀ k r, (m.perform k r).plain? = some (f k r.matter)

def loaded (h : Settings) (x : State K X) (r : Request) : Except Failure Request :=
  if r.fromLocation then
    (Source.load h.sources x.world x.root (.str r.location)).outcome.map fun loaded =>
      { r with source := some loaded.text }
  else .ok r

def missing (r : Request) : Failure :=
  match r.mode with
  | .transpile => .noTranspiler r.inputLang (r.outputLang.getD "")
  | .interpret => .noInterpreter r.inputLang

def computed (f : K → Matter → Except Failure Value) (k : K) (r : Request) : Except Failure Payload := do
  let v ← f k r.matter
  (Payload.ofValue r.mode v).mapError .contract

def dispatched (f : K → Matter → Except Failure Value) (x : State K X) (r : Request) :
    Except Failure Payload :=
  match compiler? x.registry r with
  | none => .error (missing r)
  | some k => computed f k r

def worked (m : Machine K X) (f : K → Matter → Except Failure Value) (left : Nat) (x : State K X)
    (r : Request) : Except Failure Payload := do
  let r ← loaded m.settings x r
  if left = 0 then .error (.tooDeep r.depth m.settings.maxDepth r.location) else dispatched f x r

def answered (m : Machine K X) (f : K → Matter → Except Failure Value) (left : Nat) (x : State K X)
    (r : Request) : Except Failure Payload :=
  match if r.allowCache then (x.memo r.mode).get? r.key else none with
  | some p => .ok p
  | none => worked m f left x r

/--
What requests find in a hub is what they found before, but for the results that are kept.
-/
structure Around (x x' : State K X) : Prop where
  world : x'.world = x.world
  root : x'.root = x.root
  registry : x'.registry = x.registry
  inflight : x'.inflight = x.inflight

/--
Nothing that requests find in a hub has changed.
-/
structure Unchanged (x x' : State K X) : Prop extends Around x x' where
  memo : ∀ mode, x'.memo mode = x.memo mode

/--
An envelope that answers a request: it says for which key it may be kept.
-/
structure Answers (r : Request) (e : Envelope) : Prop where
  mode : e.request.mode = r.mode
  key : e.request.key = r.key
  allowCache : e.request.allowCache = r.allowCache

/--
What is told of a request, when that is known which should come of it.
-/
def Tells (r : Request) (answer : Except Failure Payload) (o : Except (Stop Failure) Envelope) : Prop :=
  (∃ e, answer = .ok e.payload ∧ o = .ok e ∧ Answers r e) ∨
    ∃ e, answer = .error e ∧ o = .error (.failed e)

theorem Around.refl (x : State K X) : Around x x := ⟨rfl, rfl, rfl, rfl⟩

theorem Around.trans {x y z : State K X} (h : Around x y) (h' : Around y z) : Around x z :=
  ⟨h'.world.trans h.world, h'.root.trans h.root, h'.registry.trans h.registry,
    h'.inflight.trans h.inflight⟩

namespace Unchanged

variable {x y z : State K X}

theorem refl (x : State K X) : Unchanged x x := ⟨.refl x, fun _ => rfl⟩

theorem trans (h : Unchanged x y) (h' : Unchanged y z) : Unchanged x z :=
  ⟨h.toAround.trans h'.toAround, fun mode => (h'.memo mode).trans (h.memo mode)⟩

theorem report (x : State K X) (records : List Log.Record) (calls : List Source.WebCall)
    (history : List Event) : Unchanged x { x with records, calls, history } :=
  ⟨⟨rfl, rfl, rfl, rfl⟩, memo_eq rfl rfl⟩

theorem loaded_eq (h : Unchanged x y) (settings : Settings) (r : Request) :
    loaded settings y r = loaded settings x r := by
  rw [loaded, loaded, h.world, h.root]

theorem dispatched_eq (h : Unchanged x y) (f : K → Matter → Except Failure Value) (r : Request) :
    dispatched f y r = dispatched f x r := by
  rw [dispatched, dispatched, h.registry]

end Unchanged

section Gets

variable {m : Machine K X} {f : K → Matter → Except Failure Value} {x : State K X} {r : Request}

theorem gets_trace (debug : Bool) (logger text : String) :
    Block.Gets (trace debug logger text) x fun o x' => o = .ok () ∧ Unchanged x x' := by
  cases debug with
  | true => exact .change ⟨rfl, .report x _ x.calls x.history⟩
  | false => exact .pure ⟨rfl, .refl x⟩

theorem gets_warn (debug : Bool) (logger text : String) :
    Block.Gets (warn debug logger text) x fun o x' => o = .ok () ∧ Unchanged x x' := by
  cases debug with
  | true => exact .change ⟨rfl, .report x _ x.calls x.history⟩
  | false => exact .pure ⟨rfl, .refl x⟩

theorem gets_after {α : Type} {before : Block K X Unit} {b : Unit → Block K X α}
    {post : Except (Stop Failure) α → State K X → Prop}
    (hbefore : Block.Gets before x fun o x' => o = .ok () ∧ Unchanged x x')
    (h : ∀ x', Unchanged x x' → Block.Gets (b ()) x' post) : Block.Gets (before >>= b) x post := by
  apply hbefore.bind
  · rintro _ x' ⟨_, hsame⟩
    exact h x' hsame
  · rintro e x' ⟨⟨⟩, _⟩

theorem gets_readSource (hlocation : r.fromLocation) :
    Block.Gets (readSource m.settings r) x fun o x' =>
      o = (loaded m.settings x r).mapError .failed ∧ Unchanged x x' := by
  apply gets_after (gets_trace _ _ _)
  intro x' hsame
  apply Block.Gets.look
  rw [← hsame.loaded_eq m.settings r, loaded, if_pos hlocation, Source.load]
  apply Block.Gets.ofExcept_bind
  · intro plan hplan
    rw [hplan]
    apply Block.Gets.pause_bind
    apply Block.Gets.look
    apply Block.Gets.change_bind
    have hreport := hsame.trans (.report x' (x'.records ++ (plan.read m.settings.sources x'.world).records)
      (x'.calls ++ (plan.read m.settings.sources x'.world).calls) x'.history)
    apply Block.Gets.ofExcept_bind
    · intro text htext
      refine .pure ⟨?_, hreport⟩
      dsimp only
      rw [htext]
      rfl
    · intro e he
      refine ⟨?_, hreport⟩
      dsimp only
      rw [he]
      rfl
  · intro e he
    rw [he]
    exact ⟨rfl, hsame⟩

def readied (m : Machine K X) (x : State K X) (r : Request) : Except Failure Prepared :=
  match if r.allowCache then (x.memo r.mode).get? r.key else none with
  | some p => .ok (.hit ⟨{ r with cacheHit := true }, p⟩)
  | none => (loaded m.settings x r).map .fresh

theorem gets_prepare (a : Ask) (parent : Option Request) :
    Block.Gets (prepare m.settings a parent) x fun o x' =>
      o = ((requestOf a.mode a.options m.settings.inlineStart (Request.depthBelow parent)).bind
        (readied m x)).mapError .failed ∧ Unchanged x x' := by
  rw [prepare]
  split
  · next e he =>
    rw [he]
    split
    · apply gets_after (gets_warn _ _ _)
      intro x' hsame
      exact .stop ⟨rfl, hsame⟩
    · exact .stop ⟨rfl, .refl x⟩
  · next r hr =>
    rw [hr]
    apply Block.Gets.change_bind
    apply Block.Gets.look
    have hnoted : Unchanged x (x.note (.asked parent r)) := .report x x.records x.calls _
    rw [Except.bind, readied, memo_note]
    cases if r.allowCache then (x.memo r.mode).get? r.key else none with
    | some p =>
      apply gets_after (gets_trace _ _ _)
      intro x' hsame
      apply gets_after (gets_trace _ _ _)
      intro x'' hsame'
      exact .pure ⟨rfl, (hnoted.trans hsame).trans hsame'⟩
    | none =>
      dsimp only
      have hfresh {r' : Request} {x' : State K X} (hr' : loaded m.settings x r = .ok r')
          (hsame : Unchanged x x') : Block.Gets (do
            traceRequest r'
            return Prepared.fresh r') x' fun o x' =>
              o = ((loaded m.settings x r).map Prepared.fresh).mapError .failed ∧ Unchanged x x' := by
        apply gets_after (gets_trace _ _ _)
        intro x'' hsame'
        refine .pure ⟨?_, hsame.trans hsame'⟩
        rw [hr']
        rfl
      split
      · next hlocation =>
        apply (gets_readSource hlocation).bind
        · rintro r' x' ⟨hr', hsame⟩
          rw [eq_comm, mapError_eq_ok, hnoted.loaded_eq] at hr'
          exact hfresh hr' (hnoted.trans hsame)
        · rintro e x' ⟨he, hsame⟩
          refine ⟨?_, hnoted.trans hsame⟩
          rw [hnoted.loaded_eq] at he
          cases hloaded : loaded m.settings x r with
          | ok r' =>
            rw [hloaded] at he
            cases he
          | error e' =>
            rw [hloaded] at he
            rw [Except.error.inj he]
            rfl
      · next hlocation => exact hfresh (by rw [loaded, if_neg hlocation]) hnoted

theorem gets_lookUp (r : Request) : Block.Gets (lookUp r) x fun o x' =>
    o = (compiler? x.registry r).elim (.error (.failed (missing r))) .ok ∧ Unchanged x x' := by
  apply Block.Gets.look
  rw [compiler?, missing]
  cases r.mode with
  | transpile =>
    dsimp only
    split
    · next k hk =>
      rw [hk]
      exact .pure ⟨rfl, .refl x⟩
    · next hk =>
      rw [hk]
      apply gets_after (gets_warn _ _ _)
      intro x' hsame
      exact .stop ⟨rfl, hsame⟩
  | interpret =>
    dsimp only
    split
    · next k hk =>
      rw [hk]
      exact .pure ⟨rfl, .refl x⟩
    · next hk =>
      rw [hk]
      apply gets_after (gets_warn _ _ _)
      intro x' hsame
      exact .stop ⟨rfl, hsame⟩

theorem ends_callRoutine {h : Settings} {ask : Ask → Block K X Envelope} {call : Call X}
    {answer : Except Failure Value} (hcall : call.plain? = some answer) :
    Schedule.Ends (callRoutine h ask r call) x fun o x' => x' = x ∧
      ∃ compilerOptions executerOptions, o = (answer.mapError .failed).map fun v =>
        some ⟨{ r with compilerOptions, executerOptions }, .value v⟩ := by
  induction call with
  | answer v compilerOptions executerOptions =>
    cases hcall
    rintro s t hs rfl
    exact ⟨_, s, ⟨rfl, compilerOptions, executerOptions, rfl⟩, hs, .refl _⟩
  | fail e =>
    cases hcall
    rintro s t hs rfl
    exact ⟨_, s, ⟨rfl, r.compilerOptions, r.executerOptions, rfl⟩, hs, .refl _⟩
  | pause next ih =>
    rintro s t hs rfl
    obtain ⟨s', hs', hshared, hleads⟩ := hs.pause (callRoutine h ask r next)
    obtain ⟨o, s'', hpost, hs'', hleads'⟩ := ih hcall s' t hs'.refl_right hshared
    exact ⟨o, s'', hpost, hs'.trans hs'', hleads.trans hleads'⟩
  | observe next ih => cases hcall
  | effect e next ih => cases hcall
  | ask a next ih => cases hcall
  | join parts next ih => cases hcall

theorem gets_compute (hplain : m.Plain f) (ask : Ask → Block K X Envelope) (k : K) (r : Request) :
    Block.Gets (compute m ask k r) x fun o x' => Tells r (computed f k r) o ∧ Unchanged x x' := by
  have hcalled : Unchanged x (x.note (.called r)) := .report x x.records x.calls _
  have hends : Schedule.Ends (.look fun _ => .change (·.note (.called r))
      (callRoutine m.settings ask r (m.perform k r))) x fun o x' => Unchanged x x' ∧
        ∃ compilerOptions executerOptions, o = ((f k r.matter).mapError .failed).map fun v =>
          some ⟨{ r with compilerOptions, executerOptions }, .value v⟩ := by
    have hroutine : Schedule.Ends (callRoutine m.settings ask r (m.perform k r)) (x.note (.called r)) _ :=
      ends_callRoutine (hplain k r)
    rintro s t hs rfl
    obtain ⟨o, s', ⟨hshared, hpost⟩, hs', hleads⟩ :=
      hroutine { s with shared := s.shared.note (.called r) } t (hs.changeShared _).refl_right rfl
    refine ⟨o, s', ⟨?_, hpost⟩, ⟨hs'.rest, hs'.own, hs'.others⟩, hleads⟩
    rw [hshared]
    exact hcalled
  refine Block.Gets.bind (b := do
    let t ← Block.spawn _
    Block.await t) (.call hends) ?_ ?_
  · rintro result x' ⟨_, ⟨⟩, hsame, compilerOptions, executerOptions, rfl⟩
    rw [computed]
    cases f k r.matter with
    | error e => exact .stop ⟨.inr ⟨e, rfl, rfl⟩, hsame⟩
    | ok v =>
      apply Block.Gets.ofExcept_bind
      · intro p hp
        exact .pure ⟨.inl ⟨⟨_, p⟩, hp, rfl, rfl, rfl, rfl⟩, hsame⟩
      · intro e he
        exact ⟨.inr ⟨e, he, rfl⟩, hsame⟩
  · rintro e x' ⟨_, ⟨⟩, _⟩

theorem gets_share {work : Block K X Envelope} {answer : Except Failure Payload}
    (hwork : ∀ y, Block.Gets work y fun o y' => Tells r answer o ∧ Unchanged y y')
    (hidle : x.inflight = {}) :
    Block.Gets (share work r) x fun o x' => Tells r answer o ∧ Unchanged x x' := by
  rw [share]
  apply Block.Gets.look
  rw [hidle]
  have herase (t : Nat) : (({} : Table (Mode × String) Nat).set (r.mode, r.key) t).erase
      (r.mode, r.key) = {} := by
    simp [Table.set, Table.place, Table.erase]
  have hends (t : Nat) : Schedule.Ends (work fun e => .finish (.ok (some e)))
      { x with inflight := x.inflight.set (r.mode, r.key) t } fun o x' =>
        ∃ o', Tells r answer o' ∧ o = o'.map some ∧
          ∃ t, Unchanged { x with inflight := x.inflight.set (r.mode, r.key) t } x' := by
    apply (hwork _).ends.weaken
    rintro _ x' ⟨o', ⟨ho', hsame⟩, rfl⟩
    exact ⟨o', ho', rfl, t, hsame⟩
  have hcall := Block.Gets.callNoted (x := x)
    (g := fun t s => { s with inflight := s.inflight.set (r.mode, r.key) t }) hends
  refine Block.Gets.bind (b := do
    let t ← Block.spawn (work fun e => .finish (.ok (some e)))
    Block.change fun s => { s with inflight := s.inflight.set (r.mode, r.key) t }
    Block.await t) hcall ?_ ?_
  · rintro result x' ⟨_, ⟨⟩, o, ho, rfl, t, hsame⟩
    apply Block.Gets.change_bind
    have hback : Unchanged x { x' with inflight := x'.inflight.erase (r.mode, r.key) } := by
      refine ⟨⟨hsame.world, hsame.root, hsame.registry, ?_⟩, fun mode => (memo_eq rfl rfl mode).trans
        ((hsame.memo mode).trans (memo_eq rfl rfl mode))⟩
      dsimp only
      rw [hsame.inflight, hidle, herase]
    rcases ho with ⟨e, he, rfl, hanswers⟩ | ⟨e, he, rfl⟩
    · exact .pure ⟨.inl ⟨e, he, rfl, hanswers⟩, hback⟩
    · exact .stop ⟨.inr ⟨e, he, rfl⟩, hback⟩
  · rintro e x' ⟨_, ⟨⟩, _⟩

def keptAfter {ε : Type} (x : State K X) (o : Except ε Envelope) (mode : Mode) (key : String) :
    Option Payload :=
  match o with
  | .ok e =>
    if e.request.allowCache ∧ e.request.mode = mode ∧ e.request.key = key then
      some (((x.memo mode).get? key).getD e.payload)
    else (x.memo mode).get? key
  | .error _ => (x.memo mode).get? key

theorem around_setMemo (x : State K X) (mode : Mode) (memo : Memo Payload) :
    Around x (x.setMemo mode memo) := by
  cases mode with
  | transpile => exact ⟨rfl, rfl, rfl, rfl⟩
  | interpret => exact ⟨rfl, rfl, rfl, rfl⟩

theorem gets_keep (e : Envelope) : Block.Gets (keep e) x fun o x' =>
    o = .ok () ∧ Around x x' ∧
      ∀ mode key, (x'.memo mode).get? key = keptAfter x (.ok e : Except Failure Envelope) mode key := by
  obtain ⟨r, p⟩ := e
  apply Block.Gets.look
  split
  · next hset =>
    simp only [Bool.and_eq_true, Bool.not_eq_true'] at hset
    obtain ⟨hcache, hnew⟩ := hset
    apply gets_after (gets_trace _ _ _)
    intro x' hsame
    refine .change ⟨rfl, hsame.toAround.trans (around_setMemo _ _ _), ?_⟩
    intro mode key
    rw [memo_setMemo, keptAfter, hsame.memo, hsame.memo]
    by_cases hmode : r.mode = mode
    · subst hmode
      rw [if_pos rfl, Table.get?_set]
      by_cases hkey : r.key = key
      · subst hkey
        rw [if_pos rfl, if_pos ⟨hcache, rfl, rfl⟩, Table.get?_eq_none_of_has hnew]
        rfl
      · rw [if_neg (Ne.symm hkey), if_neg fun h => hkey h.2.2]
    · rw [if_neg hmode, if_neg fun h => hmode h.2.1]
  · next hset =>
    refine .pure ⟨rfl, .refl x, ?_⟩
    intro mode key
    rw [keptAfter]
    split
    · next hsame =>
      obtain ⟨hcache, rfl, rfl⟩ := hsame
      have hallow : r.allowCache = true := hcache
      cases hp : (x.memo r.mode).get? r.key with
      | some p' => rfl
      | none => exact absurd (by simp [hallow, Table.has, hp]) hset
    · rfl

/--
How a request leaves its hub.
-/
structure Resolved (x : State K X) (r : Request) (answer : Except Failure Payload)
    (o : Except (Stop Failure) Envelope) (x' : State K X) : Prop where
  tells : Tells r answer o
  around : Around x x'
  memo : ∀ mode key, (x'.memo mode).get? key = keptAfter x o mode key

theorem Resolved.error {e : Failure} {x' : State K X} (hsame : Unchanged x x') :
    Resolved x r (.error e) (.error (.failed e)) x' where
  tells := .inr ⟨e, rfl, rfl⟩
  around := hsame.toAround
  memo := by
    intro mode key
    rw [hsame.memo]
    rfl

theorem Resolved.of_unchanged {y x' : State K X} {answer : Except Failure Payload}
    {o : Except (Stop Failure) Envelope} (hsame : Unchanged x y) (h : Resolved y r answer o x') :
    Resolved x r answer o x' where
  tells := h.tells
  around := hsame.toAround.trans h.around
  memo := by
    intro mode key
    rw [h.memo, keptAfter.eq_def, keptAfter.eq_def, hsame.memo]

theorem Resolved.unchanged {y x' : State K X} {answer : Except Failure Payload}
    {o : Except (Stop Failure) Envelope} (h : Resolved x r answer o x') (hsame : Unchanged x' y) :
    Resolved x r answer o y where
  tells := h.tells
  around := h.around.trans hsame.toAround
  memo := by
    intro mode key
    rw [hsame.memo, h.memo]

theorem gets_dispatch (hplain : m.Plain f) (ask : Ask → Block K X Envelope) (r : Request)
    (hidle : x.inflight = {}) :
    Block.Gets (dispatch m ask r) x (Resolved x r (dispatched f x r)) := by
  apply (gets_lookUp r).bind
  · rintro k x' ⟨hk, hsame⟩
    have hdispatched : dispatched f x r = computed f k r := by
      rw [dispatched]
      cases hfound : compiler? x.registry r with
      | none =>
        rw [hfound] at hk
        cases hk
      | some k' =>
        rw [hfound] at hk
        cases hk
        rfl
    rw [hdispatched]
    have hwork (y : State K X) := gets_compute (x := y) hplain ask k r
    have hrest {b : Block K X Envelope}
        (hb : Block.Gets b x' fun o x'' => Tells r (computed f k r) o ∧ Unchanged x' x'') :
        Block.Gets (b >>= fun e => do
          keep e
          return e) x' (Resolved x r (computed f k r)) := by
      apply hb.bind
      · rintro e x'' ⟨he | ⟨_, _, ⟨⟩⟩, hsame'⟩
        obtain ⟨_, hanswer, ⟨⟩, hanswers⟩ := he
        apply (gets_keep e).bind
        · rintro _ x₃ ⟨_, haround, hmemo⟩
          exact .pure (.of_unchanged (hsame.trans hsame')
            ⟨.inl ⟨e, hanswer, rfl, hanswers⟩, haround, hmemo⟩)
        · rintro e x₃ ⟨⟨⟩, _⟩
      · rintro _ x'' ⟨⟨_, _, ⟨⟩, _⟩ | ⟨e, he, ⟨⟩⟩, hsame'⟩
        rw [he]
        exact .error (hsame.trans hsame')
    dsimp only
    split
    · exact hrest (gets_share hwork (hsame.inflight.trans hidle))
    · exact hrest (hwork x')
  · rintro e x' ⟨he, hsame⟩
    rw [dispatched]
    cases hfound : compiler? x.registry r with
    | none =>
      rw [hfound] at he
      cases he
      exact .error hsame
    | some k =>
      rw [hfound] at he
      cases he

theorem gets_finish {answer : Except Failure Payload} {e : Envelope} {y : State K X}
    (h : Resolved x r answer (.ok e) y) :
    Block.Gets (request.finish e) y (Resolved x r answer) :=
  .change_bind (.pure (h.unchanged (.report y y.records y.calls _)))

theorem exists_source_of_loaded {settings : Settings} {r' : Request}
    (h : loaded settings x r = .ok r') : ∃ source, r' = { r with source } := by
  rw [loaded] at h
  split at h
  · obtain ⟨text, _, rfl⟩ := map_eq_ok.mp h
    exact ⟨_, rfl⟩
  · cases h
    exact ⟨r.source, rfl⟩

theorem Resolved.of_loaded {y x' : State K X} {settings : Settings} {r' : Request}
    {answer : Except Failure Payload} {o : Except (Stop Failure) Envelope}
    (h : Resolved y r' answer o x') (hr' : loaded settings x r = .ok r') :
    Resolved y r answer o x' := by
  obtain ⟨source, rfl⟩ := exists_source_of_loaded hr'
  refine ⟨?_, h.around, h.memo⟩
  rcases h.tells with ⟨e, he, ho, hanswers⟩ | herror
  · exact .inl ⟨e, he, ho, hanswers.mode, hanswers.key, hanswers.allowCache⟩
  · exact .inr herror

theorem Resolved.hit {y : State K X} {p : Payload} (hp : (x.memo r.mode).get? r.key = some p)
    (hsame : Unchanged x y) :
    Resolved x r (.ok p) (.ok ⟨{ r with cacheHit := true }, p⟩) y where
  tells := .inl ⟨_, rfl, rfl, rfl, rfl, rfl⟩
  around := hsame.toAround
  memo := by
    intro mode key
    rw [hsame.memo, keptAfter]
    split
    · next hown =>
      obtain ⟨_, rfl, rfl⟩ := hown
      exact hp.trans (congrArg (fun kept => some (kept.getD p)) hp).symm
    · rfl

theorem gets_request_error (left : Nat) (parent : Option Request) (a : Ask) {e : Failure}
    (hr : requestOf a.mode a.options m.settings.inlineStart (Request.depthBelow parent) = .error e) :
    Block.Gets (request m left parent a) x fun o x' => o = .error (.failed e) ∧ Unchanged x x' := by
  have hprepare := gets_prepare (m := m) (x := x) a parent
  rw [hr] at hprepare
  have hrest (k : Prepared → Block K X Envelope) : Block.Gets (prepare m.settings a parent >>= k) x
      fun o x' => o = .error (.failed e) ∧ Unchanged x x' := by
    apply hprepare.bind
    · rintro _ y ⟨⟨⟩, _⟩
    · rintro _ y ⟨⟨⟩, hsame⟩
      exact ⟨rfl, hsame⟩
  cases left with
  | zero =>
    rw [request]
    exact hrest _
  | succ left =>
    rw [request]
    exact hrest _

theorem gets_request (hplain : m.Plain f) (left : Nat) (parent : Option Request) (a : Ask)
    (hidle : x.inflight = {}) (hr : requestOf a.mode a.options m.settings.inlineStart
      (Request.depthBelow parent) = .ok r) :
    Block.Gets (request m left parent a) x (Resolved x r (answered m f left x r)) := by
  have hprepare := gets_prepare (m := m) (x := x) a parent
  rw [hr] at hprepare
  have hrest (k : Prepared → Block K X Envelope) (hhit : ∀ e, k (.hit e) = request.finish e)
      (hfresh : ∀ r' y, loaded m.settings x r = .ok r' → Unchanged x y →
        Block.Gets (k (.fresh r')) y (Resolved x r (worked m f left x r))) :
      Block.Gets (prepare m.settings a parent >>= k) x (Resolved x r (answered m f left x r)) := by
    rw [Except.bind, readied] at hprepare
    rw [answered]
    cases hkept : if r.allowCache then (x.memo r.mode).get? r.key else none with
    | some p =>
      rw [hkept] at hprepare
      apply hprepare.bind
      · rintro _ y ⟨⟨⟩, hsame⟩
        rw [hhit]
        exact gets_finish (.hit (Option.ite_none_right_eq_some.mp hkept).2 hsame)
      · rintro _ y ⟨⟨⟩, _⟩
    | none =>
      rw [hkept] at hprepare
      dsimp only at hprepare ⊢
      apply hprepare.bind
      · rintro prepared y ⟨hload, hsame⟩
        rw [eq_comm, mapError_eq_ok, map_eq_ok] at hload
        obtain ⟨r', hr', rfl⟩ := hload
        exact hfresh r' y hr' hsame
      · rintro e y ⟨he, hsame⟩
        rw [worked]
        cases hload : loaded m.settings x r with
        | ok r' =>
          rw [hload] at he
          cases he
        | error e' =>
          rw [hload] at he
          cases he
          exact .error hsame
  cases left with
  | zero =>
    rw [request]
    apply hrest _ fun _ => rfl
    intro r' y hr' hsame
    rw [worked, hr']
    exact .stop (.error hsame)
  | succ left =>
    rw [request]
    apply hrest _ fun _ => rfl
    intro r' y hr' hsame
    have hworked : worked m f (left + 1) x r = dispatched f y r' := by
      rw [worked, hr', hsame.dispatched_eq]
      rfl
    rw [hworked]
    have hdispatch : Block.Gets (dispatch m (request m left (some r')) r') y
        (Resolved x r (dispatched f y r')) := by
      apply (gets_dispatch hplain _ r' (hsame.inflight.trans hidle)).weaken
      intro o x' ho
      exact .of_unchanged hsame (ho.of_loaded hr')
    apply hdispatch.bind
    · intro e x' he
      exact gets_finish he
    · exact fun _ _ he => he

end Gets

end Hub

end Polyglot
