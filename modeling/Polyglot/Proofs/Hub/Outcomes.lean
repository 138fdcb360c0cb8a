import Polyglot.Proofs.Hub.Plain
import Polyglot.Proofs.Hub.Rules
import Polyglot.Proofs.Loop.Tends

/-!
What may come of requests to a hub whose compilers go by nothing but their requests. A request that has
a result always has that one; only which of several failures is told may depend on how things are done
side by side.
-/

namespace Polyglot

open Hub

variable {K X : Type}

def Part.Comes (answers : Ask → Except Failure Envelope → Prop) :
    Part → Except Failure (Option Envelope) → Prop
  | .ask a, o => ∃ answer, answers a answer ∧ o = answer.map some
  | .done, o => o = .ok none
  | .failed e, o => o = .error e

namespace Call

/--
What may come of a call that sees a certain view, with both kinds of options as it leaves them. A
failure among several things done side by side is that of any one of them.
-/
def Comes (view : View X) (answers : Ask → Except Failure Envelope → Prop) :
    Call X → Except Failure (Value × Fields × Fields) → Prop
  | answer v compilerOptions executerOptions, o => o = .ok (v, compilerOptions, executerOptions)
  | fail e, o => o = .error e
  | pause next, o => next.Comes view answers o
  | observe next, o => (next view).Comes view answers o
  | effect _ next, o => next.Comes view answers o
  | ask a next, o => (∃ e, answers a (.ok e) ∧ (next e).Comes view answers o) ∨
    ∃ e, answers a (.error e) ∧ o = .error e
  | join parts next, o =>
    (∃ results, List.Forall₂ (fun part result => part.Comes answers (.ok result)) parts results ∧
      (next results).Comes view answers o) ∨
    ∃ part ∈ parts, ∃ e, part.Comes answers (.error e) ∧ o = .error e

/--
A call that sees a certain view asks only for certain things, and has no effects but to log what it
does.
-/
def Regular (view : View X) (may : Ask → Prop) : Call X → Prop
  | answer .. => True
  | fail _ => True
  | pause next => next.Regular view may
  | observe next => (next view).Regular view may
  | effect e next => (∃ r, e = .log r) ∧ next.Regular view may
  | ask a next => may a ∧ ∀ e, (next e).Regular view may
  | join parts next =>
    (∀ a, .ask a ∈ parts → may a) ∧ ∀ results, (next results).Regular view may

end Call

section Comes

variable {view : View X} {answers : Ask → Except Failure Envelope → Prop} {may : Ask → Prop}
variable {parts : List Part}

theorem Part.Comes.unique {part : Part}
    (hanswers : ∀ a e answer, part = .ask a → answers a (.ok e) → answers a answer → answer = .ok e)
    {result : Option Envelope} {o : Except Failure (Option Envelope)}
    (h : part.Comes answers (.ok result)) (h' : part.Comes answers o) : o = .ok result := by
  cases part with
  | ask a =>
    obtain ⟨answer, ha, hresult⟩ := h
    obtain ⟨answer', ha', rfl⟩ := h'
    obtain ⟨e, rfl, rfl⟩ := map_eq_ok.mp hresult.symm
    rw [hanswers a e answer' rfl ha ha']
    rfl
  | done =>
    cases h
    exact h'
  | failed e => cases h

/--
Several things done side by side have one row of results, if they have one, and then none of them
fails.
-/
theorem unique_of_comes (hanswers : ∀ a e answer, may a → answers a (.ok e) → answers a answer →
      answer = .ok e) (hmay : ∀ a, .ask a ∈ parts → may a) {results : List (Option Envelope)}
    (h : List.Forall₂ (fun part result => part.Comes answers (.ok result)) parts results) :
    (∀ results', List.Forall₂ (fun part result => part.Comes answers (.ok result)) parts results' →
      results' = results) ∧ ∀ part ∈ parts, ∀ e, ¬ part.Comes answers (.error e) := by
  induction h with
  | nil => exact ⟨fun results' h' => by cases h'; rfl, by simp⟩
  | @cons part result parts results hpart _ ih =>
    have hunique {o : Except Failure (Option Envelope)} (ho : part.Comes answers o) : o = .ok result :=
      hpart.unique (fun a e answer ha => hanswers a e answer (hmay a (ha ▸ List.mem_cons_self))) ho
    obtain ⟨hresults, hfails⟩ := ih fun a ha => hmay a (List.mem_cons_of_mem _ ha)
    refine ⟨?_, ?_⟩
    · rintro _ (_ | ⟨hpart', hrest⟩)
      cases hunique hpart'
      rw [hresults _ hrest]
    · intro part' hpart' e he
      rcases List.mem_cons.mp hpart' with rfl | hpart'
      · cases hunique he
      · exact hfails part' hpart' e he

theorem exists_of_comes (hanswers : ∀ a, may a → ∃ answer, answers a answer)
    (hmay : ∀ a, .ask a ∈ parts → may a) :
    (∃ results, List.Forall₂ (fun part result => part.Comes answers (.ok result)) parts results) ∨
      ∃ part ∈ parts, ∃ e, part.Comes answers (.error e) := by
  induction parts with
  | nil => exact .inl ⟨[], .nil⟩
  | cons part parts ih =>
    have hpart : ∃ o, part.Comes answers o := by
      cases part with
      | ask a =>
        obtain ⟨answer, ha⟩ := hanswers a (hmay a List.mem_cons_self)
        exact ⟨_, answer, ha, rfl⟩
      | done => exact ⟨_, rfl⟩
      | failed e => exact ⟨_, rfl⟩
    obtain ⟨o, ho⟩ := hpart
    cases o with
    | error e => exact .inr ⟨part, List.mem_cons_self, e, ho⟩
    | ok result =>
      rcases ih fun a ha => hmay a (List.mem_cons_of_mem _ ha) with ⟨results, h⟩ | ⟨part', hpart', e, he⟩
      · exact .inl ⟨result :: results, .cons ho h⟩
      · exact .inr ⟨part', List.mem_cons_of_mem _ hpart', e, he⟩

theorem Call.Comes.unique (hanswers : ∀ a e answer, may a → answers a (.ok e) → answers a answer →
      answer = .ok e) {call : Call X} (hregular : call.Regular view may)
    {c : Value × Fields × Fields} {o : Except Failure (Value × Fields × Fields)}
    (h : call.Comes view answers (.ok c)) (h' : call.Comes view answers o) : o = .ok c := by
  induction call with
  | answer v compilerOptions executerOptions =>
    cases h
    exact h'
  | fail e => cases h
  | pause next ih => exact ih hregular h h'
  | observe next ih => exact ih view hregular h h'
  | effect e next ih => exact ih hregular.2 h h'
  | ask a next ih =>
    obtain ⟨hmay, hnext⟩ := hregular
    obtain ⟨e, ha, h⟩ | ⟨_, _, ⟨⟩⟩ := h
    rcases h' with ⟨e', ha', h'⟩ | ⟨e', ha', rfl⟩
    · cases hanswers a e _ hmay ha ha'
      exact ih e (hnext e) h h'
    · cases hanswers a e _ hmay ha ha'
  | join parts next ih =>
    obtain ⟨hmay, hnext⟩ := hregular
    obtain ⟨results, hresults, h⟩ | ⟨_, _, _, _, ⟨⟩⟩ := h
    obtain ⟨hunique, hfails⟩ := unique_of_comes hanswers hmay hresults
    rcases h' with ⟨results', hresults', h'⟩ | ⟨part, hpart, e, he, _⟩
    · cases hunique results' hresults'
      exact ih results (hnext results) h h'
    · exact absurd he (hfails part hpart e)

theorem Call.exists_comes (hanswers : ∀ a, may a → ∃ answer, answers a answer) {call : Call X}
    (hregular : call.Regular view may) : ∃ o, call.Comes view answers o := by
  induction call with
  | answer v compilerOptions executerOptions => exact ⟨_, rfl⟩
  | fail e => exact ⟨_, rfl⟩
  | pause next ih => exact ih hregular
  | observe next ih => exact ih view hregular
  | effect e next ih => exact ih hregular.2
  | ask a next ih =>
    obtain ⟨answer, ha⟩ := hanswers a hregular.1
    cases answer with
    | error e => exact ⟨_, .inr ⟨e, ha, rfl⟩⟩
    | ok e =>
      obtain ⟨o, ho⟩ := ih e (hregular.2 e)
      exact ⟨o, .inl ⟨e, ha, ho⟩⟩
  | join parts next ih =>
    rcases exists_of_comes hanswers hregular.1 with ⟨results, hresults⟩ | ⟨part, hpart, e, he⟩
    · obtain ⟨o, ho⟩ := ih results (hregular.2 results)
      exact ⟨o, .inl ⟨results, hresults, ho⟩⟩
    · exact ⟨_, .inr ⟨part, hpart, e, he, rfl⟩⟩

end Comes

namespace Hub

variable (m : Machine K X) (x : State K X)

def checked (r : Request) (c : Except Failure (Value × Fields × Fields)) : Except Failure Envelope := do
  let (v, compilerOptions, executerOptions) ← c
  let payload ← (Payload.ofValue r.mode v).mapError .contract
  return ⟨{ r with compilerOptions, executerOptions }, payload⟩

def Passes (work : Request → Except Failure Envelope → Prop) (parent : Option Request) (a : Ask)
    (o : Except Failure Envelope) : Prop :=
  match (requestOf a.mode a.options m.settings.inlineStart (Request.depthBelow parent)).bind
      (loaded m.settings x) with
  | .error e => o = .error e
  | .ok r => work r o

def Crafts (answers : Ask → Except Failure Envelope → Prop) (r : Request)
    (o : Except Failure Envelope) : Prop :=
  match compiler? x.registry r with
  | none => o = .error (missing r)
  | some k => ∃ c, (m.perform k r).Comes (x.view m.settings) answers c ∧ o = checked r c

/--
What may come of a request that is worked out by itself, `left` levels above the deepest one, in a hub
whose state does not change meanwhile.
-/
def Brings : Nat → Option Request → Ask → Except Failure Envelope → Prop
  | 0 => Passes m x fun r o => o = .error (.tooDeep r.depth m.settings.maxDepth r.location)
  | left + 1 => Passes m x fun r => Crafts m x (Brings left (some r)) r

/--
The compilers that certain requests come to are functions of their requests in a hub that stays as it
is: they may ask for more such requests, the results of which are not kept.
-/
structure Steady (may : Ask → Prop) : Prop where
  uncached : ∀ a, may a → Uncached a
  regular : ∀ a depth r k, may a →
    (requestOf a.mode a.options m.settings.inlineStart depth).bind (loaded m.settings x) = .ok r →
    compiler? x.registry r = some k → (m.perform k r).Regular (x.view m.settings) may

variable {m x} {may : Ask → Prop} {left : Nat} {parent : Option Request} {a : Ask}

theorem Brings.of_answer {r : Request} {k : K} {v : Value} {compilerOptions executerOptions : Fields}
    {p : Payload} {o : Except Failure Envelope} (h : Brings m x (left + 1) parent a o)
    (hr : (requestOf a.mode a.options m.settings.inlineStart (Request.depthBelow parent)).bind
      (loaded m.settings x) = .ok r)
    (hk : compiler? x.registry r = some k)
    (hcall : m.perform k r = .answer v compilerOptions executerOptions)
    (hp : Payload.ofValue r.mode v = .ok p) : o = .ok ⟨{ r with compilerOptions, executerOptions }, p⟩ := by
  rw [Brings, Passes, hr] at h
  change Crafts m x _ r o at h
  rw [Crafts, hk] at h
  obtain ⟨c, hc, rfl⟩ := h
  rw [hcall] at hc
  obtain rfl : c = _ := hc
  simp only [checked, bind, Except.bind, hp]
  rfl

theorem Brings.unique (hsteady : Steady m x may) (ha : may a) {e : Envelope}
    {o : Except Failure Envelope} (h : Brings m x left parent a (.ok e))
    (h' : Brings m x left parent a o) : o = .ok e := by
  induction left generalizing parent a e o with
  | zero =>
    rw [Brings, Passes] at h h'
    split at h
    · cases h
    · cases h
  | succ left ih =>
    rw [Brings, Passes] at h h'
    split at h
    · cases h
    · next r hr =>
      rw [hr] at h'
      dsimp only at h'
      rw [Crafts] at h h'
      split at h
      · cases h
      · next k hk =>
        rw [hk] at h'
        obtain ⟨c, hc, hchecked⟩ := h
        obtain ⟨c', hc', rfl⟩ := h'
        obtain ⟨v, rfl, _⟩ := bind_eq_ok.mp hchecked.symm
        rw [hchecked, hc.unique (fun _ _ _ ha => ih ha) (hsteady.regular a _ r k ha hr hk) hc']

theorem exists_brings (hsteady : Steady m x may) (ha : may a) : ∃ o, Brings m x left parent a o := by
  induction left generalizing parent a with
  | zero =>
    simp only [Brings, Passes]
    split
    · exact ⟨_, rfl⟩
    · exact ⟨_, rfl⟩
  | succ left ih =>
    simp only [Brings, Passes]
    split
    · exact ⟨_, rfl⟩
    · next r hr =>
      simp only [Crafts]
      split
      · exact ⟨_, rfl⟩
      · next k hk =>
        obtain ⟨c, hc⟩ := Call.exists_comes (fun a ha => ih ha) (hsteady.regular a _ r k ha hr hk)
        exact ⟨_, c, hc, rfl⟩

end Hub

end Polyglot

/-!
What the parts of a request come to, up to the call of its compiler, while others do nothing to the
hub's state that requests go by.
-/

namespace Polyglot.Hub

open Loop

variable {K X κ π : Type}

/--
All that requests go by in a hub is as it was, and so are the results that are kept and the styles in
the heads of documents.
-/
structure Intact (x x' : State K X) : Prop where
  world : x'.world = x.world
  root : x'.root = x.root
  registry : x'.registry = x.registry
  memo : ∀ mode, x'.memo mode = x.memo mode
  heads : x'.heads = x.heads
  ext : x'.ext = x.ext

namespace Intact

variable {x x' : State K X}

theorem refl (x : State K X) : Intact x x := ⟨rfl, rfl, rfl, fun _ => rfl, rfl, rfl⟩

theorem view_eq (h : Intact x x') (settings : Settings) : x'.view settings = x.view settings := by
  rw [State.view, State.view, h.world, h.root, h.ext]

theorem report (h : Intact x x') (records : List Log.Record) (calls : List Source.WebCall)
    (history : List Event) : Intact x { x' with records, calls, history } :=
  ⟨h.world, h.root, h.registry, h.memo, h.heads, h.ext⟩

theorem setInflight (h : Intact x x') (inflight : Table (Mode × String) Nat) :
    Intact x { x' with inflight } :=
  ⟨h.world, h.root, h.registry, h.memo, h.heads, h.ext⟩

end Intact

/--
A task may report what it does and wait a turn, and finds the state as it was in what requests go by.
-/
structure Setting (c : Terms (State K X) Failure (Option Envelope) κ π) (old : State K X) (t : Nat)
    (Good : Ledger κ π Failure (Option Envelope) → State K X → Prop) : Prop where
  intact : ∀ {l x}, Good l x → Intact old x
  report : ∀ {l x}, Good l x → ∀ records calls history, Good l { x with records, calls, history }
  pause : ∀ {l x next}, Good l x → (∀ l' x', Good l' x' → next.Tends c t [] l' x') →
    (Routine.pause next).Tends c t [] l x

/--
A block goes on with what it may come to, or the task ends with the failure.
-/
def Gives {α : Type} (c : Terms (State K X) Failure (Option Envelope) κ π) (t : Nat)
    (Good : Ledger κ π Failure (Option Envelope) → State K X → Prop) (b : Block K X α)
    (out : Except Failure α → Prop) : Prop :=
  ∀ l x k, Good l x → (∀ a l' x', Good l' x' → out (.ok a) → (k a).Tends c t [] l' x') →
    (∀ e l' x', Good l' x' → out (.error e) →
      c.inv (l'.reach t (.ended (.error (.failed e)))) x') → (b k).Tends c t [] l x

variable {c : Terms (State K X) Failure (Option Envelope) κ π} {m : Machine K X} {old : State K X}
variable {t : Nat} {Good : Ledger κ π Failure (Option Envelope) → State K X → Prop}

section Tends

variable {us : List Nat} {l : Ledger κ π Failure (Option Envelope)} {x : State K X}

theorem tends_look {α : Type} {f : State K X → Block K X α} {k : α → Routine K X}
    (h : (f x k).Tends c t us l x) : ((Block.look >>= f) k).Tends c t us l x :=
  h

theorem tends_trace {debug : Bool} {logger text : String} {k : Unit → Routine K X}
    (h : ∀ records, (k ()).Tends c t us l { x with records }) :
    (trace debug logger text k).Tends c t us l x := by
  rw [Hub.trace]
  split
  · exact h _
  · exact h x.records

end Tends

namespace Gives

variable {α β : Type} {out : Except Failure α → Prop}

theorem pure {a : α} (h : out (.ok a)) : Gives c t Good (pure a) out :=
  fun l x _ hgood hk _ => hk a l x hgood h

theorem fail {e : Failure} (h : out (.error e)) : Gives c t Good (Block.fail e) out :=
  fun l x _ hgood _ herror => ⟨rfl, herror e l x hgood h⟩

theorem ofExcept (r : Except Failure α) : Gives c t Good (Block.ofExcept r) (· = r) := by
  cases r with
  | ok a => exact .pure rfl
  | error e => exact .fail rfl

theorem bind {b : Block K X α} {f : α → Block K X β} {out' : Except Failure β → Prop}
    (h : Gives c t Good b out) (hf : ∀ a, out (.ok a) → Gives c t Good (f a) out')
    (herror : ∀ e, out (.error e) → out' (.error e)) : Gives c t Good (b >>= f) out' := by
  intro l x k hgood hk hfail
  apply h l x (fun a => f a k) hgood
  · exact fun a l' x' hgood' ha => hf a ha l' x' k hgood' hk hfail
  · exact fun e l' x' hgood' he => hfail e l' x' hgood' (herror e he)

variable (hs : Setting c old t Good)
include hs

theorem look {f : State K X → Block K X α} (h : ∀ x, Intact old x → Gives c t Good (f x) out) :
    Gives c t Good (Block.look >>= f) out :=
  fun l x k hgood hk herror => h x (hs.intact hgood) l x k hgood hk herror

theorem pause : Gives c t Good Block.pause (· = .ok ()) :=
  fun _ _ _ hgood hk _ => hs.pause hgood fun l' x' hgood' => hk () l' x' hgood' rfl

theorem note (event : Event) : Gives c t Good (Block.change (·.note event)) (· = .ok ()) :=
  fun l x _ hgood hk _ => hk () l _ (hs.report hgood x.records x.calls _) rfl

theorem trace (debug : Bool) (logger text : String) :
    Gives c t Good (trace debug logger text) (· = .ok ()) := by
  rw [Hub.trace]
  split
  · exact fun l x _ hgood hk _ => hk () l _ (hs.report hgood _ x.calls x.history) rfl
  · exact .pure rfl

theorem warn (debug : Bool) (logger text : String) :
    Gives c t Good (warn debug logger text) (· = .ok ()) := by
  rw [Hub.warn]
  split
  · exact fun l x _ hgood hk _ => hk () l _ (hs.report hgood _ x.calls x.history) rfl
  · exact .pure rfl

end Gives

theorem gives_after {α : Type} {before : Block K X Unit} {b : Unit → Block K X α}
    {out : Except Failure α → Prop} (hbefore : Gives c t Good before (· = .ok ()))
    (h : Gives c t Good (b ()) out) : Gives c t Good (before >>= b) out :=
  hbefore.bind (fun _ _ => h) (by rintro e ⟨⟩)

section Prepare

variable (hs : Setting c old t Good)
include hs

theorem gives_readSource {r : Request} (hlocation : r.fromLocation) :
    Gives c t Good (readSource m.settings r) (· = loaded m.settings old r) := by
  apply gives_after (.trace hs _ _ _)
  apply Gives.look hs
  intro x hx
  rw [hx.world, hx.root, loaded, if_pos hlocation, Source.load]
  apply (Gives.ofExcept _).bind
  · intro plan hplan
    apply gives_after (.pause hs)
    apply Gives.look hs
    intro x' hx'
    have hreport : Gives c t Good (Block.change fun s =>
        { s with
          records := s.records ++ (plan.read m.settings.sources x'.world).records
          calls := s.calls ++ (plan.read m.settings.sources x'.world).calls }) (· = .ok ()) :=
      fun l x _ hgood hk _ => hk () l _ (hs.report hgood _ _ x.history) rfl
    apply gives_after hreport
    rw [hx'.world, ← hplan]
    apply (Gives.ofExcept _).bind
    · intro text htext
      apply Gives.pure
      dsimp only
      rw [← htext]
      rfl
    · intro e he
      dsimp only
      rw [← he]
      rfl
  · intro e he
    rw [← he]
    rfl

theorem gives_prepare (a : Ask) (parent : Option Request) :
    Gives c t Good (prepare m.settings a parent)
      (· = (requestOf a.mode a.options m.settings.inlineStart (Request.depthBelow parent)).bind
        (readied m old)) := by
  rw [prepare]
  split
  · next e he =>
    rw [he]
    split
    · exact gives_after (.warn hs _ _ _) (.fail rfl)
    · exact .fail rfl
  · next r hr =>
    rw [hr, Except.bind]
    apply gives_after (.note hs _)
    apply Gives.look hs
    intro x hx
    rw [hx.memo, readied]
    cases if r.allowCache then (old.memo r.mode).get? r.key else none with
    | some p =>
      apply gives_after (.trace hs _ _ _)
      apply gives_after (.trace hs _ _ _)
      exact .pure rfl
    | none =>
      dsimp only
      have hfresh {r' : Request} (hr' : loaded m.settings old r = .ok r') : Gives c t Good (do
          traceRequest r'
          return Prepared.fresh r') (· = (loaded m.settings old r).map Prepared.fresh) := by
        apply gives_after (.trace hs _ _ _)
        apply Gives.pure
        rw [hr']
        rfl
      split
      · next hlocation =>
        apply (gives_readSource hs hlocation).bind
        · exact fun r' hr' => hfresh hr'.symm
        · intro e he
          rw [← he]
          rfl
      · next hlocation => exact hfresh (by rw [loaded, if_neg hlocation])

theorem gives_lookUp (r : Request) : Gives c t Good (lookUp r)
    (· = (compiler? old.registry r).elim (.error (missing r)) .ok) := by
  apply Gives.look hs
  intro x hx
  rw [hx.registry, compiler?, missing]
  cases r.mode with
  | transpile =>
    dsimp only
    split
    · next k hk =>
      rw [hk]
      exact .pure rfl
    · next hk =>
      rw [hk]
      exact gives_after (.warn hs _ _ _) (.fail rfl)
  | interpret =>
    dsimp only
    split
    · next k hk =>
      rw [hk]
      exact .pure rfl
    · next hk =>
      rw [hk]
      exact gives_after (.warn hs _ _ _) (.fail rfl)

end Prepare

end Polyglot.Hub
