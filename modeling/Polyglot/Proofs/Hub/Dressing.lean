import Polyglot.Compiler.Builtin
import Polyglot.Proofs.Hub.Errand
import Polyglot.Proofs.Hub.Inflight
import Polyglot.Proofs.Style.Heads

/-!
What becomes of the styles of a component: when its value has been made, and not before, they go to the
head that the request has chosen, or are left to the caller.
-/

namespace Polyglot

open Loop

variable {K X : Type}

namespace Component

section Heeds

variable {b : Hub.Habit K X} {h : Hub.Settings} {r : Request} {tail : Call.Tail X}
variable (herror : ∀ e, tail.ends (.error e))
include herror

theorem heeds_scope (d : Document) {next : Document → Call X} (hnext : ∀ d, (next d).Heeds b h tail) :
    (scope d next).Heeds b h tail := by
  rw [scope]
  split
  · exact hnext d
  · dsimp only
    split
    · split
      · exact hnext d
      · exact herror _
    · refine ⟨?_, herror, fun _ => hnext _⟩
      intro a ha
      obtain ⟨region, _, hpart⟩ := List.mem_map.mp ha
      rw [scopePart] at hpart
      split at hpart <;> cases hpart

theorem heeds_prepare (hregions : ∀ region a, regionPart h r region = .ask a → b.Asks h a)
    {next : Document → Call X} (hnext : ∀ d, (next d).Heeds b h tail) :
    (prepare h r next).Heeds b h tail := by
  rw [prepare]
  split
  · exact herror _
  · have hjoin (d : Document) : (Call.join (d.regions.map (regionPart h r)) fun results =>
        scope (fillRegions d results) next).Heeds b h tail := by
      refine ⟨?_, herror, fun _ => heeds_scope herror _ hnext⟩
      intro a ha
      obtain ⟨region, _, hpart⟩ := List.mem_map.mp ha
      exact hregions region a hpart
    dsimp only [trace]
    split
    · exact .inr ⟨fun x => b.report x.inflight _ x.calls x.history, hjoin _⟩
    · exact hjoin _

theorem heeds_interpret (hregions : ∀ region a, regionPart h r region = .ask a → b.Asks h a)
    (hscript : ∀ content, b.Asks h (scriptAsk h r content))
    (hassemble : ∀ d exports, (assemble r d exports : Call X).Heeds b h tail) :
    (Builtin.componentValue.perform r : Call X).Heeds b h tail := by
  intro view hview
  dsimp only
  rw [hview]
  apply heeds_prepare herror hregions
  intro d
  split
  · exact hassemble d _
  · exact ⟨hscript _, herror, fun _ => hassemble d _⟩

end Heeds

end Component

namespace Hub

open Component (styleTarget documentHead)

theorem head_setHead (x : State K X) (id id' : Nat) (h : Style.Head) :
    (x.setHead id h).head id' = if id' = id then h else x.head id' := by
  rw [State.head, State.setHead]
  dsimp only
  rw [Table.get?_set]
  by_cases hid : id' = id
  · simp [hid]
  · simp [hid, State.head]

theorem head_appendStyles (x : State K X) (id id' : Nat) (sheets : List String) :
    (x.appendStyles id sheets).head id' =
      if id' = id then (x.head id).appendAll sheets else x.head id' :=
  head_setHead x id id' _

theorem head_setMemo (x : State K X) (mode : Mode) (memo : Memo Payload) (id : Nat) :
    (x.setMemo mode memo).head id = x.head id := by
  cases mode <;> rfl

theorem registry_setMemo (x : State K X) (mode : Mode) (memo : Memo Payload) :
    (x.setMemo mode memo).registry = x.registry := by
  cases mode <;> rfl

/--
All heads are the same.
-/
def SameHeads (x x' : State K X) : Prop := ∀ id, x'.head id = x.head id

/--
A component has come to its value, and its styles have gone to the head that the request has chosen, or
to none if they are left to the caller. What is no head can take no styles.
-/
def Dressed (e : Envelope) (x x' : State K X) : Prop :=
  ∃ exports name parts, e.payload = .value (.component exports name parts) ∧
    match styleTarget e.request.executerOptions with
    | .error _ => False
    | .ok .caller => parts.pendingHead = some documentHead ∧ SameHeads x x'
    | .ok (.head id) => parts.pendingHead = none ∧ x'.head id = (x.head id).appendAll parts.styles ∧
      ∀ id' ≠ id, x'.head id' = x.head id'
    | .ok .unusable => parts.pendingHead = none ∧ parts.styles = [] ∧ SameHeads x x'

/--
The result of a request as it has been worked out, with its text, and with the options that it came with.
-/
def WorkedOut (m : Machine K X) (a : Ask) (e : Envelope) : Prop :=
  ∃ r source, requestOf a.mode a.options m.settings.inlineStart 0 = .ok r ∧ e.request = { r with source }

/--
What requests do to a hub by their habit adds up.
-/
structure Habit.Adds (b : Habit K X) : Prop where
  refl : ∀ x, b.moves x x
  trans : ∀ {x x' x''}, b.moves x x' → b.moves x' x'' → b.moves x x''

variable {b : Habit K X} {m : Machine K X} {a : Ask} {old x x' : State K X} {r : Request} {k : K}

theorem Habit.Adds.keep (hb : b.Adds) {e : Envelope} (hright : e.request.allowCache → b.right e.request)
    (hsees : b.sees x) : b.sees (x.keep e) ∧ b.moves x (x.keep e) := by
  rw [State.keep]
  split
  · next hkeeps =>
    have hcache : e.request.allowCache := (Bool.and_eq_true_iff.mp hkeeps).1
    exact b.keep e.payload (hright hcache) hcache hsees
  · exact ⟨hsees, hb.refl x⟩

def keeping (hb : b.Adds) (old : State K X) : Account K X where
  toHabit := b
  tells
    | .going, x => b.moves old x
    | .called o, x => b.moves old x ∧ b.frame.Fine o
    | .closed _, x => b.moves old x
  stable := by
    intro p x x' hmoves
    cases p with
    | called o => exact And.imp_left fun h => hb.trans h hmoves
    | _ => exact fun h => hb.trans h hmoves

/--
A request to a hub at rest keeps to a habit, if it is right and the compilers of the hub keep to it.
-/
theorem keeping_covers (hb : b.Adds) (hold : old.inflight = {}) (hsees : b.sees old) (hbinds : b.Binds m)
    (hright : ∀ r, outset m old a = .ok (.fresh r) → b.right r) : (keeping hb old).Covers m old a where
  idle := hold
  sees := hsees
  going := hb.refl old
  binds := hbinds
  heeds r k hready hk := by
    apply (hbinds hsees (hright r hready) hk).ends
    exact fun c x _ hx => ⟨hx, handed_right (hright r hready) c⟩
  cancelled x _ hx := ⟨hx, b.frame.fine_error _⟩
  fails := id
  hits _ := id
  refuses _ := And.left
  returns := by
    rintro o e x hreceived hsees ⟨hx, hfine⟩
    obtain ⟨e', rfl, heq⟩ := request_of_received hreceived
    obtain ⟨hsees', hmoves⟩ := hb.keep (e := e) (fun _ => heq ▸ hfine _ rfl _ rfl) hsees
    exact ⟨hsees', hb.trans hx hmoves⟩

def Dresses (b : Habit K X) (m : Machine K X) (a : Ask) (old : State K X) : Outcome → State K X → Prop
  | .error _, x => b.moves old x
  | .ok none, _ => False
  | .ok (some e), x => WorkedOut m a e ∧
    ∃ x₁ x₂, b.sees x₁ ∧ b.moves old x₁ ∧ Dressed e x₁ x₂ ∧ b.moves x₂ x

def dressing (hb : b.Adds) (m : Machine K X) (a : Ask) (old : State K X) : Account K X where
  toHabit := b
  tells
    | .going, x => b.moves old x
    | .called o, x => Dresses b m a old o x
    | .closed o, x => Dresses b m a old o x
  stable := by
    have hdresses {o : Outcome} {x x' : State K X} (hmoves : b.moves x x') (h : Dresses b m a old o x) :
        Dresses b m a old o x' := by
      rcases o with _ | _ | e
      · exact hb.trans h hmoves
      · exact h
      · obtain ⟨hworked, x₁, x₂, hsees, hmoves₁, hdressed, hmoves₂⟩ := h
        exact ⟨hworked, x₁, x₂, hsees, hmoves₁, hdressed, hb.trans hmoves₂ hmoves⟩
    intro p x x' hmoves
    cases p with
    | going => exact fun h => hb.trans h hmoves
    | called o => exact hdresses hmoves
    | closed o => exact hdresses hmoves

theorem received_interpret (e : Envelope) : received .interpret (.ok (some e)) = .ok e := by
  rcases e with ⟨request, _ | _⟩ <;> rfl

/--
What is asked for is the value of a component.
-/
structure AsksComponent (m : Machine K X) (x : State K X) (a : Ask) : Prop where
  mode : a.mode = .interpret
  component : ∀ r k, requestOf a.mode a.options m.settings.inlineStart 0 = .ok r →
    compiler? x.registry r = some k → ∀ r, m.perform k r = Builtin.componentValue.perform r

theorem AsksComponent.of_found (hmode : a.mode = .interpret)
    (hr : requestOf a.mode a.options m.settings.inlineStart 0 = .ok r)
    (hk : compiler? x.registry r = some k)
    (hcomponent : ∀ r, m.perform k r = Builtin.componentValue.perform r) :
    AsksComponent m x a where
  mode := hmode
  component r' k' hr' hk' := by
    cases hr.symm.trans hr'
    cases hk.symm.trans hk'
    exact hcomponent

/--
The value of a component is asked for which is not there already, of a hub at rest. The habit of what the
component asks for takes heads as they come.
-/
structure Wants (b : Habit K X) (m : Machine K X) (old : State K X) (a : Ask) : Prop where
  asks : AsksComponent m old a
  idle : old.inflight = {}
  sees : b.sees old
  adds : b.Adds
  binds : b.Binds m
  append : ∀ {x} id sheets, b.sees x → b.sees (x.appendStyles id sheets)
  fresh : ∀ e, outset m old a ≠ .ok (.hit e)
  right : ∀ r, requestOf a.mode a.options m.settings.inlineStart 0 = .ok r → r.allowCache → b.right r
  regions : ∀ r region a, Component.regionPart m.settings r region = .ask a → b.Asks m.settings a
  script : ∀ r content, b.Asks m.settings (Component.scriptAsk m.settings r content)

namespace Wants

variable (h : Wants b m old a)
include h

theorem heeds_assemble (hr : ∀ v, WorkedOut m a ⟨r, .value v⟩) (d : Component.Document) (exports : Value) :
    (Component.assemble r d exports : Call X).Heeds b m.settings ((dressing h.adds m a old).tail r) := by
  have hanswer {v : Value} {x x' : State K X} (hsees : b.sees x) (hx : b.moves old x)
      (hdressed : Dressed ⟨r, .value v⟩ x x') : Dresses b m a old
        (handed r (.ok (v, r.compilerOptions, r.executerOptions))) x' :=
    ⟨hr v, x, x', hsees, hx, hdressed, h.adds.refl x'⟩
  rw [Component.assemble]
  dsimp only
  split
  · exact fun x _ hx => hx
  · next htarget =>
    intro x hsees hx
    apply hanswer hsees hx
    refine ⟨_, _, _, rfl, ?_⟩
    simp only [htarget]
    exact ⟨trivial, fun _ => rfl⟩
  · next id htarget =>
    refine .inl ⟨_, _, _, rfl, fun x hsees hx => ⟨h.append _ _ hsees, ?_⟩⟩
    apply hanswer hsees hx
    refine ⟨_, _, _, rfl, ?_⟩
    simp only [htarget]
    refine ⟨trivial, ?_, fun id' hne => ?_⟩
    · rw [State.apply, head_appendStyles, if_pos rfl]
    · rw [State.apply, head_appendStyles, if_neg hne]
  · next htarget =>
    split
    · next hempty =>
      intro x hsees hx
      apply hanswer hsees hx
      refine ⟨_, _, _, rfl, ?_⟩
      simp only [htarget]
      exact ⟨trivial, List.isEmpty_iff.mp hempty, fun _ => rfl⟩
    · exact fun x _ hx => hx

theorem covers : (dressing h.adds m a old).Covers m old a where
  idle := h.idle
  sees := h.sees
  going := h.adds.refl old
  binds := h.binds
  heeds r k hready hk := by
    obtain ⟨r₀, source, hr₀, rfl, _⟩ := fresh_of_ready hready
    rw [h.asks.component r₀ k hr₀ hk]
    apply Component.heeds_interpret (fun e x _ hx => hx) (h.regions _) (h.script _)
    exact h.heeds_assemble fun _ => ⟨r₀, source, hr₀, rfl⟩
  cancelled _ _ hx := hx
  fails hx := hx
  hits hhit := absurd hhit (h.fresh _)
  refuses := by
    rintro (_ | _ | e) e' x hreceived hx
    · exact hx
    · exact hx.elim
    · rw [h.asks.mode, received_interpret] at hreceived
      cases hreceived
  returns := by
    rintro (_ | _ | e) e' x hreceived hsees hx
    · cases hreceived
    · cases hreceived
    · rw [h.asks.mode, received_interpret] at hreceived
      cases hreceived
      have hright : e.request.allowCache → b.right e.request := by
        obtain ⟨r, source, hr, heq⟩ := hx.1
        rw [heq]
        exact fun hcache => b.like source _ _ r.cacheHit (h.right r hr hcache)
      obtain ⟨hsees', hmoves⟩ := h.adds.keep hright hsees
      exact ⟨hsees', (dressing h.adds m a old).stable (p := .closed _) hmoves hx⟩

end Wants

end Hub

end Polyglot
