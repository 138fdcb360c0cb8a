import Polyglot.Proofs.Hub.Depth
import Polyglot.Proofs.Hub.Dressing
import Polyglot.Proofs.Registry.Flat

/-!
Heads in the life of a hub: after any row of requests for components that may not be kept, of insertions
of styles that were left to the caller, and of clears, each head lists what has come to it since it was
cleared, each text once and where it first came.
-/

namespace Polyglot

open Loop

variable {K X : Type}

theorem Hub.inputLang_of_requestOf {mode : Mode} {es : Fields} {start : String} {depth : Nat} {r : Request}
    {lang : String} (hlang : Value.find? es (languageKey mode) = some (.str lang))
    (h : requestOf mode (.map es) start depth = .ok r) : r.inputLang = lang := by
  obtain ⟨w, hw, h⟩ := bind_eq_ok.mp h
  rw [mapError_eq_ok] at hw
  have hinput : w.input = some lang := by
    obtain ⟨_, _, hw⟩ := bind_eq_ok.mp hw
    obtain ⟨_, _, hw⟩ := bind_eq_ok.mp hw
    obtain ⟨_, _, hw⟩ := bind_eq_ok.mp hw
    obtain ⟨input, hinput, hw⟩ := bind_eq_ok.mp hw
    obtain ⟨_, _, hw⟩ := bind_eq_ok.mp hw
    cases hw
    rw [languageOption, hlang, Option.getD_some, mapError_eq_ok] at hinput
    obtain ⟨name, hname, rfl⟩ := map_eq_ok.mp hinput
    rw [Language.ofValue] at hname
    split at hname <;> cases hname
    rfl
  obtain ⟨source, -, rfl⟩ | ⟨location, found, -, hfound, rfl⟩ := Wish.request_cases h
  · simp [hinput]
  · rw [Wish.language, hinput] at hfound
    exact (Except.ok.inj hfound).symm

theorem Builtin.transpiler?_registry (i o : String) :
    (Builtin.registry id).transpiler? i o ≠ some .componentValue := by
  have hfold (ls : List (String × String × Builtin)) {registry : Registry Builtin}
      (hregistry : registry.transpiler? i o ≠ some .componentValue)
      (hls : ∀ l ∈ ls, l.2.2 ≠ .componentValue) :
      (ls.foldl (fun r l => r.setTranspiler l.1 l.2.1 (id l.2.2)) registry).transpiler? i o ≠
        some .componentValue := by
    induction ls generalizing registry with
    | nil => exact hregistry
    | cons l ls ih =>
      apply ih _ fun l hl => hls l (List.mem_cons_of_mem _ hl)
      rw [Registry.transpiler?_setTranspiler]
      split
      · simpa using hls l List.mem_cons_self
      · exact hregistry
  exact hfold transpilers (by rintro ⟨⟩) (by decide)

namespace Component

variable {h : Hub.Settings} {r : Request}

theorem mode_regionPart {region : Region} {a : Ask} (ha : regionPart h r region = .ask a) :
    a.mode = .transpile := by
  simp only [regionPart] at ha
  split at ha
  · split at ha <;> cases ha
    rfl
  · split at ha <;> cases ha
    rfl

theorem inputLang_scriptAsk {content start : String} {depth : Nat} {r' : Request}
    (hr : Hub.requestOf (scriptAsk h r content).mode (scriptAsk h r content).options start depth = .ok r') :
    r'.inputLang = h.component.logic := by
  apply Hub.inputLang_of_requestOf _ hr
  simp [Value.ofFields, Hub.languageKey, scriptAsk, Value.find?, Value.isText]

end Component

namespace Hub

open Component (styleTarget documentHead)

/--
Kinds of requests: what is to be done, from which language, and to which.
-/
abbrev Kinds := Mode → String → Option String → Prop

def Kinds.Of (kinds : Kinds) (r : Request) : Prop := kinds r.mode r.inputLang r.outputLang

def beneath (h : Settings) : Kinds := fun mode input _ => mode = .transpile ∨ input = h.component.logic

def aside (kinds : Kinds) (x₀ : State K X) : Habit K X where
  sees x := ∀ r k, kinds.Of r → compiler? x.registry r = some k → compiler? x₀.registry r = some k
  moves := SameHeads
  right := kinds.Of
  report _ _ _ _ hsees := ⟨hsees, fun _ => rfl⟩
  keep _ _ _ hsees := by
    rw [registry_setMemo]
    exact ⟨hsees, head_setMemo _ _ _⟩
  like _ _ _ _ := id

/--
The compilers that a hub has for some kinds of requests, among them those beneath components, touch no
head, and ask only for requests of these kinds.
-/
structure Modest (m : Machine K X) (x : State K X) (kinds : Kinds) : Prop where
  beneath : ∀ mode input output, beneath m.settings mode input output → kinds mode input output
  heeds : ∀ r k, kinds.Of r → compiler? x.registry r = some k →
    (m.perform k r).Heeds (aside kinds x) m.settings .any

/--
The texts that come to a head with what a request has come to.
-/
def brought (o : Outcome) (id : Nat) : List String :=
  match o with
  | .ok (some ⟨r, .value (.component _ _ parts)⟩) =>
    match styleTarget r.executerOptions with
    | .ok (.head id') => if id = id' then parts.styles else []
    | _ => []
  | _ => []

def inserted (parts : ComponentParts) (target : Option Nat) (id : Nat) : List String :=
  if parts.pendingHead.map target.getD = some id then parts.styles else []

/--
A hub with what has come to each head since it was cleared.
-/
inductive HeadLog (m : Machine K X) (x₀ : State K X) : (Nat → List String) → State K X → Prop where
  | start {log : Nat → List String} (h : ∀ id, x₀.head id = .ofLog (log id)) : HeadLog m x₀ log x₀
  | call {log : Nat → List String} {x : State K X} {a : Ask} {s : Loop K X} {o : Outcome}
    (h : HeadLog m x₀ log x) (ha : AsksComponent m x a) (hcache : Uncached a)
    (hs : Relation.ReflTransGen Schedule.Fires (Schedule.start x [requestRoutine m a]) s)
    (ho : s.outcome? 0 = some o) : HeadLog m x₀ (fun id => log id ++ brought o id) s.shared
  | insert {log : Nat → List String} {x x' : State K X} {parts : ComponentParts} {target : Option Nat}
    (h : HeadLog m x₀ log x) (hx : x.insertStyles? parts target = some x') :
    HeadLog m x₀ (fun id => log id ++ inserted parts target id) x'
  | clear {log : Nat → List String} {x : State K X} (h : HeadLog m x₀ log x) (id : Nat) :
    HeadLog m x₀ (fun id' => if id' = id then [] else log id') (x.clearHead id)

variable {m : Machine K X} {x₀ x x' : State K X} {log : Nat → List String} {a : Ask} {s : Loop K X}
variable {o : Outcome} {e : Envelope} {kinds : Kinds}

theorem Dressed.head (h : Dressed e x x') (id : Nat) :
    x'.head id = (x.head id).appendAll (brought (.ok (some e)) id) := by
  obtain ⟨exports, name, parts, hpayload, h⟩ := h
  obtain ⟨r, payload⟩ := e
  subst hpayload
  rw [brought]
  dsimp only at h ⊢
  split at h
  · exact h.elim
  · next htarget =>
    rw [htarget]
    exact h.2 id
  · next id' htarget =>
    rw [htarget]
    dsimp only
    split
    · next hid => rw [hid, h.2.1]
    · next hid => exact h.2.2 id hid
  · next htarget =>
    rw [htarget]
    exact h.2.2 id

theorem Dressed.congr {y y' : State K X} (h : Dressed e x x') (hx : SameHeads y x) (hx' : SameHeads x' y') :
    Dressed e y y' := by
  obtain ⟨exports, name, parts, hpayload, h⟩ := h
  refine ⟨exports, name, parts, hpayload, ?_⟩
  split at h
  · exact h
  · exact ⟨h.1, fun id => (hx' id).trans ((h.2 id).trans (hx id))⟩
  · next id _ =>
    refine ⟨h.1, ?_, fun id' hne => (hx' id').trans ((h.2.2 id' hne).trans (hx id'))⟩
    rw [hx' id, h.2.1, hx id]
  · exact ⟨h.1, h.2.1, fun id => (hx' id).trans ((h.2.2 id).trans (hx id))⟩

theorem head_insertStyles {parts : ComponentParts} {target : Option Nat}
    (h : x.insertStyles? parts target = some x') (id : Nat) :
    x'.head id = (x.head id).appendAll (inserted parts target id) := by
  obtain ⟨own, hown, rfl⟩ := Option.map_eq_some_iff.mp h
  rw [head_appendStyles, inserted, hown, Option.map_some]
  by_cases hid : id = target.getD own
  · rw [if_pos hid, if_pos (congrArg some hid.symm), hid]
  · rw [if_neg hid, if_neg fun heq => hid (Option.some.inj heq).symm]
    rfl

theorem aside_adds (kinds : Kinds) (x : State K X) : (aside kinds x).Adds where
  refl _ _ := rfl
  trans h h' id := (h' id).trans (h id)

theorem wants_of_modest (hm : Modest m x₀ kinds) (hidle : x.inflight = {}) (hsees : (aside kinds x₀).sees x)
    (ha : AsksComponent m x a) (hcache : Uncached a) : Wants (aside kinds x₀) m x a where
  asks := ha
  idle := hidle
  sees := hsees
  adds := aside_adds kinds x₀
  binds hsees hr hk := hm.heeds _ _ hr (hsees _ _ hr hk)
  append _ _ hsees := hsees
  fresh e hhit := by
    obtain ⟨r, p, hr, hallow, _⟩ := hit_of_ready hhit
    rw [hcache _ _ r hr] at hallow
    cases hallow
  right r hr hallow := by
    rw [hcache _ _ r hr] at hallow
    cases hallow
  regions r region a ha depth r' hr' := by
    rw [Component.mode_regionPart ha] at hr'
    exact hm.beneath _ _ _ (.inl (made_of_requestOf hr').mode)
  script r content depth r' hr' := hm.beneath _ _ _ (.inr (Component.inputLang_scriptAsk hr'))

theorem call_of_modest (hm : Modest m x₀ kinds) (hidle : x.inflight = {}) (hsees : (aside kinds x₀).sees x)
    (ha : AsksComponent m x a) (hcache : Uncached a)
    (hs : Relation.ReflTransGen Schedule.Fires (Schedule.start x [requestRoutine m a]) s)
    (ho : s.outcome? 0 = some o) : (aside kinds x₀).sees s.shared ∧
      match o with
      | .error _ => SameHeads x s.shared
      | .ok none => False
      | .ok (some e) => WorkedOut m a e ∧ Dressed e x s.shared := by
  have hcovers := (wants_of_modest hm hidle hsees ha hcache).covers
  refine ⟨hcovers.sees_of_fires hs, ?_⟩
  have htold := (hcovers.told hs).1 o ho
  rcases o with _ | _ | e
  · exact htold
  · exact htold
  · obtain ⟨hworked, x₁, x₂, _, hsame₁, hdressed, hsame₂⟩ := htold
    exact ⟨hworked, hdressed.congr hsame₁ hsame₂⟩

structure HeadsFollow (kinds : Kinds) (x₀ : State K X) (log : Nat → List String) (x : State K X) : Prop where
  idle : x.inflight = {}
  sees : (aside kinds x₀).sees x
  heads : ∀ id, x.head id = .ofLog (log id)

theorem headsFollow_of_headLog (hm : Modest m x₀ kinds) (hidle : x₀.inflight = {}) (h : HeadLog m x₀ log x) :
    HeadsFollow kinds x₀ log x := by
  induction h with
  | start hheads => exact ⟨hidle, fun _ _ _ => id, hheads⟩
  | @call log x a s o h ha hcache hs ho ih =>
    obtain ⟨hsees, hcall⟩ := call_of_modest hm ih.idle ih.sees ha hcache hs ho
    refine ⟨inflight_of_ended ih.idle hs ho, hsees, fun id => ?_⟩
    rw [Style.Head.ofLog_append, ← ih.heads]
    rcases o with _ | _ | e
    · exact hcall id
    · exact hcall.elim
    · exact hcall.2.head id
  | @insert log x x' parts target h hx ih =>
    refine ⟨?_, ?_, fun id => ?_⟩
    · obtain ⟨own, _, rfl⟩ := Option.map_eq_some_iff.mp hx
      exact ih.idle
    · obtain ⟨own, _, rfl⟩ := Option.map_eq_some_iff.mp hx
      exact ih.sees
    · rw [Style.Head.ofLog_append, ← ih.heads]
      exact head_insertStyles hx id
  | @clear log x h id ih =>
    refine ⟨ih.idle, ih.sees, fun id' => ?_⟩
    rw [State.clearHead, head_setHead]
    split
    · rfl
    · exact ih.heads id'

/--
In the life of a modest hub in which the values of components are asked for that may not be kept, styles
that were left to the caller are inserted, and heads are cleared, each head lists what has come to it
since it was cleared, in the order in which it first came and no text twice, and has seen exactly what
it lists. A request that fails leaves all heads as they are. One that succeeds brings the styles of its
component that are not listed yet to the end of the head that it has chosen, in their order, and touches
no other; none at all if the styles are left to the caller.
-/
theorem heads_of_headLog (hm : Modest m x₀ kinds) (hidle : x₀.inflight = {}) (h : HeadLog m x₀ log x) :
    (∀ id, (x.head id).styles = (log id).eraseDups ∧ (x.head id).styles.Nodup ∧
      ∀ css, css ∈ (x.head id).seen ↔ css ∈ (x.head id).styles) ∧
    ∀ a, AsksComponent m x a → Uncached a → ∀ s,
      Relation.ReflTransGen Schedule.Fires (Schedule.start x [requestRoutine m a]) s →
      (∀ e, s.outcome? 0 = some (.error e) → SameHeads x s.shared) ∧
      ∀ e?, s.outcome? 0 = some (.ok e?) → ∃ e, e? = some e ∧ WorkedOut m a e ∧ Dressed e x s.shared ∧
        ∀ id, (s.shared.head id).styles = (x.head id).styles ++
          ((brought (.ok (some e)) id).filter (· ∉ (x.head id).styles)).eraseDups := by
  obtain ⟨hrest, hsees, hheads⟩ := headsFollow_of_headLog hm hidle h
  have hsound (id : Nat) : (x.head id).Sound := by
    rw [hheads]
    exact Style.Head.sound_ofLog (log id)
  constructor
  · intro id
    refine ⟨?_, (hsound id).nodup, (hsound id).seen⟩
    rw [hheads, Style.Head.styles_ofLog]
  · intro a ha hcache s hs
    refine ⟨fun e ho => (call_of_modest hm hrest hsees ha hcache hs ho).2, fun e? ho => ?_⟩
    have hcall := (call_of_modest hm hrest hsees ha hcache hs ho).2
    cases e? with
    | none => exact hcall.elim
    | some e =>
      obtain ⟨hworked, hdressed⟩ := hcall
      refine ⟨e, rfl, hworked, hdressed, fun id => ?_⟩
      rw [hdressed.head id, Style.Head.styles_appendAll (hsound id)]

section Builtin

variable {h : Settings}

theorem heeds_ofExcept {α : Type} {b : Habit K X} {result : Except Failure α} {next : α → Call X}
    (hnext : ∀ a, (next a).Heeds b h .any) : (Call.ofExcept result next).Heeds b h .any := by
  cases result with
  | ok a => exact hnext a
  | error e => trivial

theorem heeds_builtin (k : Builtin) (hk : k ≠ .componentValue) (r : Request) :
    (k.perform r : Call X).Heeds (aside (beneath h) x₀) h .any := by
  cases k with
  | componentValue => exact absurd rfl hk
  | passthrough => trivial
  | jinjaToHtml => exact fun _ _ => heeds_ofExcept fun _ => trivial
  | jinjaTemplate => exact fun _ _ => heeds_ofExcept fun _ => trivial
  | componentToHtml =>
    intro view hview
    dsimp only
    rw [hview]
    apply Component.heeds_prepare (fun _ => trivial)
    · intro region a ha depth r' hr'
      rw [Component.mode_regionPart ha] at hr'
      exact .inl (made_of_requestOf hr').mode
    · exact fun _ => trivial
  | _ => exact heeds_ofExcept fun _ => trivial

theorem modest_of_builtin {m : Machine Builtin X} {x : State Builtin X} (hm : m.perform = Builtin.perform)
    (hx : ∀ r, (beneath m.settings).Of r → compiler? x.registry r ≠ some .componentValue) :
    Modest m x (beneath m.settings) where
  beneath _ _ _ := id
  heeds r k hr hk := by
    rw [hm]
    exact heeds_builtin k (by rintro rfl; exact hx r hr hk) r

end Builtin

def house : Machine Builtin Unit where
  perform := Builtin.perform

def houseStart : State Builtin Unit where
  registry := Builtin.registry id
  ext := ()

theorem modest_house : Modest house houseStart (beneath house.settings) := by
  apply modest_of_builtin rfl
  intro r hr
  rw [compiler?]
  split
  · exact Builtin.transpiler?_registry _ _
  · next hmode =>
    obtain hr | hr := hr
    · cases hmode.symm.trans hr
    · rw [hr]
      decide

def stripesAsk : Ask :=
  ⟨.interpret, .ofFields [("source", .str "<style>.b{}</style><style>.a{}</style><style>.b{}</style>"),
    ("lang", .str "vue"), ("allow_cache", .bool false)]⟩

theorem asks_stripes : AsksComponent house houseStart stripesAsk := by
  have hfound : ∃ r, requestOf stripesAsk.mode stripesAsk.options house.settings.inlineStart 0 = .ok r ∧
      compiler? houseStart.registry r = some .componentValue := ⟨_, rfl, rfl⟩
  obtain ⟨r, hr, hk⟩ := hfound
  exact .of_found rfl hr hk fun _ => rfl

theorem uncached_stripes : Uncached stripesAsk := by
  apply Component.uncached_of_find
  simp [Value.find?, Value.isText]

/--
A component with the same style twice brings it to the head of the hub once, where it first stands.
-/
theorem stripes_worn : Modest house houseStart (beneath house.settings) ∧ houseStart.inflight = {} ∧ ∃ log x,
    HeadLog house houseStart log x ∧ log 0 = [".b\x7b\x7d", ".a\x7b\x7d", ".b\x7b\x7d"] ∧
      (x.head 0).styles = [".b\x7b\x7d", ".a\x7b\x7d"] := by
  have hs := Schedule.fires_run (Schedule.start houseStart [requestRoutine house stripesAsk]) 60
  generalize hrun : (Schedule.start houseStart [requestRoutine house stripesAsk]).run 60 = s at hs
  have hbrought : (s.outcome? 0).map (brought · 0) = some [".b\x7b\x7d", ".a\x7b\x7d", ".b\x7b\x7d"] := by
    rw [← hrun]
    decide +kernel
  obtain ⟨o, ho, hlog⟩ := Option.map_eq_some_iff.mp hbrought
  have hstart : HeadLog house houseStart (fun _ => []) houseStart := .start fun _ => rfl
  have hheads := hstart.call asks_stripes uncached_stripes hs ho
  refine ⟨modest_house, rfl, _, _, hheads, hlog, ?_⟩
  rw [((heads_of_headLog modest_house rfl hheads).1 0).1]
  change (brought o 0).eraseDups = _
  rw [hlog]
  decide

def nest : Machine Builtin Unit where
  settings := { component := { logic := "vue" } }
  perform := Builtin.perform

def nestStart : State Builtin Unit where
  registry := (Builtin.registry id).setTranspiler "vue" "vue" .passthrough
  ext := ()

def nestAsk : Ask :=
  ⟨.interpret, .ofFields [("source", .str "<script><style>.n\x7b\x7d</style></script>"), ("lang", .str "vue"),
    ("allow_cache", .bool false), ("executer_options", .map [(.str "style", .str "x")])]⟩

/--
Where a script is a component, its styles have come to the head of the hub before the request for the
outer component fails.
-/
theorem nest_fails : AsksComponent nest nestStart nestAsk ∧ Uncached nestAsk ∧ nestStart.inflight = {} ∧
    ∃ s e, Relation.ReflTransGen Schedule.Fires (Schedule.start nestStart [requestRoutine nest nestAsk]) s ∧
      s.outcome? 0 = some (.error e) ∧ (nestStart.head 0).styles = [] ∧
        (s.shared.head 0).styles = [".n\x7b\x7d"] := by
  have hfound : ∃ r, requestOf nestAsk.mode nestAsk.options nest.settings.inlineStart 0 = .ok r ∧
      compiler? nestStart.registry r = some .componentValue := ⟨_, rfl, rfl⟩
  obtain ⟨r, hr, hk⟩ := hfound
  have huncached : Uncached nestAsk := by
    apply Component.uncached_of_find
    simp [Value.find?, Value.isText]
  refine ⟨.of_found rfl hr hk fun _ => rfl, huncached, rfl,
    (Schedule.start nestStart [requestRoutine nest nestAsk]).run 60, ?_⟩
  have hfails : (((Schedule.start nestStart [requestRoutine nest nestAsk]).run 60).outcome? 0).map
      Except.isOk = some false := by decide +kernel
  obtain ⟨o, ho, hfalse⟩ := Option.map_eq_some_iff.mp hfails
  cases o with
  | ok e => cases hfalse
  | error e => exact ⟨e, Schedule.fires_run _ 60, ho, rfl, by decide +kernel⟩

end Hub

end Polyglot
