import Mathlib.Logic.Relation
import Polyglot.Compiler.Builtin
import Polyglot.Proofs.Component.Scope
import Polyglot.Proofs.Hub.Life
import Polyglot.Proofs.Loop.Rest

/-!
Components that refer to each other, or to themselves: the depth of requests bounds the work that one
request can come to, and a document that needs more levels than are allowed has no result.
-/

namespace Polyglot

namespace Registry

variable {K : Type}

theorem transpiler?_of_erase {registry : Registry K} {input output i o : String} {k : K}
    (h : (registry.eraseTranspiler input output).transpiler? i o = some k) :
    registry.transpiler? i o = some k := by
  rw [eraseTranspiler] at h
  by_cases ho : o = output
  · subst ho
    have hleft : ((registry.inputs o).erase input).get? i = some k := by
      split at h
      · rw [transpiler?, inputs, Table.get?_erase_self] at h
        cases h
      · rw [transpiler?, inputs, Table.get?_set_self] at h
        exact h
    by_cases hi : i = input
    · rw [hi, Table.get?_erase_self] at hleft
      cases hleft
    · rwa [Table.get?_erase_of_ne _ hi] at hleft
  · split at h
    · rwa [transpiler?, inputs, Table.get?_erase_of_ne _ ho] at h
    · rwa [transpiler?, inputs, Table.get?_set_of_ne _ _ ho] at h

end Registry

namespace Hub

open Loop

variable {K X : Type}

theorem requestOf_depth (mode : Mode) (options : Value) (start : String) (depth : Nat) :
    requestOf mode options start depth =
      (requestOf mode options start 0).map fun r => { r with depth } := by
  have hwish (w : Wish) : w.request mode start depth =
      (w.request mode start 0).map fun r => { r with depth } := by
    simp only [Wish.request]
    cases w.origin with
    | inline | torn => rfl
    | location location =>
      dsimp only
      cases w.language mode location <;> rfl
    | nowhere location =>
      dsimp only
      cases w.language mode location.mended <;> rfl
  cases options with
  | map es =>
    simp only [requestOf]
    cases (Wish.ofFields mode es).mapError Failure.argument with
    | error e => rfl
    | ok w => exact hwish w
  | _ => rfl

def ForComponents (m : Machine K X) (k : K) : Prop :=
  (∀ r, m.perform k r = Builtin.componentToHtml.perform r) ∨
    ∀ r, m.perform k r = Builtin.componentValue.perform r

/--
All compilers of a hub but those for components ask for nothing.
-/
def Shallow (m : Machine K X) : Prop :=
  ∀ k, (∀ r, (m.perform k r).AsksOnly fun _ => False) ∨ ForComponents m k

def still (x : State K X) (kept : Mode → String → Payload → Prop) : Scene K where
  fits := fun w root registry => w = x.world ∧ root = x.root ∧
    registry.interpreters = x.registry.interpreters ∧
    ∀ i o k, registry.transpiler? i o = some k → x.registry.transpiler? i o = some k
  kept := kept
  good := fun _ _ => True
  fits_erase := by
    rintro w root registry input output ⟨hw, hroot, hinterpreters, htranspilers⟩
    refine ⟨hw, hroot, ?_, fun i o k hk => htranspilers i o k (Registry.transpiler?_of_erase hk)⟩
    rw [← hinterpreters, Registry.eraseTranspiler]
    split <;> rfl
  good_of_kept := fun _ => trivial
  good_of_suits := fun _ => trivial

def nothing (_ : Mode) (_ : String) (_ : Payload) : Prop := False

variable (m : Machine K X) (x : State K X)

/--
What is asked for at some depth comes to a request with some property, if it comes to one at all.
-/
def Leads (depth : Nat) (a : Ask) (p : Request → Prop) : Prop :=
  ∀ r₀ r, requestOf a.mode a.options m.settings.inlineStart depth = .ok r₀ →
    Loads m (still x nothing) r₀ r → p r

/--
A component refers to a request with some property: one of its regions does, or the run of its script
does whatever text the script is compiled to.
-/
def Refers (r : Request) (p : Request → Prop) : Prop :=
  ∃ k d, compiler? x.registry r = some k ∧ ForComponents m k ∧ Component.read r.text = .ok d ∧
    ((∃ region ∈ d.regions, ∃ a, Component.regionPart m.settings r region = .ask a ∧
      Leads m x (r.depth + 1) a p) ∨
      (∀ r, m.perform k r = Builtin.componentValue.perform r) ∧ ∀ left results,
        List.Forall₂ (Part.Yields (Served m (still x nothing) left (some r)))
          (d.regions.map (Component.regionPart m.settings r)) results →
        ∃ script, (Component.fillRegions d results).script = some script ∧
          Text.allBlank script.content.toList = false ∧
          Leads m x (r.depth + 1) (Component.scriptAsk m.settings r script.content) p)

/--
A request stands at the top of a branch of so many requests below it, unless the branch breaks off at
something that no request can be made of.
-/
def Branch : Nat → Request → Prop
  | 0, _ => True
  | n + 1, r => Refers m x r (Branch n)

variable {m x}

theorem Refers.mono {r : Request} {p q : Request → Prop} (h : Refers m x r p) (hpq : ∀ r, p r → q r) :
    Refers m x r q := by
  have hleads {a : Ask} (h : Leads m x (r.depth + 1) a p) : Leads m x (r.depth + 1) a q := by
    intro r₀ r' hr₀ hloads
    exact hpq r' (h r₀ r' hr₀ hloads)
  obtain ⟨k, d, hk, hcomp, hd, hchild⟩ := h
  refine ⟨k, d, hk, hcomp, hd, ?_⟩
  rcases hchild with ⟨region, hregion, a, ha, hlead⟩ | ⟨hvalue, hscript⟩
  · exact .inl ⟨region, hregion, a, ha, hleads hlead⟩
  · refine .inr ⟨hvalue, ?_⟩
    intro left results hresults
    obtain ⟨script, heq, hblank, hlead⟩ := hscript left results hresults
    exact ⟨script, heq, hblank, hleads hlead⟩

theorem branch_of_cycle {p : Request → Prop} (hcycle : ∀ r, p r → Refers m x r p) (n : Nat)
    {r : Request} (hr : p r) : Branch m x n r := by
  induction n generalizing r with
  | zero => trivial
  | succ n ih => exact (hcycle r hr).mono fun r' hr' => ih hr'

theorem Finds.compiler {kept : Mode → String → Payload → Prop} {r : Request} {k : K}
    (h : Finds (still x kept) r k) : compiler? x.registry r = some k := by
  obtain ⟨w, root, registry, ⟨_, _, hinterpreters, htranspilers⟩, hk⟩ := h
  rw [compiler?] at hk ⊢
  cases hmode : r.mode with
  | transpile =>
    rw [hmode] at hk
    exact htranspilers _ _ _ hk
  | interpret =>
    rw [hmode] at hk
    rw [← hinterpreters]
    exact hk

theorem Shallow.uncached (hm : Shallow m) (k : K) (r : Request) :
    (m.perform k r).AsksOnly Uncached := by
  rcases hm k with hleaf | hcomp | hcomp
  · exact (hleaf r).mono fun _ h => h.elim
  · rw [hcomp]
    intro v
    dsimp only
    split
    · exact Component.asksOnly_transpile fun _ _ => Component.uncached_regionPart
    · trivial
  · rw [hcomp]
    intro v
    dsimp only
    split
    · exact Component.asksOnly_interpret (fun _ _ => Component.uncached_regionPart)
        Component.uncached_scriptAsk
    · trivial

theorem works_of_served {c : Scene K} {left : Nat} {parent : Option Request} {a : Ask} {e : Envelope}
    (ha : Uncached a) (h : Served m c left parent a e) :
    ∃ below, left = below + 1 ∧ Works m c (fun r => Served m c below (some r)) parent a e := by
  have hno : ¬ Recalls m c parent a e := by
    rintro ⟨r, hr, hcache, _⟩
    rw [ha _ _ r hr] at hcache
    cases hcache
  cases left with
  | zero => exact absurd h hno
  | succ below => exact ⟨below, rfl, h.resolve_left hno⟩

theorem Served.fresh (hm : Shallow m) {kept kept' : Mode → String → Payload → Prop} {left : Nat}
    {parent : Option Request} {a : Ask} {e : Envelope} (ha : Uncached a)
    (h : Served m (still x kept) left parent a e) : Served m (still x kept') left parent a e := by
  induction left generalizing parent a e with
  | zero =>
    obtain ⟨below, hlevel, _⟩ := works_of_served ha h
    cases hlevel
  | succ left ih =>
    obtain ⟨_, ⟨⟩, r, r', k, hr, hloads, hk, v, compilerOptions, executerOptions, p, hy, hp, heq⟩ :=
      works_of_served ha h
    refine .inr ⟨r, r', k, hr, hloads, hk, v, compilerOptions, executerOptions, p, ?_, hp, heq⟩
    have hbelow (a : Ask) (e : Envelope) (ha : Uncached a)
        (he : Served m (still x kept) left (some r') a e) :
        Served m (still x kept') left (some r') a e := ih ha he
    exact Call.Yields.mono hbelow (hm.uncached k r') hy

theorem fresh_regions (hm : Shallow m) {kept kept' : Mode → String → Payload → Prop} {left : Nat}
    {r : Request} {regions : List Component.Region} {results : List (Option Envelope)}
    (h : List.Forall₂ (Part.Yields (Served m (still x kept) left (some r)))
      (regions.map (Component.regionPart m.settings r)) results) :
    List.Forall₂ (Part.Yields (Served m (still x kept') left (some r)))
      (regions.map (Component.regionPart m.settings r)) results := by
  apply forall₂_imp_of_mem h
  intro part result hpart hy
  obtain ⟨region, _, rfl⟩ := List.mem_map.mp hpart
  cases hp : Component.regionPart m.settings r region with
  | ask a =>
    rw [hp] at hy
    obtain ⟨e, rfl, he⟩ := hy
    exact ⟨e, rfl, he.fresh hm (Component.uncached_regionPart hp)⟩
  | done =>
    rw [hp] at hy
    exact hy
  | failed e =>
    rw [hp] at hy
    exact hy

theorem Refers.served (hm : Shallow m) {kept : Mode → String → Payload → Prop} {left : Nat}
    {r : Request} {k : K} {e : Envelope} {p : Request → Prop} (h : Refers m x r p)
    (hk : Finds (still x kept) r k)
    (he : Computes m (still x kept) (Served m (still x kept) left (some r)) k r e) :
    ∃ a e', Uncached a ∧ Served m (still x kept) left (some r) a e' ∧
      Leads m x (r.depth + 1) a p := by
  obtain ⟨k', d, hk', hcomp, hd, hchild⟩ := h
  obtain rfl := Option.some.inj (hk.compiler.symm.trans hk')
  obtain ⟨v, compilerOptions, executerOptions, _, hy, _, _⟩ := he
  rcases hchild with ⟨region, hregion, a, ha, hlead⟩ | ⟨hvalue, hscript⟩
  · have hregions {next : Component.Document → Call X}
        (hy : (Component.prepare m.settings r next).Yields (Sees m (still x kept))
          (Served m (still x kept) left (some r)) v compilerOptions executerOptions) :
        ∃ a e', Uncached a ∧ Served m (still x kept) left (some r) a e' ∧
      Leads m x (r.depth + 1) a p := by
      obtain ⟨d', results, hd', hresults, _⟩ := Component.yields_prepare hy
      obtain rfl := Except.ok.inj (hd.symm.trans hd')
      obtain ⟨result, hresult⟩ := of_forall₂_map hresults hregion
      rw [ha] at hresult
      obtain ⟨e', _, he'⟩ := hresult
      exact ⟨a, e', Component.uncached_regionPart ha, he', hlead⟩
    rcases hcomp with hcomp | hcomp
    · rw [hcomp] at hy
      obtain ⟨view, ⟨hhub, _⟩, hy⟩ := hy
      simp only [hhub] at hy
      exact hregions hy
    · rw [hcomp] at hy
      obtain ⟨view, ⟨hhub, _⟩, hy⟩ := hy
      simp only [hhub] at hy
      exact hregions hy
  · rw [hvalue] at hy
    obtain ⟨view, ⟨hhub, _⟩, hy⟩ := hy
    simp only [hhub] at hy
    obtain ⟨d', results, hd', hresults, hy⟩ := Component.yields_prepare hy
    obtain rfl := Except.ok.inj (hd.symm.trans hd')
    obtain ⟨script, heq, hblank, hlead⟩ := hscript left results (fresh_regions hm hresults)
    obtain ⟨d', hd', hy⟩ := Component.yields_scope hy
    have hfilter : (d'.script.filter fun s => !Text.allBlank s.content.toList) = some script := by
      rw [hd'.script.trans heq, Option.filter_some, hblank]
      rfl
    rw [hfilter] at hy
    obtain ⟨e', he', _⟩ := hy
    exact ⟨_, e', Component.uncached_scriptAsk _, he', hlead⟩

theorem branch_le (hm : Shallow m) {kept : Mode → String → Payload → Prop} {left n : Nat}
    {parent : Option Request} {a : Ask} {e : Envelope}
    (h : Works m (still x kept) (fun r => Served m (still x kept) left (some r)) parent a e)
    (hbranch : Leads m x (Request.depthBelow parent) a (Branch m x n)) : n ≤ left := by
  induction n generalizing left parent a e with
  | zero => exact Nat.zero_le _
  | succ n ih =>
    obtain ⟨r₀, r, k, hr₀, hloads, hk, he⟩ := h
    obtain ⟨a', e', ha', hserved, hlead⟩ := Refers.served hm (hbranch r₀ r hr₀ hloads) hk he
    obtain ⟨below, rfl, hworks⟩ := works_of_served ha' hserved
    exact Nat.succ_le_succ (ih hworks hlead)

def Deep (m : Machine K X) (x : State K X) (a : Ask) : Prop :=
  ∃ n : Nat, m.settings.maxDepth < n ∧ Leads m x 0 a (Branch m x n)

def spared (m : Machine K X) (x : State K X) (a : Ask) (mode : Mode) (key : String) (_ : Payload) : Prop :=
  ∀ r, requestOf a.mode a.options m.settings.inlineStart 0 = .ok r → r.allowCache → r.mode = mode →
    r.key = key → ¬ Deep m x a

def laterOrder : Order where
  waits := (· < ·)
  later := id

theorem not_deep_of_works (hm : Shallow m) {kept : Mode → String → Payload → Prop} {a : Ask} {below : Nat}
    {e : Envelope} (hlevel : levels m.settings = below + 1)
    (h : Works m (still x kept) (fun r => Served m (still x kept) below (some r)) none a e) :
    ¬ Deep m x a := by
  rintro ⟨n, hn, hbranch⟩
  have hle : n ≤ below := branch_le hm h hbranch
  rw [levels] at hlevel
  omega

theorem not_deep_of_served (hm : Shallow m) {a : Ask} {e : Envelope}
    (h : Served m (still x (spared m x a)) (levels m.settings) none a e) : ¬ Deep m x a := by
  have hrecalls (h : Recalls m (still x (spared m x a)) none a e) : ¬ Deep m x a := by
    obtain ⟨r, hr, hcache, hkept, _⟩ := h
    exact hkept r hr hcache rfl rfl
  cases hlevel : levels m.settings with
  | zero =>
    rw [hlevel] at h
    exact hrecalls h
  | succ below =>
    rw [hlevel] at h
    rcases h with h | h
    · exact hrecalls h
    · exact not_deep_of_works hm hlevel h

def Answering (m : Machine K X) (x : State K X) (a : Ask) (s : Loop K X) : Prop :=
  ∃ ps, s.Upholds (contract m (still x (spared m x a)) x.memo laterOrder) none ps ∧
    Inv m (still x (spared m x a)) x.memo ps s.shared ∧
    ps[0]? = some fun o => ∃ e, o = some e ∧
      Served m (still x (spared m x a)) (levels m.settings) none a e

theorem answering_start (hm : Shallow m) (hhistory : x.history = []) (hinflight : x.inflight = {})
    {a : Ask} (hfresh : ∀ r, requestOf a.mode a.options m.settings.inlineStart 0 = .ok r →
      r.allowCache → (x.memo r.mode).get? r.key = none) :
    Answering m x a (Schedule.start x [requestRoutine m a]) := by
  have hinv : Inv m (still x (spared m x a)) x.memo [] x := by
    refine ⟨⟨rfl, rfl, rfl, fun _ _ _ h => h⟩, ?_, ?_, ?_, ?_, ?_⟩
    · intro mode
      rw [hhistory]
      rfl
    · simp [hhistory]
    · simp [hhistory]
    · rintro mode key p hp r hr hcache rfl rfl
      rw [hfresh r hr hcache] at hp
      cases hp
    · intro mode key u hu
      rw [hinflight] at hu
      cases hu
  have hshares : Shares m (still x (spared m x a)) laterOrder 0 (levels m.settings) none a := by
    refine ⟨fun _ => id, ?_⟩
    intro below e hlevel hworks _ r _ _ _ _
    exact not_deep_of_works hm hlevel hworks
  have hup := (Schedule.upholds_of_empty (ε := Failure)
    (contract m (still x (spared m x a)) x.memo laterOrder) x).spawn
    (requestRoutine m a) (q := fun o => ∃ e, o = some e ∧
      Served m (still x (spared m x a)) (levels m.settings) none a e) (by
        intro ps' x' hps hinv'
        have hrequest : KeepsContract m (still x (spared m x a)) x.memo laterOrder 0 (request m _ none a) _ :=
          .request (fun k r => (hm.uncached k r).mono fun _ => .inl) (Nat.zero_add _) (.inr hshares)
        apply hrequest ps' x' (Nat.lt_of_lt_of_le (by simp) hps.length_le) hinv'
        rintro e ps'' x'' _ ⟨hinv'', he⟩
        refine ⟨hinv'', ?_⟩
        rintro _ ⟨⟩
        exact ⟨e, rfl, he⟩)
  exact ⟨_, hup, hinv.mono List.nil_prefix, rfl⟩

theorem Answering.fires {a : Ask} {s s' : Loop K X} (h : Answering m x a s) (hfires : s.Fires s') :
    Answering m x a s' := by
  obtain ⟨ps, hup, hinv, hq⟩ := h
  obtain ⟨i, _, rfl⟩ := hfires
  obtain ⟨ps', hps, hup', hinv', _⟩ := hup.fireAt hinv i
  refine ⟨ps', hup', hinv', ?_⟩
  obtain ⟨more, rfl⟩ := hps
  rw [List.getElem?_append_left (List.getElem?_eq_some_iff.mp hq).1, hq]

/--
One request to a hub whose compilers ask for nothing but regions of components, for nothing that is
kept. However its ticks are fired, they come to an end, and then the request has ended. All the while
each request stands one level below the one that it is made for, and compilers are called only down to
the deepest level allowed. If the document needs more levels than that, as it does if components refer
to each other in a circle, the request has no result.
-/
theorem depth_of_fires (hm : Shallow m) (hhistory : x.history = []) (hinflight : x.inflight = {})
    {a : Ask} (hfresh : ∀ r, requestOf a.mode a.options m.settings.inlineStart 0 = .ok r →
      r.allowCache → (x.memo r.mode).get? r.key = none) :
    (∀ f : Nat → Loop K X, f 0 = Schedule.start x [requestRoutine m a] →
      ∃ i, ¬ (f i).Fires (f (i + 1))) ∧
    ∀ s, Relation.ReflTransGen Schedule.Fires (Schedule.start x [requestRoutine m a]) s →
      (s.queue = [] → ∃ r, s.outcome? 0 = some r) ∧
      (∀ parent r, .asked (some parent) r ∈ s.shared.history → r.depth = parent.depth + 1) ∧
      (∀ r, .called r ∈ s.shared.history → r.depth ≤ m.settings.maxDepth) ∧
      (∀ n : Nat, m.settings.maxDepth < n → Leads m x 0 a (Branch m x n) →
        ∀ o, s.outcome? 0 ≠ some (.ok o)) ∧
      ∀ p : Request → Prop, (∀ r, p r → Refers m x r p) → Leads m x 0 a p →
        ∀ o, s.outcome? 0 ≠ some (.ok o) := by
  refine ⟨?_, ?_⟩
  · intro f _
    obtain ⟨_, ⟨i, rfl⟩, hmin⟩ := Schedule.wellFounded_fires.has_min (Set.range f) ⟨f 0, 0, rfl⟩
    exact ⟨i, hmin (f (i + 1)) ⟨i + 1, rfl⟩⟩
  · intro s hs
    have hanswering : Answering m x a s := by
      induction hs with
      | refl => exact answering_start hm hhistory hinflight hfresh
      | tail _ hfires ih => exact ih.fires hfires
    obtain ⟨ps, hup, hinv, hq⟩ := hanswering
    have hnone (hdeep : Deep m x a) (o : Option Envelope) : s.outcome? 0 ≠ some (.ok o) := by
      intro ho
      obtain ⟨q, hq', hfit⟩ := hup.fit (by simp) ho
      obtain rfl := Option.some.inj (hq.symm.trans hq')
      obtain ⟨e, _, he⟩ := hfit
      exact not_deep_of_served hm he hdeep
    refine ⟨?_, ?_, ?_, ?_, ?_⟩
    · intro hrest
      apply hup.ended hrest (fun _ _ h => h)
      rw [← hup.length]
      exact (List.getElem?_eq_some_iff.mp hq).1
    · intro parent r hr
      exact (hinv.sound _ hr).2
    · intro r hr
      exact hinv.sound _ hr
    · intro n hn hbranch
      exact hnone ⟨n, hn, hbranch⟩
    · intro p hcycle hp
      apply hnone
      refine ⟨(m.settings.maxDepth + 1).toNat, by omega, ?_⟩
      intro r₀ r hr₀ hloads
      exact branch_of_cycle hcycle _ (hp r₀ r hr₀ hloads)

def tower : Machine Unit Unit where
  settings := { maxDepth := 3 }
  perform := fun _ => Builtin.componentToHtml.perform

def selfish : String := "<template lang='vue' src='self.vue'></template>"

def selfishStart : State Unit Unit where
  registry := ({} : Registry Unit).setTranspiler "vue" "html" ()
  world := { entries := [(["self.vue"], .file (Text.Utf8.encode selfish))] }
  ext := ()

def selfishAsk : Ask :=
  ⟨.transpile, .ofFields [("location", .str "self.vue"), ("input_lang", .str "vue"),
    ("output_lang", .str "html")]⟩

def selfishRequest (source : Option String) (allowCache : Bool) (depth : Nat) : Request where
  mode := .transpile
  location := "self.vue"
  inputLang := "vue"
  outputLang := some "html"
  source := source
  allowCache := allowCache
  fromLocation := true
  depth := depth

def selfishRegion : Component.Region :=
  ⟨.template, "", [("lang", .text "vue"), ("src", .text "self.vue")], 0⟩

def selfishTemplate : Ask :=
  ⟨.transpile, .ofFields [("output_lang", .str "html"), ("debug", .bool false),
    ("allow_cache", .bool false), ("compiler_options", .map []), ("executer_options", .map []),
    ("input_lang", .str "vue"), ("location", .str "self.vue")]⟩

theorem leads_selfish {a : Ask} {allowCache : Bool} (depth : Nat)
    (ha : requestOf a.mode a.options inlineStart 0 = .ok (selfishRequest none allowCache 0)) :
    Leads tower selfishStart depth a fun r => ∃ allowCache depth,
      r = selfishRequest (some selfish) allowCache depth := by
  intro r₀ r hr₀ hloads
  have hr₀' : requestOf a.mode a.options inlineStart depth = .ok r₀ := hr₀
  rw [requestOf_depth, ha] at hr₀'
  cases hr₀'
  rw [Loads, if_pos (by rfl)] at hloads
  obtain ⟨w, root, _, w', _, _, plan, loaded, ⟨rfl, rfl, _⟩, hplan, ⟨rfl, _⟩, hread, rfl⟩ := hloads
  have hplan' : Source.plan selfishStart.world selfishStart.root "self.vue" = .ok plan := hplan
  have htext : (Source.plan selfishStart.world selfishStart.root "self.vue").toOption.bind
      (fun plan => (plan.read tower.settings.sources selfishStart.world).outcome.toOption.map
        Source.Loaded.text) = some selfish := by rfl
  rw [hplan', Except.toOption, Option.bind_some, hread] at htext
  refine ⟨allowCache, depth, ?_⟩
  rw [Option.some.inj htext]
  rfl

theorem read_selfish : Component.read selfish = .ok { template := some selfishRegion } := by
  apply eq_ok_of_toOption
  rfl

theorem regionPart_selfish (allowCache : Bool) (depth : Nat) :
    Component.regionPart tower.settings (selfishRequest (some selfish) allowCache depth)
      selfishRegion = .ask selfishTemplate := by
  have hsrc : selfishRegion.attrs.text? "src" = some "self.vue" := rfl
  have hplace : Component.placeOf tower.settings (selfishRequest (some selfish) allowCache depth) =
      ⟨"self.vue", true, inlineStart⟩ := rfl
  have hresolve : Component.resolve ⟨"self.vue", true, inlineStart⟩ "self.vue" =
      .ok "self.vue" := by
    apply eq_ok_of_toOption
    rfl
  rw [Component.regionPart]
  simp only [hsrc, hplace, hresolve]
  rfl

theorem refers_selfish (allowCache : Bool) (depth : Nat) :
    Refers tower selfishStart (selfishRequest (some selfish) allowCache depth) fun r =>
      ∃ allowCache depth, r = selfishRequest (some selfish) allowCache depth := by
  have hk : compiler? selfishStart.registry (selfishRequest (some selfish) allowCache depth) =
      some () := by rfl
  have hregion : selfishRegion ∈ ({ template := some selfishRegion } : Component.Document).regions :=
    List.mem_singleton_self _
  have hasked : requestOf selfishTemplate.mode selfishTemplate.options inlineStart 0 =
      .ok (selfishRequest none false 0) := by rfl
  exact ⟨(), _, hk, .inl fun _ => rfl, read_selfish, .inl ⟨selfishRegion, hregion, _,
    regionPart_selfish allowCache depth, leads_selfish (depth + 1) hasked⟩⟩

/--
The component comes to an end, and to no result.
-/
theorem selfish_fails : Shallow tower ∧
    ∀ s, Relation.ReflTransGen Schedule.Fires
        (Schedule.start selfishStart [requestRoutine tower selfishAsk]) s →
      (s.queue = [] → ∃ r, s.outcome? 0 = some r) ∧ ∀ o, s.outcome? 0 ≠ some (.ok o) := by
  have hm : Shallow tower := fun _ => .inr (.inl fun _ => rfl)
  refine ⟨hm, ?_⟩
  intro s hs
  have hnone (r : Request) : (selfishStart.memo r.mode).get? r.key = none := by
    cases r.mode <;> rfl
  obtain ⟨hend, _, _, _, hcycle⟩ := (depth_of_fires hm rfl rfl fun r _ _ => hnone r).2 s hs
  have hstart : requestOf selfishAsk.mode selfishAsk.options inlineStart 0 =
      .ok (selfishRequest none true 0) := by rfl
  refine ⟨hend, hcycle _ ?_ (leads_selfish 0 hstart)⟩
  rintro r ⟨allowCache, depth, rfl⟩
  exact refers_selfish allowCache depth

end Hub

end Polyglot
