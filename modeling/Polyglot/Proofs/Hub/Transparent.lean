import Polyglot.Proofs.Hub.Kept
import Polyglot.Proofs.Hub.Plain

/-!
How far a hub's answers show that it keeps results: over any row of requests, one that finds a result
gets what the request that left it there would have got by itself.
-/

namespace Polyglot

open Loop

namespace Value

theorem same_str (k : Value) (s : String) : same k (.str s) = k.isText s := by
  cases k <;> simp [same, isText, ratio?, Bool.beq_comm]

theorem find?_insert (es : Fields) (key key' : String) (v : Value) :
    find? (insert es (.str key) v) key' = if key = key' then some v else find? es key' := by
  induction es with
  | nil =>
    by_cases hkey : key = key'
    · simp [insert, find?, isText, hkey]
    · simp [insert, find?, isText, hkey, Ne.symm hkey]
  | cons e es ih =>
    obtain ⟨k, w⟩ := e
    rw [insert, same_str]
    split
    · next hsame =>
      have hk : k = .str key := by
        cases k <;> simp_all [isText]
      subst hk
      by_cases hkey : key = key'
      · simp [find?, isText, hkey]
      · simp [find?, isText, hkey, Ne.symm hkey]
    · next hsame =>
      by_cases hkey : k.isText key'
      · have hne : key ≠ key' := by
          rintro rfl
          exact hsame hkey
        simp [find?, hkey, hne]
      · simpa [find?, hkey] using ih

end Value

open Hub

/--
A request as it is, but not to be answered with a result that is kept, nor to leave one.
-/
def Ask.uncached (a : Ask) : Ask :=
  ⟨a.mode, mergeOptions (some a.options) [(.str "allow_cache", .bool false)]⟩

namespace Hub

variable {K X : Type}

theorem ofFields_uncached (mode : Mode) (es : Fields) :
    Wish.ofFields mode (Value.insert es (.str "allow_cache") (.bool false)) =
      (Wish.ofFields mode es).map fun w => { w with allowCache := false } := by
  have hfind {key : String} (hkey : "allow_cache" ≠ key) :
      Value.find? (Value.insert es (.str "allow_cache") (.bool false)) key = Value.find? es key := by
    rw [Value.find?_insert, if_neg hkey]
  have hlang : "allow_cache" ≠ languageKey mode := by
    cases mode <;> decide
  have hown : Value.find? (Value.insert es (.str "allow_cache") (.bool false)) "allow_cache" =
      some (.bool false) := by
    rw [Value.find?_insert, if_pos rfl]
  have hoption {key : String} (hkey : "allow_cache" ≠ key) : optionMapping
      (Value.insert es (.str "allow_cache") (.bool false)) key = optionMapping es key := by
    rw [optionMapping, optionMapping, hfind hkey]
  have hlanguage {key : String} (hkey : "allow_cache" ≠ key) : languageOption
      (Value.insert es (.str "allow_cache") (.bool false)) key = languageOption es key := by
    rw [languageOption, languageOption, hfind hkey]
  have houtput : outputOption mode (Value.insert es (.str "allow_cache") (.bool false)) =
      outputOption mode es := by
    cases mode with
    | transpile => rw [outputOption, outputOption, hlanguage (by decide)]
    | interpret => rfl
  have horigin (input : Option String) : originOf mode
      (Value.insert es (.str "allow_cache") (.bool false)) input = originOf mode es input := by
    rw [originOf, originOf, locationOption, locationOption, hfind (by decide), hfind (by decide)]
  rw [Wish.ofFields, Wish.ofFields, hoption (by decide), hoption (by decide), houtput, hlanguage hlang,
    isDebug, isDebug, hfind (by decide), hown]
  cases optionMapping es "compiler_options" with
  | error e => rfl
  | ok compilerOptions =>
    cases optionMapping es "executer_options" with
    | error e => rfl
    | ok executerOptions =>
      cases outputOption mode es with
      | error e => rfl
      | ok output =>
        cases languageOption es (languageKey mode) with
        | error e => rfl
        | ok input =>
          simp only [bind, Except.bind, horigin]
          cases originOf mode es input with
          | error e => rfl
          | ok origin => rfl

theorem request_uncached (w : Wish) (mode : Mode) (start : String) (depth : Nat) :
    Wish.request { w with allowCache := false } mode start depth =
      (w.request mode start depth).map fun r => { r with allowCache := false } := by
  have hlanguage (location : String) :
      Wish.language { w with allowCache := false } mode location = w.language mode location := rfl
  simp only [Wish.request, hlanguage]
  cases w.origin with
  | inline | torn => rfl
  | location location =>
    dsimp only
    cases w.language mode location <;> rfl
  | nowhere location =>
    dsimp only
    cases w.language mode location.mended <;> rfl

theorem requestOf_uncached (a : Ask) (start : String) (depth : Nat) :
    requestOf a.uncached.mode a.uncached.options start depth =
      (requestOf a.mode a.options start depth).map fun r => { r with allowCache := false } := by
  obtain ⟨mode, options⟩ := a
  rw [requestOf.eq_def, requestOf.eq_def, Ask.uncached]
  cases options with
  | map es =>
    simp only [mergeOptions, List.foldl_cons, List.foldl_nil]
    rw [ofFields_uncached]
    cases Wish.ofFields mode es with
    | error e => rfl
    | ok w => exact request_uncached w mode start depth
  | _ => rfl

section Serves

variable {m : Machine K X} {f : K → Matter → Except Failure Value} {x x' : State K X} {a : Ask}

/--
One request is made, and the loop runs until nothing is left to do.
-/
def Serves (m : Machine K X) (x : State K X) (a : Ask) (x' : State K X)
    (answer : Except Failure Envelope) : Prop :=
  ∃ fuel, ((Schedule.start x [requestRoutine m a]).run fuel).queue = [] ∧
    serve m fuel x a = (x', answer)

theorem Serves.unique {x₁ x₂ : State K X} {answer₁ answer₂ : Except Failure Envelope}
    (h₁ : Serves m x a x₁ answer₁) (h₂ : Serves m x a x₂ answer₂) : x₁ = x₂ ∧ answer₁ = answer₂ := by
  obtain ⟨n₁, hrest₁, hserve₁⟩ := h₁
  obtain ⟨n₂, hrest₂, hserve₂⟩ := h₂
  have hsame : (Schedule.start x [requestRoutine m a]).run n₁ =
      (Schedule.start x [requestRoutine m a]).run n₂ := by
    rw [← Schedule.run_of_rest hrest₁ n₂, ← Schedule.run_add, Nat.add_comm, Schedule.run_add,
      Schedule.run_of_rest hrest₂]
  have heq : serve m n₁ x a = serve m n₂ x a := by
    simp only [serve, submit, List.map_cons, List.map_nil, hsame]
  rw [hserve₁, hserve₂] at heq
  exact Prod.mk.inj heq

def resolved (m : Machine K X) (f : K → Matter → Except Failure Value) (x : State K X) (a : Ask) :
    Except Failure Payload :=
  (requestOf a.mode a.options m.settings.inlineStart 0).bind
    (answered m f (levels m.settings) x)

structure Leaves (m : Machine K X) (f : K → Matter → Except Failure Value) (x : State K X) (a : Ask)
    (answer : Except Failure Envelope) (x' : State K X) : Prop where
  payload : answer.map (·.payload) = resolved m f x a
  around : Around x x'
  memo : ∀ mode key, (x'.memo mode).get? key = keptAfter x answer mode key
  request : ∀ e, answer = .ok e →
    ∃ r, requestOf a.mode a.options m.settings.inlineStart 0 = .ok r ∧ Answers r e

theorem serve_eq {n : Nat} {answer : Except Failure Envelope}
    (h : ((Schedule.start x [requestRoutine m a]).run n).outcome? 0 =
      some ((answer.mapError .failed).map some)) :
    serve m n x a = (((Schedule.start x [requestRoutine m a]).run n).shared, answer) := by
  cases answer with
  | ok e => simp [serve, submit, h, Except.map, Except.mapError]
  | error e => simp [serve, submit, h, Except.map, Except.mapError]

theorem Serves.of_gets {post : Except (Stop Failure) Envelope → State K X → Prop}
    (hgets : Block.Gets (request m (levels m.settings) none a) x post)
    (hpost : ∀ o x', post o x' → ∃ answer : Except Failure Envelope, o = answer.mapError .failed) :
    ∃ x' answer, Serves m x a x' answer ∧ post (answer.mapError .failed) x' := by
  obtain ⟨_, n, hended, hrest, ⟨o, ho, rfl⟩⟩ := (hgets.ends (f := some)).start
  obtain ⟨answer, rfl⟩ := hpost o _ ho
  exact ⟨_, answer, ⟨n, hrest, serve_eq hended⟩, ho⟩

theorem exists_serves (hplain : m.Plain f) (hidle : x.inflight = {}) (a : Ask) :
    ∃ x' answer, Serves m x a x' answer ∧ Leaves m f x a answer x' := by
  cases hr : requestOf a.mode a.options m.settings.inlineStart 0 with
  | error e =>
    obtain ⟨x', answer, hserves, hanswer, hsame⟩ := Serves.of_gets (x := x)
      (gets_request_error (levels m.settings) none a hr) fun o x' h => ⟨.error e, h.1⟩
    cases answer with
    | ok e' => cases hanswer
    | error e' =>
      cases hanswer
      refine ⟨x', .error e, hserves, ?_, hsame.toAround, ?_, ?_⟩
      · rw [resolved, hr]
        rfl
      · intro mode key
        rw [hsame.memo]
        rfl
      · rintro _ ⟨⟩
  | ok r =>
    have htold {o : Except (Stop Failure) Envelope} {answer : Except Failure Payload}
        (h : Tells r answer o) : ∃ answer : Except Failure Envelope, o = answer.mapError .failed := by
      rcases h with ⟨e, _, rfl, _⟩ | ⟨e, _, rfl⟩
      · exact ⟨.ok e, rfl⟩
      · exact ⟨.error e, rfl⟩
    obtain ⟨x', answer, hserves, htells, haround, hmemo⟩ := Serves.of_gets
      (gets_request hplain (levels m.settings) none a hidle hr) fun o x' h => htold h.tells
    refine ⟨x', answer, hserves, ?_, haround, ?_, ?_⟩
    · rw [resolved, hr, Except.bind]
      rcases htells with ⟨e, he, ho, _⟩ | ⟨e, he, ho⟩
      · rw [mapError_eq_ok] at ho
        rw [he, ho]
        rfl
      · rw [he]
        cases answer with
        | ok e' => cases ho
        | error e' =>
          cases ho
          rfl
    · intro mode key
      rw [hmemo]
      cases answer <;> rfl
    · rintro e rfl
      refine ⟨r, hr, ?_⟩
      rcases htells with ⟨e', _, ho, hanswers⟩ | ⟨_, _, ho⟩
      · cases ho
        exact hanswers
      · cases ho

end Serves

section Past

/--
A request that has been made: in which state, for what, and with which answer.
-/
structure Turn (K X : Type) where
  state : State K X
  ask : Ask
  answer : Except Failure Envelope

/--
A request that left its result for a key, or found one there.
-/
def Turn.keeps (turn : Turn K X) (mode : Mode) (key : String) : Bool :=
  match turn.answer with
  | .ok e => e.request.allowCache && e.request.mode = mode && e.request.key = key
  | .error _ => false

/--
What may have happened to a hub, one after the other: requests, which are recorded in order, and new
root directories.
-/
inductive Past (m : Machine K X) (x₀ : State K X) : List (Turn K X) → State K X → Prop where
  | new : Past m x₀ [] x₀
  | request {log : List (Turn K X)} {x x' : State K X} {a : Ask} {answer : Except Failure Envelope}
      (h : Past m x₀ log x) (hserves : Serves m x a x' answer) : Past m x₀ (log ++ [⟨x, a, answer⟩]) x'
  | setRoot {log : List (Turn K X)} {x x' : State K X} {root : Value}
      (h : Past m x₀ log x) (hroot : x.setRoot root = .ok x') : Past m x₀ log x'

variable {m : Machine K X} {f : K → Matter → Except Failure Value} {x₀ x x' : State K X} {a : Ask}
variable {log : List (Turn K X)}

/--
A request that worked out the result that is kept under its key.
-/
structure Turn.Left (m : Machine K X) (f : K → Matter → Except Failure Value) (turn : Turn K X)
    (r : Request) (p : Payload) : Prop where
  made : requestOf turn.ask.mode turn.ask.options m.settings.inlineStart 0 = .ok r
  worked : worked m f (levels m.settings) turn.state r = .ok p

/--
What is known of a hub that has a past: each result that is kept comes from the first of all requests
for its key.
-/
structure Bound (m : Machine K X) (f : K → Matter → Except Failure Value) (x₀ : State K X)
    (log : List (Turn K X)) (x : State K X) : Prop where
  world : x.world = x₀.world
  registry : x.registry = x₀.registry
  idle : x.inflight = {}
  kept : ∀ mode key p, (x.memo mode).get? key = some p →
    ∃ turn r, log.find? (·.keeps mode key) = some turn ∧ turn.Left m f r p ∧ r.mode = mode ∧ r.key = key
  new : ∀ mode key, (x.memo mode).get? key = none → log.find? (·.keeps mode key) = none

theorem Turn.keeps_iff {turn : Turn K X} {mode : Mode} {key : String} :
    turn.keeps mode key ↔ ∃ e, turn.answer = .ok e ∧ e.request.allowCache ∧ e.request.mode = mode ∧
      e.request.key = key := by
  rw [keeps]
  cases turn.answer with
  | ok e => simp [and_assoc]
  | error e => simp

theorem resolved_of_new {r : Request} (hr : requestOf a.mode a.options m.settings.inlineStart 0 = .ok r)
    (hnew : r.allowCache → (x.memo r.mode).get? r.key = none) :
    resolved m f x a = worked m f (levels m.settings) x r := by
  rw [resolved, hr, Except.bind, answered]
  split
  · next p hp =>
    obtain ⟨hcache, hp⟩ := Option.ite_none_right_eq_some.mp hp
    rw [hnew hcache] at hp
    cases hp
  · rfl

theorem Bound.request (h : Bound m f x₀ log x) {answer : Except Failure Envelope}
    (hleaves : Leaves m f x a answer x') : Bound m f x₀ (log ++ [⟨x, a, answer⟩]) x' where
  world := hleaves.around.world.trans h.world
  registry := hleaves.around.registry.trans h.registry
  idle := hleaves.around.inflight.trans h.idle
  kept := by
    intro mode key p hp
    rw [hleaves.memo, keptAfter.eq_def] at hp
    have hold (hp : (x.memo mode).get? key = some p) : ∃ turn r,
        (log ++ [(⟨x, a, answer⟩ : Turn K X)]).find? (·.keeps mode key) = some turn ∧ turn.Left m f r p ∧
          r.mode = mode ∧ r.key = key := by
      obtain ⟨turn, r, hfind, hrest⟩ := h.kept mode key p hp
      exact ⟨turn, r, by rw [List.find?_append, hfind]; rfl, hrest⟩
    split at hp
    · next e =>
      split at hp
      · next hown =>
        obtain ⟨hcache, rfl, rfl⟩ := hown
        cases hkept : (x.memo e.request.mode).get? e.request.key with
        | some p' =>
          rw [hkept] at hp
          exact hold (hkept.trans hp)
        | none =>
          rw [hkept] at hp
          cases hp
          obtain ⟨r, hr, hanswers⟩ := hleaves.request e rfl
          have hkeeps : (⟨x, a, .ok e⟩ : Turn K X).keeps e.request.mode e.request.key :=
            Turn.keeps_iff.mpr ⟨e, rfl, hcache, rfl, rfl⟩
          refine ⟨⟨x, a, .ok e⟩, r, ?_, ⟨hr, ?_⟩, hanswers.mode.symm, hanswers.key.symm⟩
          · rw [List.find?_append, h.new _ _ hkept]
            simp [hkeeps]
          · have hpayload := hleaves.payload
            rw [resolved_of_new hr fun _ => by rw [← hanswers.mode, ← hanswers.key, hkept]] at hpayload
            exact hpayload.symm
      · exact hold hp
    · exact hold hp
  new := by
    intro mode key hnone
    rw [hleaves.memo, keptAfter.eq_def] at hnone
    have hnew (hnone : (x.memo mode).get? key = none) (hkeeps : ¬ (⟨x, a, answer⟩ : Turn K X).keeps mode key) :
        (log ++ [(⟨x, a, answer⟩ : Turn K X)]).find? (·.keeps mode key) = none := by
      rw [List.find?_append, h.new mode key hnone]
      simpa using hkeeps
    split at hnone
    · split at hnone
      · cases hnone
      · next hown =>
        apply hnew hnone
        rw [Turn.keeps_iff]
        rintro ⟨_, ⟨⟩, hprops⟩
        exact hown hprops
    · apply hnew hnone
      rw [Turn.keeps_iff]
      rintro ⟨_, ⟨⟩, _⟩

theorem Bound.setRoot (h : Bound m f x₀ log x) {root : Value} (hroot : x.setRoot root = .ok x') :
    Bound m f x₀ log x' := by
  obtain ⟨text, _, rfl⟩ := map_eq_ok.mp hroot
  exact ⟨h.world, h.registry, h.idle, h.kept, h.new⟩

theorem Past.bound (hplain : m.Plain f) (hfresh : Fresh x₀) (h : Past m x₀ log x) :
    Bound m f x₀ log x := by
  induction h with
  | new =>
    refine ⟨rfl, rfl, hfresh.inflight, ?_, fun _ _ _ => rfl⟩
    intro mode key p hp
    cases mode with
    | transpile =>
      rw [State.memo, hfresh.transpiled] at hp
      cases hp
    | interpret =>
      rw [State.memo, hfresh.interpreted] at hp
      cases hp
  | request h hserves ih =>
    obtain ⟨x', answer, hserves', hleaves⟩ := exists_serves hplain ih.idle _
    obtain ⟨rfl, rfl⟩ := hserves.unique hserves'
    exact ih.request hleaves
  | setRoot h hroot ih => exact ih.setRoot hroot

theorem Past.of_mem (h : Past m x₀ log x) {turn : Turn K X} (hturn : turn ∈ log) :
    ∃ log', Past m x₀ log' turn.state := by
  induction h with
  | new => cases hturn
  | @request log x x' a answer h hserves ih =>
    rcases List.mem_append.mp hturn with hturn | hturn
    · exact ih hturn
    · obtain rfl := List.mem_singleton.mp hturn
      exact ⟨log, h⟩
  | setRoot h hroot ih => exact ih hturn

end Past

section Transparent

variable {m : Machine K X} {f : K → Matter → Except Failure Value} {x₀ x : State K X} {a : Ask}
variable {log : List (Turn K X)} {r r' : Request}

/--
An earlier request is like a later one in all that a compiler may go by, and found the same root
directory if it is one that has to be read.
-/
def Turn.Matches (m : Machine K X) (turn : Turn K X) (x : State K X) (r : Request) : Prop :=
  ∀ r', requestOf turn.ask.mode turn.ask.options m.settings.inlineStart 0 = .ok r' →
    r'.matter = r.matter ∧ r'.fromLocation = r.fromLocation ∧
      (r.fromLocation → turn.state.root = x.root)

theorem worked_allowCache (left : Nat) (x : State K X) (r : Request) (allowCache : Bool) :
    worked m f left x { r with allowCache } = worked m f left x r := by
  rw [worked, worked, loaded, loaded]
  dsimp only
  split
  · cases (Source.load m.settings.sources x.world x.root (.str r.location)).outcome with
    | ok text => rfl
    | error e => rfl
  · rfl

theorem worked_eq {left depth : Nat} {y : State K X} (hworld : y.world = x.world)
    (hregistry : y.registry = x.registry) (hroot : r.fromLocation → y.root = x.root)
    (hmade : Made r.mode depth r) (hmade' : Made r.mode depth r') (hmatter : r'.matter = r.matter)
    (hlocation : r'.fromLocation = r.fromLocation) : worked m f left y r' = worked m f left x r := by
  have hsame : { r' with allowCache := r.allowCache } = r := by
    obtain ⟨mode, location, inputLang, outputLang, source, debug, allowCache, fromLocation,
      compilerOptions, executerOptions, cacheHit, depth'⟩ := r
    simp only [Request.matter, Matter.mk.injEq] at hmatter
    simp only [Request.mk.injEq]
    exact ⟨hmade'.mode, hmatter.2.1, hmatter.2.2.1, hmatter.2.2.2.1, hmatter.1, hmatter.2.2.2.2.1, trivial,
      hlocation, hmatter.2.2.2.2.2.1, hmatter.2.2.2.2.2.2, hmade'.fresh.trans hmade.fresh.symm,
      hmade'.depth.trans hmade.depth.symm⟩
  rw [← worked_allowCache left y r' r.allowCache, hsame, worked, worked]
  have hload : loaded m.settings y r = loaded m.settings x r := by
    rw [loaded, loaded]
    split
    · next h => rw [hworld, hroot h]
    · rfl
  rw [hload]
  have hdispatched : dispatched f y = dispatched f x := by
    funext r
    rw [dispatched, dispatched, hregistry]
  rw [hdispatched]

theorem resolved_uncached (m : Machine K X) (f : K → Matter → Except Failure Value) (x : State K X)
    (a : Ask) : resolved m f x a.uncached =
      (requestOf a.mode a.options m.settings.inlineStart 0).bind (worked m f (levels m.settings) x) := by
  rw [resolved, requestOf_uncached]
  cases requestOf a.mode a.options m.settings.inlineStart 0 with
  | error e => rfl
  | ok r => exact worked_allowCache _ x r false

/--
Whatever happened to a hub before, a request that may be answered with a result that is kept gets what
it would get otherwise, if every earlier request that left or found a result for its key was made for
the same. In any case it gets what the first of these would have got otherwise.
-/
theorem transparent_of_past (hplain : m.Plain f) (hfresh : Fresh x₀) (hpast : Past m x₀ log x)
    (a : Ask) (hcache : ∀ r, requestOf a.mode a.options m.settings.inlineStart 0 = .ok r → r.allowCache) :
    ∃ x₁ x₂ answer plain, Serves m x a x₁ answer ∧ Serves m x a.uncached x₂ plain ∧
      ((∀ r, requestOf a.mode a.options m.settings.inlineStart 0 = .ok r →
          ∀ turn ∈ log, turn.keeps r.mode r.key → turn.Matches m x r) →
        answer.map (·.payload) = plain.map (·.payload)) ∧
      ∀ r turn, requestOf a.mode a.options m.settings.inlineStart 0 = .ok r →
        log.find? (·.keeps r.mode r.key) = some turn →
        ∃ x₃ earlier, Serves m turn.state turn.ask.uncached x₃ earlier ∧
          answer.map (·.payload) = earlier.map (·.payload) := by
  have hbound := hpast.bound hplain hfresh
  obtain ⟨x₁, answer, hserves, hleaves⟩ := exists_serves hplain hbound.idle a
  obtain ⟨x₂, plain, hserves', hleaves'⟩ := exists_serves hplain hbound.idle a.uncached
  refine ⟨x₁, x₂, answer, plain, hserves, hserves', ?_, ?_⟩
  · intro hmatches
    rw [hleaves.payload, hleaves'.payload, resolved_uncached]
    cases hr : requestOf a.mode a.options m.settings.inlineStart 0 with
    | error e =>
      rw [resolved, hr]
      rfl
    | ok r =>
      cases hkept : (x.memo r.mode).get? r.key with
      | none => exact resolved_of_new hr fun _ => hkept
      | some p =>
        obtain ⟨turn, r', hfind, hleft, hmode, hkey⟩ := hbound.kept _ _ _ hkept
        have hturn := List.mem_of_find?_eq_some hfind
        obtain ⟨hmatter, hlocation, hroot⟩ :=
          hmatches r hr turn hturn
            (List.find?_some (p := fun turn : Turn K X => turn.keeps r.mode r.key) hfind) r' hleft.made
        obtain ⟨_, hpast'⟩ := hpast.of_mem hturn
        have hbound' := hpast'.bound hplain hfresh
        have hmade := made_of_requestOf hr
        have hmade' := made_of_requestOf hleft.made
        have hworked : worked m f (levels m.settings) x r = .ok p := by
          rw [← hleft.worked]
          refine (worked_eq (hbound'.world.trans hbound.world.symm)
            (hbound'.registry.trans hbound.registry.symm) hroot ⟨rfl, hmade.depth, hmade.named, hmade.fresh⟩
            ⟨hmode, hmade'.depth, hmade'.named, hmade'.fresh⟩ hmatter hlocation).symm
        rw [resolved, hr, Except.bind, Except.bind, answered, if_pos (hcache r hr), hkept, hworked]
  · intro r turn hr hfind
    cases hkept : (x.memo r.mode).get? r.key with
    | none =>
      rw [hbound.new _ _ hkept] at hfind
      cases hfind
    | some p =>
      obtain ⟨turn', r', hfind', hleft, _, _⟩ := hbound.kept _ _ _ hkept
      obtain rfl := Option.some.inj (hfind.symm.trans hfind')
      obtain ⟨_, hpast'⟩ := hpast.of_mem (List.mem_of_find?_eq_some hfind)
      obtain ⟨x₃, earlier, hserves₃, hleaves₃⟩ :=
        exists_serves hplain (hpast'.bound hplain hfresh).idle turn.ask.uncached
      refine ⟨x₃, earlier, hserves₃, ?_⟩
      rw [hleaves.payload, hleaves₃.payload, resolved_uncached, hleft.made, resolved, hr, Except.bind,
        Except.bind, hleft.worked, answered, if_pos (hcache r hr), hkept]

end Transparent

def echo : Machine Unit Unit where
  perform := fun _ r => .done r ((Value.find? r.executerOptions "n").getD .null)

theorem echo_plain : echo.Plain fun _ matter =>
    .ok ((Value.find? matter.executerOptions "n").getD .null) :=
  fun _ _ => rfl

def echoStart : State Unit Unit where
  registry := { interpreters := Table.set {} "x" () }
  ext := ()

def echoAsk (n : Int) : Ask :=
  ⟨.interpret, .ofFields [("source", .str ""), ("lang", .str "x"),
    ("executer_options", .ofFields [("n", .int n)])]⟩

def echoNext : State Unit Unit :=
  (serve echo 3 echoStart (echoAsk 1)).1

def echoTurn : Turn Unit Unit :=
  ⟨echoStart, echoAsk 1, (serve echo 3 echoStart (echoAsk 1)).2⟩

def answersInTime (x : State Unit Unit) (a : Ask) : Bool :=
  ((Schedule.start x [requestRoutine echo a]).run 3).queue.isEmpty

theorem serves_of_answersInTime {x : State Unit Unit} {a : Ask} (h : answersInTime x a) :
    Serves echo x a (serve echo 3 x a).1 (serve echo 3 x a).2 :=
  ⟨3, List.isEmpty_iff.mp h, rfl⟩

def mayKeep (a : Ask) : Bool :=
  (requestOf a.mode a.options echo.settings.inlineStart 0).toOption.all (·.allowCache)

theorem allowCache_of_mayKeep {a : Ask} (h : mayKeep a) (r : Request)
    (hr : requestOf a.mode a.options echo.settings.inlineStart 0 = .ok r) : r.allowCache := by
  rw [mayKeep, hr] at h
  exact h

def told : Except Failure Payload → Option Int
  | .ok (.value (.int n)) => some n
  | _ => none

theorem echo_runs : mayKeep (echoAsk 1) ∧ mayKeep (echoAsk 2) ∧ answersInTime echoStart (echoAsk 1) ∧
    answersInTime echoNext (echoAsk 2) ∧ answersInTime echoNext (echoAsk 2).uncached ∧
    echoStart.root = echoNext.root ∧ told ((serve echo 3 echoNext (echoAsk 2)).2.map (·.payload)) = some 1 ∧
    told ((serve echo 3 echoNext (echoAsk 2).uncached).2.map (·.payload)) = some 2 := by
  decide +kernel

theorem past_echoNext : Past echo echoStart [echoTurn] echoNext := by
  obtain ⟨_, _, hfirst, _⟩ := echo_runs
  exact .request .new (serves_of_answersInTime hfirst)

/--
Asked again for the same, the hub tells what it would tell without its results.
-/
theorem echo_again : Fresh echoStart ∧ Past echo echoStart [echoTurn] echoNext ∧
    ∃ x₁ x₂ answer plain, Serves echo echoNext (echoAsk 1) x₁ answer ∧
      Serves echo echoNext (echoAsk 1).uncached x₂ plain ∧
      answer.map (·.payload) = plain.map (·.payload) := by
  obtain ⟨hkeep, _, _, _, _, hroot, _⟩ := echo_runs
  have hfresh : Fresh echoStart := ⟨rfl, rfl, rfl, rfl⟩
  obtain ⟨x₁, x₂, answer, plain, hserves, hserves', hsame, _⟩ :=
    transparent_of_past echo_plain hfresh past_echoNext (echoAsk 1) (allowCache_of_mayKeep hkeep)
  refine ⟨hfresh, past_echoNext, x₁, x₂, answer, plain, hserves, hserves', hsame ?_⟩
  intro r hr turn hturn _ r' hr'
  obtain rfl := List.mem_singleton.mp hturn
  have heq : r' = r := Except.ok.inj (hr'.symm.trans hr)
  rw [heq]
  exact ⟨rfl, rfl, fun _ => hroot⟩

/--
Asked again with another option, the hub still tells the first one: what is kept is told, whatever else
a request asks for.
-/
theorem echo_stale : ¬ ∀ (m : Machine Unit Unit) f x₀ log x a, m.Plain f → Fresh x₀ → Past m x₀ log x →
    (∀ r, requestOf a.mode a.options m.settings.inlineStart 0 = .ok r → r.allowCache) →
    ∀ x₁ x₂ answer plain, Serves m x a x₁ answer → Serves m x a.uncached x₂ plain →
      answer.map (·.payload) = plain.map (·.payload) := by
  obtain ⟨_, hkeep, _, hasked, hplain, _, hold, hnew⟩ := echo_runs
  intro hall
  have hsame := hall echo _ echoStart [echoTurn] echoNext (echoAsk 2) echo_plain ⟨rfl, rfl, rfl, rfl⟩
    past_echoNext (allowCache_of_mayKeep hkeep) _ _ _ _ (serves_of_answersInTime hasked)
    (serves_of_answersInTime hplain)
  have htold := congrArg told hsame
  rw [hold, hnew] at htold
  cases htold

end Hub

end Polyglot
