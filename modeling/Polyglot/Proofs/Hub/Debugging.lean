import Polyglot.Proofs.Component.Debug
import Polyglot.Proofs.Hub.Leading
import Polyglot.Proofs.Hub.Structured
import Polyglot.Proofs.Hub.Wardrobe
import Polyglot.Proofs.Loop.Tandem

/-!
Two hubs in the same state, each with a loop that does nothing but answer one request: if the requests take
the same steps the loops go side by side, whatever the order of their ticks.
-/

namespace Polyglot.Hub

open Loop

variable {K X : Type}

def freeTerms : Terms (State K X) Failure (Option Envelope) Unit Unit where
  inv l x := (∀ t, l.wards.length ≤ t → l.stage t = .new) ∧ Knows x l.wards.length
  fits _ _ _ := True

section Free

variable {l : Ledger Unit Unit Failure (Option Envelope)} {x : State K X} {t : Nat}

theorem lt_of_pending (hinv : freeTerms.inv l x) (ht : l.stage t = .pending ()) : t < l.wards.length := by
  by_contra hge
  rw [hinv.1 t (Nat.le_of_not_lt hge)] at ht
  cases ht

theorem free_reach (hinv : freeTerms.inv l x) (ht : l.stage t = .pending ())
    (stage : Stage Unit Failure (Option Envelope)) : freeTerms.inv (l.reach t stage) x := by
  refine ⟨?_, hinv.2⟩
  intro u hu
  have hlt := lt_of_pending hinv ht
  have hne : u ≠ t := by
    rintro rfl
    exact Nat.not_le_of_lt hlt hu
  rw [Ledger.stage_reach_of_ne _ _ _ hne]
  exact hinv.1 u hu

theorem frees_any (t : Nat) (ends : Except (Stop Failure) (Option Envelope) → Prop) :
    (freeTerms : Terms (State K X) _ _ _ _).Frees Habit.any.frame () () t () ends where
  fits := fun _ hstage hinv => ⟨_, List.getElem?_eq_getElem (lt_of_pending hinv hstage), trivial⟩
  starts := fun _ => trivial
  known := fun _ hinv => ⟨hinv.2, trivial⟩
  fine := fun _ _ _ _ _ _ _ _ => trivial
  change := fun _ hinv hknows _ => ⟨hinv.1, hknows.1⟩
  finish := fun hstage hinv _ => free_reach hinv hstage _
  cancelled := fun hstage hinv _ => free_reach hinv hstage _
  start := by
    intro l x _ hinv
    refine ⟨?_, hinv.2.mono (by simp)⟩
    intro u hu
    rw [Ledger.wards_start, List.length_append, List.length_singleton] at hu
    have hne : u ≠ l.wards.length := by omega
    rw [Ledger.stage_start_of_ne _ _ _ hne]
    exact hinv.1 u (by omega)
  cutOff := fun _ hinv => hinv
  older := fun hstage hinv => lt_of_pending hinv hstage

end Free

variable {m : Machine K X} {x : State K X} {a a' : Ask}

theorem tended_start (hidle : x.inflight = {}) (m : Machine K X) (a : Ask) :
    ∃ l, Schedule.Tended freeTerms none l (Schedule.start x [requestRoutine m a]) ∧ freeTerms.inv l x ∧
      l.Rooted := by
  have hknows : Knows x 0 := by
    intro key u hu
    rw [hidle] at hu
    cases hu
  refine ⟨({} : Ledger Unit Unit Failure (Option Envelope)).start ⟨none, ()⟩ (), ?_, ?_, ?_⟩
  · apply (Schedule.tended_of_empty freeTerms x).start ⟨none, ()⟩ (by rintro _ ⟨⟩) trivial
    intro l x' hl hinv
    have ht : l.stage 0 = .pending () := hl.stage
    refine ⟨?_, fun _ => free_reach hinv ht _⟩
    have hstructured := structured_child (structured_request (Habit.any_binds m) (levels m.settings) none (a := a)
      fun _ _ _ => trivial) l.wards.length
    refine hstructured.tends (fun u _ => frees_any u _) (frees_any 0 _) (fun _ hr => hr.elim)
      (.inr (by simp)) ?_
    exact (Ledger.reach_self l 0 _ ht).symm ▸ hinv
  · refine ⟨?_, hknows.mono (Nat.zero_le _)⟩
    intro t ht
    have hne : t ≠ 0 := by
      rintro rfl
      exact absurd ht (by simp)
    exact Ledger.stage_start_of_ne _ _ _ hne
  · intro u w hw hne
    rcases ward_of_concat hw with hw | ⟨hu, _⟩
    · cases hw
    · exact absurd hu hne

theorem outcome?_start (x : State K X) (routine : Routine K X) (t : Nat) :
    (Schedule.start x [routine]).outcome? t = none := by
  cases t with
  | zero => rfl
  | succ t => rfl

theorem tandem_start {c : Likeness (State K X) (Option Envelope)}
    {q : Option Envelope → Option Envelope → Prop} (hidle : x.inflight = {}) (hx : c.state x x)
    (halike : ∀ bs, Loop.Alike c bs q (requestRoutine m a) (requestRoutine m a')) :
    ∃ l l', Schedule.Tandem c freeTerms [q] [] l l' (Schedule.start x [requestRoutine m a])
      (Schedule.start x [requestRoutine m a']) := by
  obtain ⟨l, htended, hinv, hrooted⟩ := tended_start hidle m a
  obtain ⟨l', htended', hinv', -⟩ := tended_start hidle m a'
  refine ⟨l, l', ?_, htended, htended', hinv, hinv', hrooted, .inl ⟨hx, fun t _ _ _ => outcome?_start x _ t⟩⟩
  refine ⟨rfl, rfl, rfl, ?_, ?_⟩
  · intro t q' p p' hq hp hp'
    cases t with
    | zero =>
      cases hq
      cases hp
      cases hp'
      exact .ready fun bs _ => halike bs
    | succ t => cases hq
  · rintro g q' group group' ⟨⟩

theorem sides_of_alike {x₀ : State K X} {like : Payload → Payload → Prop} {hlike : ∀ p, like p p}
    {q : Option Envelope → Option Envelope → Prop} (hidle : x₀.inflight = {})
    (halike : ∀ bs, Loop.Alike (likeness x₀ like hlike) bs q (requestRoutine m a) (requestRoutine m a'))
    (is : List Nat) :
    let s := is.foldl Schedule.fireAt (Schedule.start x₀ [requestRoutine m a])
    let s' := is.foldl Schedule.fireAt (Schedule.start x₀ [requestRoutine m a'])
    ((s.outcome? 0 = none ∧ s'.outcome? 0 = none) ∨
      ∃ r r', s.outcome? 0 = some r ∧ s'.outcome? 0 = some r' ∧ Agrees q r r') ∧
      Abreast like s.shared s'.shared := by
  have hstanding : Standing x₀ x₀ := ⟨rfl, rfl, rfl, fun _ _ _ => id⟩
  have hlevel : (likeness x₀ like hlike).state x₀ x₀ := ⟨rfl, hstanding⟩
  obtain ⟨l, l', hstart⟩ := tandem_start hidle hlevel halike
  obtain ⟨bs, gs, m, m', hbs, hend⟩ := hstart.fireAll is
  refine ⟨hend.twins.outcome? (getElem?_grown hbs rfl), ?_⟩
  rcases hend.course with ⟨hstate, _⟩ | ⟨hafter, _⟩
  · exact .of_level hlike hstate
  · exact hafter

end Polyglot.Hub

/-!
Requests for components with and without the debug flag: they come to the same, and the hub does the same
for them, up to what is reported and the layout of texts.
-/

namespace Polyglot.Hub

open Loop
open Component (Laid layout)

variable {K X : Type} {m : Machine K X} {x : State K X}

def componentBuiltin : Mode → Builtin
  | .transpile => .componentToHtml
  | .interpret => .componentValue

/--
A component is asked for. The debug flag makes no difference to the compilers that there are for its
regions, and to what runs its script if its value is asked for.
-/
structure AsksNeutral (m : Machine K X) (x : State K X) (a : Ask) : Prop where
  component : ∀ r k, Comes m.settings x a 0 r → compiler? x.registry r = some k →
    m.perform k = (componentBuiltin a.mode).perform
  regions : ∀ r d, Comes m.settings x a 0 r → Component.read r.text = .ok d → ∀ region ∈ d.regions, ∀ b,
    Component.regionPart m.settings r region = .ask b → Unheeded m x b
  script : a.mode = .interpret → ∀ r content, Comes m.settings x a 0 r →
    Unheeded m x (Component.scriptAsk m.settings r content)

theorem heedless_builtin {m : Machine Builtin X} (hm : m.perform = Builtin.perform) {b : Builtin}
    (hb : b ∉ [.componentToHtml, .componentValue, .jinjaToHtml, .jinjaTemplate]) : Heedless m b := by
  intro r debug
  rw [hm]
  cases b <;> first | rfl | exact absurd (by decide) hb

/--
Two results for a component: the same, or texts of one document in two layouts.
-/
def SameButLayout (s : Component.Settings) (mode : Mode) (debug debug' : Bool) (p p' : Payload) : Prop :=
  match mode with
  | .interpret => p = p'
  | .transpile => p = p' ∨ ∃ d : Component.Document,
    p = .output ⟨(layout s debug).write d, .document d⟩ ∧
      p' = .output ⟨(layout s debug').write d, .document d⟩

theorem SameButLayout.refl (s : Component.Settings) (mode : Mode) (debug debug' : Bool) (p : Payload) :
    SameButLayout s mode debug debug' p p := by
  cases mode with
  | interpret => rfl
  | transpile => exact .inl rfl

theorem sameButLayout_far (s : Component.Settings) {debug debug' : Bool} (h : debug ≠ debug') :
    ∃ p p', SameButLayout s .transpile debug debug' p p' ∧ p ≠ p' := by
  let d : Component.Document := { template := some ⟨.template, "", [], 0⟩ }
  refine ⟨_, _, .inr ⟨d, rfl, rfl⟩, fun heq => ?_⟩
  have htext : (layout s debug).write d = (layout s debug').write d := congrArg Payload.text heq
  have htrue : (layout s true).write d = "<template>\n\n</template>" := rfl
  have hfalse : (layout s false).write d = "<template></template>" := rfl
  cases debug <;> cases debug'
  · exact h rfl
  · rw [htrue, hfalse] at htext
    exact absurd htext (by decide)
  · rw [htrue, hfalse] at htext
    exact absurd htext (by decide)
  · exact h rfl

theorem yields_laid (h : Settings) (debug debug' : Bool) :
    Yields (SameButLayout h.component .transpile debug debug') (Laid h debug debug') .transpile := by
  rintro _ _ ⟨d, rfl, rfl⟩
  rw [Component.serialize_eq_write, Component.serialize_eq_write]
  have hof (debug : Bool) :
      Payload.ofValue .transpile (.output (.str ((layout h.component debug).write d)) (.document d)) =
        if d.regions = [] then .error .text
        else .ok (.output ⟨(layout h.component debug).write d, .document d⟩) := by
    rw [Payload.ofValue, Output.ofValue, Output.ofParts]
    simp only [String.isEmpty_iff, Component.write_eq_empty_iff]
    split <;> rfl
  rw [hof, hof]
  split
  · exact .inl ⟨_, rfl, rfl⟩
  · exact .inr ⟨_, _, rfl, rfl, .inr ⟨d, rfl, rfl⟩⟩

section Calls

variable {a : Ask} {r : Request} {k : K}

theorem AsksNeutral.pair_transpile (ha : AsksNeutral m x a) (hmode : a.mode = .transpile)
    (hr : Comes m.settings x a 0 r) (hk : compiler? x.registry r = some k) (debug' : Bool) :
    (m.perform k r).Pair m.settings (Paired m x) (Laid m.settings r.debug debug')
      (m.perform k (r.debugged debug')) := by
  rw [ha.component r k hr hk, hmode]
  apply Call.Pair.observe
  rintro view hview
  dsimp only
  rw [hview]
  exact Component.pair_transpile r debug' fun d hd => ha.regions r d hr hd

theorem AsksNeutral.pair_interpret (ha : AsksNeutral m x a) (hmode : a.mode = .interpret)
    (hr : Comes m.settings x a 0 r) (hk : compiler? x.registry r = some k) (debug' : Bool) :
    (m.perform k r).Pair m.settings (Paired m x) Eq (m.perform k (r.debugged debug')) := by
  rw [ha.component r k hr hk, hmode]
  apply Call.Pair.observe
  rintro view hview
  dsimp only
  rw [hview]
  exact Component.pair_interpret r debug' (fun d hd => ha.regions r d hr hd)
    fun content => ha.script hmode r content hr

end Calls

variable {mode : Mode} {es es' : Fields}

theorem AsksNeutral.alike (ha : AsksNeutral m x ⟨mode, .map es⟩) (hsame : SameButDebug es es')
    (bs : Bonds (Option Envelope)) :
    Loop.Alike (likeness x _ (SameButLayout.refl m.settings.component mode (isDebug es) (isDebug es'))) bs
      (Option.Rel (Seen (SameButLayout m.settings.component mode (isDebug es) (isDebug es')) (isDebug es)
        (isDebug es'))) (requestRoutine m ⟨mode, .map es⟩) (requestRoutine m ⟨mode, .map es'⟩) := by
  have htwin := twin_of_fields hsame mode m.settings.inlineStart
  have hflag {r : Request} (hr : Comes m.settings x ⟨mode, .map es⟩ 0 r) : r.debug = isDebug es := by
    obtain ⟨r₀, hr₀, hr⟩ := hr
    obtain ⟨source, rfl⟩ := exists_source_of_loaded hr
    rcases htwin 0 with ⟨e, he, _⟩ | ⟨r₁, hr₁, hdebug, _⟩
    · cases hr₀.symm.trans he
    · cases hr₀.symm.trans hr₁
      exact hdebug
  have hequal (hcalls : ∀ r k, Comes m.settings x ⟨mode, .map es⟩ 0 r → compiler? x.registry r = some k →
      (m.perform k r).Pair m.settings (Paired m x) Eq (m.perform k (r.debugged (isDebug es')))) :
      Loop.Alike (likeness x _ (SameButLayout.refl m.settings.component mode (isDebug es) (isDebug es'))) bs
        (Option.Rel (Seen (SameButLayout m.settings.component mode (isDebug es) (isDebug es')) (isDebug es)
          (isDebug es'))) (requestRoutine m ⟨mode, .map es⟩) (requestRoutine m ⟨mode, .map es'⟩) :=
    alike_child ((alike_request (levels m.settings) rfl htwin hcalls).weaken fun _ _ he =>
      he.seen (SameButLayout.refl _ _ _ _)) bs
  cases hmode : mode with
  | interpret =>
    subst hmode
    exact hequal fun r k hr hk => ha.pair_interpret rfl hr hk _
  | transpile =>
    subst hmode
    -- with equal flags there is nothing to tell the texts apart by
    by_cases hdebug : isDebug es = isDebug es'
    · refine hequal fun r k hr hk => ?_
      rw [← hdebug, ← hflag hr, r.debugged_self]
      exact Call.pair_self (paired_self m x) _
    · refine alike_requestRoutine (sameButLayout_far _ hdebug) htwin ?_ (yields_laid m.settings _ _) bs
      intro r k hr hk
      rw [← hflag hr]
      exact ha.pair_transpile rfl hr hk _

/--
Two requests for a component that differ in the debug flag alone, each of which is all that a hub has to
do: they fail in the same way, or come to the same document, name and styles, with texts that differ in
their layout. At every moment of the two runs the hub has the same keys in its memo tables.
-/
theorem debug_of_fires (hidle : x.inflight = {}) (ha : AsksNeutral m x ⟨mode, .map es⟩)
    (hsame : SameButDebug es es') (is : List Nat) :
    let s := is.foldl Schedule.fireAt (Schedule.start x [requestRoutine m ⟨mode, .map es⟩])
    let s' := is.foldl Schedule.fireAt (Schedule.start x [requestRoutine m ⟨mode, .map es'⟩])
    Option.Rel (Agrees (Option.Rel (Seen
      (SameButLayout m.settings.component mode (isDebug es) (isDebug es')) (isDebug es) (isDebug es'))))
        (s.outcome? 0) (s'.outcome? 0) ∧
      ∀ mode, (s.shared.memo mode).keys = (s'.shared.memo mode).keys := by
  obtain ⟨houtcome, habreast⟩ := sides_of_alike hidle (ha.alike hsame) is
  refine ⟨?_, fun mode => (habreast.memo mode).keys⟩
  rcases houtcome with ⟨hnone, hnone'⟩ | ⟨r, r', hr, hr', hagrees⟩
  · rw [hnone, hnone']
    exact .none
  · rw [hr, hr']
    exact .some hagrees

def markText : String := "<template><p>Hi</p></template><style scoped>p\x7bcolor:red\x7d</style>"

def markFields (debug : Bool) : Fields :=
  [(.str "source", .str markText), (.str "input_lang", .str "vue"), (.str "output_lang", .str "html"),
    (.str "debug", .bool debug)]

def markRequest : Request where
  mode := .transpile
  location := inlineLocation inlineStart markText
  inputLang := "vue"
  outputLang := some "html"
  source := some markText
  debug := true

def markDocument : Component.Document where
  template := some ⟨.template, "<p>Hi</p>", [], 0⟩
  styles := [⟨.style, "p\x7bcolor:red\x7d", [("scoped", .present)], 30⟩]

theorem comes_mark {r : Request}
    (hr : Comes house.settings houseStart ⟨.transpile, .map (markFields true)⟩ 0 r) : r = markRequest := by
  obtain ⟨r₀, hr₀, hr⟩ := hr
  have hmark : requestOf .transpile (.map (markFields true)) house.settings.inlineStart 0 =
      .ok markRequest := rfl
  cases hmark.symm.trans hr₀
  cases hr
  rfl

theorem neutral_mark : AsksNeutral house houseStart ⟨.transpile, .map (markFields true)⟩ where
  component r k hr hk := by
    rw [comes_mark hr] at hk
    have hfound : compiler? houseStart.registry markRequest = some .componentToHtml := rfl
    cases hfound.symm.trans hk
    rfl
  regions r d hr hd region hregion b hb := by
    rw [comes_mark hr] at hd hb
    have hread : Component.read markText = .ok markDocument := by decide +kernel
    cases hread.symm.trans hd
    have hregions : markDocument.regions =
        [⟨.template, "<p>Hi</p>", [], 0⟩, ⟨.style, "p\x7bcolor:red\x7d", [("scoped", .present)], 30⟩] := rfl
    -- both regions are passed on as they are
    have hpassed {b : Ask} (hb : ∀ depth, ∃ r,
        requestOf b.mode b.options house.settings.inlineStart depth = .ok r ∧
          compiler? houseStart.registry r = some .passthrough) : Unheeded house houseStart b := by
      intro depth r k hr hk
      obtain ⟨r', hr', hk'⟩ := hb depth
      cases hr'.symm.trans hr
      cases hk'.symm.trans hk
      exact heedless_builtin rfl (by decide)
    rw [hregions] at hregion
    rcases List.mem_cons.mp hregion with rfl | hregion
    · cases hb
      exact hpassed fun _ => ⟨_, rfl, rfl⟩
    · cases List.mem_singleton.mp hregion
      cases hb
      exact hpassed fun _ => ⟨_, rfl, rfl⟩
  script := by rintro ⟨⟩

def marked (debug : Bool) : Loop Builtin Unit :=
  (List.replicate 60 0).foldl Schedule.fireAt
    (Schedule.start houseStart [requestRoutine house ⟨.transpile, .map (markFields debug)⟩])

/--
The text that a request has come to.
-/
def textOf (o : Option Outcome) : Option String :=
  match o with
  | some (.ok (some e)) => some e.payload.text
  | _ => none

/--
A component with a template and a style is written in two layouts.
-/
theorem mark_debugged : houseStart.inflight = {} ∧
    AsksNeutral house houseStart ⟨.transpile, .map (markFields true)⟩ ∧
    SameButDebug (markFields true) (markFields false) ∧
    Option.Rel (Agrees (Option.Rel (Seen (SameButLayout house.settings.component .transpile true false) true
      false))) ((marked true).outcome? 0) ((marked false).outcome? 0) ∧
    (∀ mode, ((marked true).shared.memo mode).keys = ((marked false).shared.memo mode).keys) ∧
    textOf ((marked true).outcome? 0) = some ("<template>\n<p data-vue-Yib3yjWemakLXO9vlPlmjQjj>Hi</p>\n" ++
      "</template>\n\n<style>\n[data-vue-Yib3yjWemakLXO9vlPlmjQjj] p\x7bcolor:red\x7d\n</style>") ∧
    textOf ((marked false).outcome? 0) = some ("<template><p data-vue-Yib3yjWemakLXO9vlPlmjQjj>Hi</p>" ++
      "</template><style type='text/css'>[data-vue-Yib3yjWemakLXO9vlPlmjQjj] p\x7bcolor:red\x7d</style>") := by
  have hsame : SameButDebug (markFields true) (markFields false) := sameButDebug_flag
    [("source", .str markText), ("input_lang", .str "vue"), ("output_lang", .str "html")] [] true false
  have hrun := debug_of_fires rfl neutral_mark hsame (List.replicate 60 0)
  exact ⟨rfl, neutral_mark, hsame, hrun.1, hrun.2, by decide +kernel, by decide +kernel⟩

end Polyglot.Hub
