import Mathlib.Logic.Relation
import Polyglot.Compiler.Builtin
import Polyglot.Proofs.Component.Scope
import Polyglot.Proofs.Hub.Leaders

/-!
Documents that are put together from parts: whatever the order in which the compilers of the regions go
on, there is one document that comes of it, or a failure of some region, and nothing else.
-/

namespace Polyglot

open Hub Loop

variable {K X : Type}

namespace Component

def scoped? (d : Document) : Option Document :=
  match d.template with
  | none => some d
  | some template =>
    match injectScope? d.scopeId.toList template.content.toList with
    | none => if (d.styles.filter (·.isScoped)).isEmpty then some d else none
    | some markup =>
      if (d.styles.filter (·.isScoped)).all fun style => (scopeRegion d.scopeId style).isOk then
        some { d with
          template := some { template with content := String.ofList markup }
          styles := d.styles.map (scopeOrKeep d.scopeId) }
      else none

def ownOptions (options : Fields) (kind : RegionKind) : Value :=
  ((Value.find? options kind.name).filter Value.truthy).getD (.map [])

def subRequest (h : Hub.Settings) (r : Request) (region : Region) (origin : List (String × Value)) : Ask :=
  ⟨.transpile, .ofFields ([("output_lang", .str (h.component.language region.kind)), ("debug", .bool r.debug),
    ("allow_cache", .bool false), ("compiler_options", ownOptions r.compilerOptions region.kind),
    ("executer_options", ownOptions r.executerOptions region.kind)] ++ origin)⟩

/--
What is asked for a region. A region without a source of its own has its text, if that is not blank, in the
language that it names or in the one of its kind; the source of another one is a location as seen from the
document.
-/
inductive Region.Asks (h : Hub.Settings) (r : Request) (region : Region) : Ask → Prop where
  | inline (hsrc : region.attrs.text? "src" = none)
      (htext : ∃ c ∈ region.content.toList, Text.isBlank c = false) :
      region.Asks h r (subRequest h r region [("input_lang",
        .str ((region.attrs.text? "lang").getD (h.component.language region.kind))),
        ("source", .str region.content)])
  | external {src location : String} (hsrc : region.attrs.text? "src" = some src)
      (hlocation : resolve ⟨r.location, r.fromLocation, h.inlineStart⟩ src = .ok location) :
      region.Asks h r (subRequest h r region
        (((region.attrs.text? "lang").map fun lang => ("input_lang", Value.str lang)).toList ++
          [("location", .str location)]))

/--
What may become of the text of a region, given what may come of requests. A blank text without a source is
left as it is.
-/
inductive Region.Comes (answers : Ask → Except Failure Envelope → Prop) (h : Hub.Settings) (r : Request)
    (region : Region) : Except Failure String → Prop where
  | blank (hsrc : region.attrs.text? "src" = none)
      (hblank : ∀ c ∈ region.content.toList, Text.isBlank c) : region.Comes answers h r (.ok region.content)
  | asked {a : Ask} {answer : Except Failure Envelope} (hasks : region.Asks h r a) (hanswer : answers a answer) :
      region.Comes answers h r (answer.map (·.payload.text))
  | nowhere {src : String} {e : UrlError} (hsrc : region.attrs.text? "src" = some src)
      (hlocation : resolve ⟨r.location, r.fromLocation, h.inlineStart⟩ src = .error e) :
      region.Comes answers h r (.error (.address e))

/--
A region with a text for its content. The attributes that said where it came from are gone.
-/
def Region.fill (text : Region → String) (region : Region) : Region :=
  { region with content := text region, attrs := (region.attrs.erase "lang").erase "src" }

variable {answers : Ask → Except Failure Envelope → Prop} {h : Hub.Settings} {r : Request}

theorem regionOptions_eq (options : Fields) (kind : RegionKind) :
    regionOptions options kind = ownOptions options kind := by
  rw [regionOptions, ownOptions]
  cases Value.find? options kind.name with
  | none => rfl
  | some v =>
    cases hv : v.truthy <;> simp [Option.filter, hv]

theorem allBlank_eq_false {cs : List Char} :
    Text.allBlank cs = false ↔ ∃ c ∈ cs, Text.isBlank c = false := by
  simp [Text.allBlank]

theorem regionPart_of_asks {region : Region} {a : Ask} (hasks : region.Asks h r a) :
    regionPart h r region = .ask a := by
  rw [regionPart]
  simp only [regionOptions_eq, placeOf]
  cases hasks with
  | inline hsrc htext =>
    simp only [hsrc, allBlank_eq_false.mpr htext]
    cases region.attrs.text? "lang" <;> rfl
  | external hsrc hlocation =>
    simp only [hsrc, hlocation]
    rfl

theorem regionPart_cases (h : Hub.Settings) (r : Request) (region : Region) :
    (∃ a, region.Asks h r a) ∨
      (region.attrs.text? "src" = none ∧ (∀ c ∈ region.content.toList, Text.isBlank c) ∧
        regionPart h r region = .done) ∨
      ∃ src e, region.attrs.text? "src" = some src ∧
        resolve ⟨r.location, r.fromLocation, h.inlineStart⟩ src = .error e ∧
        regionPart h r region = .failed (.address e) := by
  cases hsrc : region.attrs.text? "src" with
  | none =>
    cases hblank : Text.allBlank region.content.toList with
    | false => exact .inl ⟨_, .inline hsrc (allBlank_eq_false.mp hblank)⟩
    | true =>
      refine .inr (.inl ⟨rfl, List.all_eq_true.mp hblank, ?_⟩)
      simp only [regionPart, hsrc, hblank, if_true]
  | some src =>
    cases hlocation : resolve ⟨r.location, r.fromLocation, h.inlineStart⟩ src with
    | ok location => exact .inl ⟨_, .external hsrc hlocation⟩
    | error e =>
      refine .inr (.inr ⟨src, e, rfl, hlocation, ?_⟩)
      simp only [regionPart, hsrc, placeOf, hlocation]

theorem asks_of_regionPart {region : Region} {a : Ask} (ha : regionPart h r region = .ask a) :
    region.Asks h r a := by
  obtain ⟨a', hasks⟩ | ⟨-, -, hpart⟩ | ⟨_, _, -, -, hpart⟩ := regionPart_cases h r region
  · cases (regionPart_of_asks hasks).symm.trans ha
    exact hasks
  · cases hpart.symm.trans ha
  · cases hpart.symm.trans ha

theorem comes_iff {region : Region} {o : Except Failure String} : region.Comes answers h r o ↔
    ∃ result, (regionPart h r region).Comes answers result ∧
      o = result.map fun e => (e.map (·.payload.text)).getD region.content := by
  constructor
  · intro hcomes
    cases hcomes with
    | blank hsrc hblank =>
      have hall : Text.allBlank region.content.toList := List.all_eq_true.mpr hblank
      refine ⟨.ok none, ?_, rfl⟩
      simp only [regionPart, hsrc, hall, if_true]
      rfl
    | @asked a answer hasks hanswer =>
      rw [regionPart_of_asks hasks]
      exact ⟨_, ⟨_, hanswer, rfl⟩, by cases answer <;> rfl⟩
    | nowhere hsrc hlocation =>
      refine ⟨.error _, ?_, rfl⟩
      simp only [regionPart, hsrc, placeOf, hlocation]
      rfl
  · rintro ⟨result, hresult, rfl⟩
    obtain ⟨a, hasks⟩ | ⟨hsrc, hblank, hpart⟩ | ⟨src, e, hsrc, hlocation, hpart⟩ := regionPart_cases h r region
    · rw [regionPart_of_asks hasks] at hresult
      obtain ⟨answer, hanswer, rfl⟩ := hresult
      have hcomes := Region.Comes.asked hasks hanswer
      cases answer <;> exact hcomes
    · rw [hpart] at hresult
      cases hresult
      exact .blank hsrc hblank
    · rw [hpart] at hresult
      cases hresult
      exact .nowhere hsrc hlocation

theorem comes_error_iff {region : Region} {e : Failure} :
    region.Comes answers h r (.error e) ↔ (regionPart h r region).Comes answers (.error e) := by
  rw [comes_iff]
  constructor
  · rintro ⟨result, hresult, heq⟩
    cases result with
    | ok result => cases heq
    | error e' =>
      cases heq
      exact hresult
  · exact fun hresult => ⟨_, hresult, rfl⟩

theorem exists_texts {d : Document} (hapart : d.Apart) {results : List (Option Envelope)}
    (hresults : List.Forall₂ (fun part result => part.Comes answers (.ok result))
      (d.regions.map (regionPart h r)) results) :
    ∃ text, fillRegions d results = d.mapRegions (Region.fill text) ∧
      ∀ region ∈ d.parts, region.Comes answers h r (.ok (text region)) := by
  refine ⟨_, rfl, ?_⟩
  intro region hregion
  rw [List.forall₂_map_left_iff] at hresults
  have hnodup : (d.regions.map (·.start)).Nodup := (d.perm_regions.map _).nodup_iff.mpr hapart
  obtain ⟨result, hresult, hlookup⟩ :=
    lookup_start hresults hnodup (Document.mem_regions.mpr hregion)
  refine comes_iff.mpr ⟨_, hresult, ?_⟩
  dsimp only
  rw [hlookup]
  rfl

theorem isOk_of_comes {id : String} {style : Region} {result : Option Envelope}
    (hcomes : (scopePart id style).Comes answers (.ok result)) : (scopeRegion id style).isOk := by
  rw [scopePart] at hcomes
  cases hregion : scopeRegion id style with
  | ok confined => rfl
  | error e =>
    rw [hregion] at hcomes
    cases hcomes

theorem not_isOk_of_comes {id : String} {style : Region} {e : Failure}
    (hcomes : (scopePart id style).Comes answers (.error e)) : ¬ (scopeRegion id style).isOk := by
  rw [scopePart] at hcomes
  cases hregion : scopeRegion id style with
  | ok confined =>
    rw [hregion] at hcomes
    cases hcomes
  | error e => simp [Except.isOk, Except.toBool]

theorem scopePart_ne_ask (id : String) (style : Region) (a : Ask) : scopePart id style ≠ .ask a := by
  rw [scopePart]
  split <;> simp

end Component

namespace Hub

open Component (Document Region scoped? scope fillRegions regionPart)

variable {m : Machine K X} {old x : State K X} {doc : Outline} {w : Ward Job} {l : Plot} {r : Request}
variable {answers : Ask → Except Failure Envelope → Prop} {may : Ask → Prop}

/--
A document with the id of its scope.
-/
def identified (h : Settings) (r : Request) (d : Document) : Document :=
  { d with scopeId := h.component.naming.name r.text }

def Assembles (may : Ask → Prop) (answers : Ask → Except Failure Envelope → Prop) (h : Settings) (r : Request)
    (d : Document) (next : Document → Call X)
    (c : Except (Stop Failure) (Value × Fields × Fields)) : Prop :=
  (∃ part ∈ d.regions.map (regionPart h r), ∃ e, part.Comes answers (.error e) ∧
    c = .error (.failed e)) ∨
  ∃ results, List.Forall₂ (fun part result => part.Comes answers (.ok result))
    (d.regions.map (regionPart h r)) results ∧
    ((∃ d', scoped? (fillRegions (identified h r d) results) = some d' ∧ (next d').Opens may answers c) ∨
      scoped? (fillRegions (identified h r d) results) = none ∧ ∃ e, c = .error (.failed e))

def outline (may : Ask → Prop) (answers : Ask → Except Failure Envelope → Prop) (h : Settings) (r : Request)
    (d : Document) (next : Document → Call X) : Outline where
  head := if h.coalesce && r.allowCache then 2 else 1
  ends o := ∃ c, Assembles may answers h r d next c ∧ o = handed r c
  whole := ∃ results, List.Forall₂ (fun part result => part.Comes answers (.ok result))
    (d.regions.map (regionPart h r)) results
  more := ¬ ∀ d, (next d).Settled
  sound := by
    rintro v ⟨c, hc, hv⟩
    obtain ⟨c, rfl, _⟩ := map_eq_ok.mp hv.symm
    obtain ⟨_, _, _, _, ⟨⟩⟩ | ⟨results, hresults, _⟩ := hc
    exact ⟨results, hresults⟩

section Tends

variable {ask : Ask → Block K X Envelope} (hask : Serving old doc may answers ask)
  (hstructured : ∀ a, Rightly Habit.any (ask a))
include hask hstructured

theorem tends_scope {d : Document} {next : Document → Call X} (hheads : Heads old doc w l x)
    (hnext : ∀ d', scoped? d = some d' → ∀ l x, Heads old doc w l x →
      (callRoutine m.settings ask r (next d')).Tends (courseTerms old doc) doc.head [] l x)
    (hfail : scoped? d = none → ∀ e, doc.ends (.error (.failed e))) :
    (callRoutine m.settings ask r (scope d next)).Tends (courseTerms old doc) doc.head [] l x := by
  rw [scoped?] at hnext hfail
  rw [scope]
  split
  · next htemplate =>
    rw [htemplate] at hnext
    exact hnext d rfl l x hheads
  · next template htemplate =>
    rw [htemplate] at hnext hfail
    dsimp only at hnext hfail ⊢
    split
    · next hroot =>
      rw [hroot] at hnext hfail
      dsimp only at hnext hfail
      split
      · next hnone => exact hnext d (if_pos hnone) l x hheads
      · next hsome => exact ⟨rfl, hheads.finish (.inl (hfail (if_neg hsome) _))⟩
    · next markup hroot =>
      rw [hroot] at hnext hfail
      dsimp only at hnext hfail
      apply tends_parts hask hstructured _ hheads
      · intro results hresults l' x' hheads'
        apply hnext _ (if_pos _) l' x' hheads'
        rw [List.all_eq_true]
        intro style hstyle
        obtain ⟨_, hcomes⟩ := of_forall₂_map hresults hstyle
        exact Component.isOk_of_comes hcomes
      · intro part hpart e he
        obtain ⟨style, hstyle, rfl⟩ := List.mem_map.mp hpart
        apply hfail (if_neg _)
        intro hall
        exact Component.not_isOk_of_comes he (List.all_eq_true.mp hall style hstyle)
      · intro a ha
        obtain ⟨style, _, hstyle⟩ := List.mem_map.mp ha
        exact absurd hstyle (Component.scopePart_ne_ask _ style a)

end Tends

theorem tends_document {d : Document} {next : Settings → Document → Call X} {k : K}
    {ask : Ask → Block K X Envelope}
    (hdoc : doc = outline may answers m.settings r d (next m.settings))
    (hask : Serving old doc may answers ask) (hstructured : ∀ a, Rightly Habit.any (ask a))
    (hcall : m.perform k r = Builtin.withHub r fun h => Component.prepare h r (next h))
    (hread : Component.read r.text = .ok d)
    (hmay : ∀ region ∈ d.regions, ∀ a, region.Asks m.settings r a → may a)
    (hhost : ∀ a, may a → Gives (courseTerms old doc) doc.head (Heads old doc w) (ask a) (answers a))
    (hheads : Heads old doc w l x) :
    (callRoutine m.settings ask r (m.perform k r)).Tends (courseTerms old doc) doc.head [] l x := by
  have hjoin (x : State K X) (hheads : Heads old doc w l x) :
      (callRoutine m.settings ask r (.join (d.regions.map (regionPart m.settings r)) fun results =>
        scope (fillRegions (identified m.settings r d) results) (next m.settings))).Tends
          (courseTerms old doc) doc.head [] l x := by
    apply tends_parts hask hstructured _ hheads
    · intro results hresults l' x' hheads'
      apply tends_scope hask hstructured hheads'
      · intro d' hd' l'' x'' hheads''
        apply tends_opening hstructured hhost hheads''
        · rw [hdoc]
          exact ⟨results, hresults⟩
        · rw [hdoc]
          by_cases hsettled : ∀ d, (next m.settings d).Settled
          · exact .inr (hsettled d')
          · exact .inl hsettled
        · intro c hc
          rw [hdoc]
          exact ⟨c, .inr ⟨results, hresults, .inl ⟨d', hd', hc⟩⟩, rfl⟩
      · intro hnone e
        rw [hdoc]
        exact ⟨_, .inr ⟨results, hresults, .inr ⟨hnone, e, rfl⟩⟩, rfl⟩
    · intro part hpart e he
      rw [hdoc]
      exact ⟨_, .inl ⟨part, hpart, e, he, rfl⟩, rfl⟩
    · intro a ha
      obtain ⟨region, hregion, hpart⟩ := List.mem_map.mp ha
      exact hmay region hregion a (Component.asks_of_regionPart hpart)
  rw [hcall]
  change (callRoutine m.settings ask r (Component.prepare m.settings r (next m.settings))).Tends _ _ _ _ _
  rw [Component.prepare, hread]
  dsimp only [Component.trace]
  split
  · exact hjoin _ (hheads.report _ x.calls x.history)
  · exact hjoin x hheads

/--
What may come of a request below another one that is worked out by itself.
-/
def alone (m : Machine K X) (x : State K X) (r : Request) : Ask → Except Failure Envelope → Prop :=
  Brings m x m.settings.maxDepth.toNat (some r)

/--
A region of a document fails by itself.
-/
def Fails (m : Machine K X) (x : State K X) (r : Request) (d : Document) (e : Failure) : Prop :=
  ∃ region ∈ d.regions, region.Comes (alone m x r) m.settings r (.error e)

def replied (r : Request) (v : Value) : Except (Stop Failure) (Option Envelope) :=
  ((Payload.ofValue r.mode v).mapError fun e => .failed (.contract e)).map fun p => some ⟨r, p⟩

/--
The head to which the caller may bring the styles of a component itself, if that is left to it, where options
for styles may be of no use.
-/
def pendingHead (r : Request) (d : Document) : Except Failure (Option Nat) :=
  match Component.styleTarget r.executerOptions with
  | .error e => .error e
  | .ok .caller => .ok (some Component.documentHead)
  | .ok (.head _) => .ok none
  | .ok .unusable => if d.styles.isEmpty then .ok none else .error (.noSuchAttribute "append_style")

def exported (r : Request) (d : Document) (exports : Value) : Except (Stop Failure) (Option Envelope) :=
  let name := Component.exportedName exports
  ((pendingHead r d).mapError .failed).bind fun pending => replied r (.component exports
    (if name.isNull then (Value.find? r.compilerOptions "name").getD .null else name)
    ⟨d.template.map (·.content), d.styles.map (·.content), r.location, pending⟩)

def scriptRequest (h : Settings) (r : Request) (script : Region) : Ask :=
  ⟨.interpret, .ofFields [("source", .str script.content), ("lang", .str h.component.logic),
    ("debug", .bool r.debug), ("allow_cache", .bool false),
    ("compiler_options", Component.ownOptions r.compilerOptions .script),
    ("executer_options", Component.ownOptions r.executerOptions .script)]⟩

/--
What may come of a request for a document to be run. A script that is not blank is run by itself, and if it
fails then so does the request.
-/
inductive RunsTo (m : Machine K X) (x : State K X) (may : Ask → Prop) (r : Request) (d : Document) :
    Except (Stop Failure) (Option Envelope) → Prop where
  | bare (hblank : ∀ script, d.script = some script → ∀ c ∈ script.content.toList, Text.isBlank c) :
      RunsTo m x may r d (exported r d (.program [("__name__", .str (Program.nameOf r.location))]))
  | exports {script : Region} {e : Envelope} (hscript : d.script = some script)
      (htext : ∃ c ∈ script.content.toList, Text.isBlank c = false)
      (hanswer : may (scriptRequest m.settings r script) →
        alone m x r (scriptRequest m.settings r script) (.ok e)) :
      RunsTo m x may r d (exported r d e.payload.toValue)
  | fails {script : Region} {e : Stop Failure} (hscript : d.script = some script)
      (htext : ∃ c ∈ script.content.toList, Text.isBlank c = false)
      (hanswer : may (scriptRequest m.settings r script) →
        ∃ f, alone m x r (scriptRequest m.settings r script) (.error f) ∧ e = .failed f) :
      RunsTo m x may r d (.error e)

/--
What comes of a request for a document whose regions are filled. Compiled, it is the text of the
document that scoping makes of it, together with that document; run, it has the template and the styles
of that document. If it cannot be scoped the request fails.
-/
structure Presents (m : Machine K X) (x : State K X) (may : Ask → Prop) (k : K) (r : Request)
    (filled : Document) (o : Except (Stop Failure) (Option Envelope)) : Prop where
  unscoped : scoped? filled = none → ∃ e, o = .error (.failed e)
  compiled : ∀ d, scoped? filled = some d → m.perform k r = Builtin.componentToHtml.perform r →
    o = replied r (.output (.str (d.serialize m.settings.component r.debug)) (.document d))
  run : ∀ d, scoped? filled = some d → m.perform k r = Builtin.componentValue.perform r →
    RunsTo m x may r d o

/--
A request to a hub at rest is ready for the compiler of documents, one pipeline or the other, and the
compilers of the regions are functions of their requests.
-/
structure Orders (m : Machine K X) (x : State K X) (may : Ask → Prop) (a : Ask) (r : Request) (k : K)
    (d : Document) : Prop where
  idle : x.inflight = {}
  ready : (requestOf a.mode a.options m.settings.inlineStart 0).bind (readied m x) = .ok (.fresh r)
  allowed : 0 ≤ m.settings.maxDepth
  found : compiler? x.registry r = some k
  compiler : m.perform k r = Builtin.componentToHtml.perform r ∨
    m.perform k r = Builtin.componentValue.perform r
  read : Component.read r.text = .ok d
  steady : Steady m x may
  regions : ∀ region ∈ d.regions, ∀ a, region.Asks m.settings r a → may a

variable {a : Ask} {k : K} {d : Document} {next : Settings → Document → Call X} {s : Loop K X}

namespace Orders

variable (h : Orders m x may a r k d)
include h

theorem may_of_part (a : Ask) (ha : .ask a ∈ d.regions.map (regionPart m.settings r)) : may a := by
  obtain ⟨region, hregion, hpart⟩ := List.mem_map.mp ha
  exact h.regions region hregion a (Component.asks_of_regionPart hpart)

theorem composing (hcall : m.perform k r = Builtin.withHub r fun h => Component.prepare h r (next h))
    (hs : Relation.ReflTransGen Schedule.Fires (Schedule.start x [requestRoutine m a]) s) :
    ∃ l, Composing x (outline may (alone m x r) m.settings r d (next m.settings))
      (.lead r (Assembles may (alone m x r) m.settings r d (next m.settings))) l s := by
  have hlevels : levels m.settings = m.settings.maxDepth.toNat + 1 := by
    rw [levels]
    have := h.allowed
    omega
  have hstructured (a : Ask) : Rightly Habit.any (request m m.settings.maxDepth.toNat (some r) a) :=
    structured_request (Habit.any_binds m) _ _ fun _ _ _ => trivial
  induction hs with
  | refl =>
    apply composing_start _ (by simp [Job.lead]) h.idle
    · intro l x' hfore
      apply tends_documentRequest h.ready h.found hlevels rfl (fun o ho => ho) _ hfore
      intro w l' x'' hheads
      refine tends_document rfl (serving_request h.steady _ _) hstructured hcall h.read h.regions ?_ hheads
      intro a ha
      exact gives_hosted (hosts_head x _ w) h.steady _ _ ha fun below r _ =>
        serving_request h.steady below (some r)
    · rw [outline]
      split <;> simp
  | tail _ hfires ih =>
    obtain ⟨l, hcomposing⟩ := ih
    exact hcomposing.fires hfires

theorem results_or_fails : (∃ results,
      List.Forall₂ (fun part result => part.Comes (alone m x r) (.ok result))
        (d.regions.map (regionPart m.settings r)) results) ∨ ∃ e, Fails m x r d e := by
  apply (exists_of_comes (fun _ ha => exists_brings h.steady ha) h.may_of_part).imp_right
  rintro ⟨part, hpart, e, he⟩
  obtain ⟨region, hregion, rfl⟩ := List.mem_map.mp hpart
  exact ⟨e, region, hregion, Component.comes_error_iff.mpr he⟩

theorem unique_results {results : List (Option Envelope)}
    (hresults : List.Forall₂ (fun part result => part.Comes (alone m x r) (.ok result))
      (d.regions.map (regionPart m.settings r)) results) :
    (∀ results', List.Forall₂ (fun part result => part.Comes (alone m x r) (.ok result))
        (d.regions.map (regionPart m.settings r)) results' → results' = results) ∧
      ∀ part ∈ d.regions.map (regionPart m.settings r), ∀ e, ¬ part.Comes (alone m x r) (.error e) :=
  unique_of_comes (fun _ _ _ ha => Brings.unique h.steady ha) h.may_of_part hresults

theorem not_whole {e : Failure} (hfails : Fails m x r d e) :
    ¬ (outline may (alone m x r) m.settings r d (next m.settings)).whole := by
  obtain ⟨region, hregion, he⟩ := hfails
  rintro ⟨results, hresults⟩
  exact (h.unique_results hresults).2 _ (List.mem_map_of_mem hregion) e (Component.comes_error_iff.mp he)

section Runs

variable (hcall : m.perform k r = Builtin.withHub r fun h => Component.prepare h r (next h))
  (hs : Relation.ReflTransGen Schedule.Fires (Schedule.start x [requestRoutine m a]) s)
include hcall hs

theorem all_ended (hroot : (s.outcome? 0).isSome) : ∀ t < s.tasks.length, (s.outcome? t).isSome := by
  obtain ⟨l, hcomposing⟩ := h.composing hcall hs
  exact fun t ht => hcomposing.all_ended hroot ht

theorem fails {e : Failure} (hfails : Fails m x r d e) :
    Intact x s.shared ∧
      (∀ o, s.outcome? 0 = some o → ∃ e, Fails m x r d e ∧ o = .error (.failed e)) ∧
      (s.queue = [] → (s.outcome? 0).isSome) := by
  obtain ⟨l, hcomposing⟩ := h.composing hcall hs
  have hpart : ¬ (outline may (alone m x r) m.settings r d (next m.settings)).whole := h.not_whole hfails
  refine ⟨hcomposing.intact hpart, ?_, fun hrest => hcomposing.rest hrest (.inl hpart)⟩
  intro o ho
  obtain ⟨c, ⟨part, hmem, e, he, rfl⟩ | ⟨results, hresults, _⟩, rfl⟩ := hcomposing.allows ho
  · obtain ⟨region, hregion, rfl⟩ := List.mem_map.mp hmem
    exact ⟨e, ⟨region, hregion, Component.comes_error_iff.mpr he⟩, rfl⟩
  · exact absurd ⟨results, hresults⟩ hpart

theorem succeeds {results : List (Option Envelope)}
    (hresults : List.Forall₂ (fun part result => part.Comes (alone m x r) (.ok result))
      (d.regions.map (regionPart m.settings r)) results)
    {o : Except (Stop Failure) (Option Envelope)} (ho : s.outcome? 0 = some o) :
    (scoped? (fillRegions (identified m.settings r d) results) = none → ∃ e, o = .error (.failed e)) ∧
      ∀ d', scoped? (fillRegions (identified m.settings r d) results) = some d' →
        ∃ c, (next m.settings d').Opens may (alone m x r) c ∧ o = (delivered r c).map some := by
  obtain ⟨l, hcomposing⟩ := h.composing hcall hs
  obtain ⟨hunique, hnever⟩ := h.unique_results hresults
  obtain ⟨c, ⟨part, hpart, e, he, rfl⟩ | ⟨results', hresults', hscoped⟩, rfl⟩ := hcomposing.allows ho
  · exact absurd he (hnever part hpart e)
  · rw [hunique results' hresults'] at hscoped
    rcases hscoped with ⟨d', hd', hc⟩ | ⟨hnone, e, rfl⟩
    · rw [hd']
      refine ⟨by rintro ⟨⟩, ?_⟩
      rintro _ ⟨⟩
      exact ⟨c, hc, rfl⟩
    · rw [hnone]
      exact ⟨fun _ => ⟨e, rfl⟩, by rintro _ ⟨⟩⟩

theorem rest (hsettled : ∀ d, (next m.settings d).Settled) (hrest : s.queue = []) :
    (s.outcome? 0).isSome := by
  obtain ⟨l, hcomposing⟩ := h.composing hcall hs
  exact hcomposing.rest hrest (.inr fun hmore => hmore hsettled)

end Runs

end Orders

end Hub

namespace Component

section Regular

variable {view : View X} {may : Ask → Prop} {h : Hub.Settings} {r : Request}

theorem regular_scope (d : Document) {next : Document → Call X}
    (hnext : ∀ d, (next d).Regular view may) : (scope d next).Regular view may := by
  rw [scope]
  split
  · exact hnext d
  · dsimp only
    split
    · split
      · exact hnext d
      · trivial
    · refine ⟨?_, fun _ => hnext _⟩
      intro a ha
      obtain ⟨style, _, hpart⟩ := List.mem_map.mp ha
      exact absurd hpart (scopePart_ne_ask _ style a)

theorem regular_transpile (hregions : ∀ region a, regionPart h r region = .ask a → may a) :
    (transpile h r : Call X).Regular view may := by
  have hjoin (d : Document) : (Call.join (d.regions.map (regionPart h r)) fun results =>
      scope (fillRegions d results) fun d =>
        .done r (.output (.str (d.serialize h.component r.debug)) (.document d))).Regular view may := by
    refine ⟨?_, fun _ => regular_scope _ fun _ => trivial⟩
    intro a ha
    obtain ⟨region, _, hpart⟩ := List.mem_map.mp ha
    exact hregions region a hpart
  rw [transpile, prepare]
  split
  · trivial
  · dsimp only [trace]
    split
    · exact ⟨⟨_, rfl⟩, hjoin _⟩
    · exact hjoin _

end Regular

end Component

namespace Hub

open Component (Document Region scoped? fillRegions regionPart)

variable {m : Machine K X} {x : State K X} {may : Ask → Prop} {a : Ask} {r : Request} {k : K}
variable {d : Document}

theorem delivered_done (r : Request) (v : Value) :
    (delivered r (.ok (v, r.compilerOptions, r.executerOptions))).map some = replied r v := by
  rw [delivered_ok, replied]
  cases Payload.ofValue r.mode v <;> rfl

theorem delivered_assemble {exports : Value} {c : Except (Stop Failure) (Value × Fields × Fields)}
    (hc : (Component.assemble r d exports : Call X).May c) :
    (delivered r c).map some = exported r d exports := by
  simp only [Component.assemble] at hc
  simp only [exported, pendingHead]
  cases htarget : Component.styleTarget r.executerOptions with
  | error e =>
    rw [htarget] at hc
    cases hc
    rfl
  | ok target =>
    rw [htarget] at hc
    cases target with
    | caller =>
      cases hc
      exact delivered_done r _
    | head id =>
      cases hc
      exact delivered_done r _
    | unusable =>
      rw [List.isEmpty_map] at hc
      dsimp only at hc ⊢
      cases hempty : d.styles.isEmpty with
      | true =>
        rw [hempty] at hc
        cases hc
        exact delivered_done r _
      | false =>
        rw [hempty] at hc
        cases hc
        rfl

theorem exists_next_html (r : Request) : ∃ next : Settings → Document → Call X,
    Builtin.componentToHtml.perform r =
      Builtin.withHub r (fun h => Component.prepare h r (next h)) ∧
    ∀ h d, next h d = .done r (.output (.str (d.serialize h.component r.debug)) (.document d)) :=
  ⟨_, rfl, fun _ _ => rfl⟩

variable (m x may) in
theorem exists_next_value (r : Request) : ∃ next : Settings → Document → Call X,
    Builtin.componentValue.perform r =
      Builtin.withHub r (fun h => Component.prepare h r (next h)) ∧
    ∀ (d : Document) c, (next m.settings d).Opens may (alone m x r) c →
      RunsTo m x may r d ((delivered r c).map some) := by
  refine ⟨_, rfl, ?_⟩
  intro d c hc
  have hask (script : Region) : Component.scriptAsk m.settings r script.content =
      scriptRequest m.settings r script := by
    simp only [Component.scriptAsk, scriptRequest, Component.regionOptions_eq]
  cases hscript : d.script.filter fun s => !Text.allBlank s.content.toList with
  | none =>
    rw [hscript] at hc
    rw [delivered_assemble hc.may]
    refine .bare fun script hd => ?_
    rw [hd] at hscript
    simpa [Text.allBlank] using hscript
  | some script =>
    rw [hscript] at hc
    obtain ⟨hd, htext⟩ := Option.filter_eq_some_iff.mp hscript
    rw [Bool.not_eq_true', Component.allBlank_eq_false] at htext
    dsimp only [Call.Opens] at hc
    rw [hask] at hc
    obtain ⟨e, hanswer, hmay⟩ | ⟨e, hanswer, rfl⟩ := hc
    · rw [delivered_assemble hmay]
      exact .exports hd htext hanswer
    · exact .fails hd htext hanswer

/--
A request for a document to a hub at rest, whose compilers for the regions are functions of their
requests. However the ticks are fired, they come to an end. If no region fails by itself, then there is
one document whatever the order: each region is filled with the text of its own request, or keeps its
own if there is nothing to do, and what the request comes to is that document when it has been scoped.
If some region fails by itself, then the request ends with the failure of such a region when all tasks
have ended, and till then nothing changes that requests go by, nor any result that is kept or any head.
-/
theorem assembled_of_fires (h : Orders m x may a r k d) :
    (∀ f : Nat → Loop K X, f 0 = Schedule.start x [requestRoutine m a] →
      ∃ i, ¬ (f i).Fires (f (i + 1))) ∧
    ((∀ e, ¬ Fails m x r d e) → ∃ text,
      (∀ region ∈ d.parts, region.Comes (alone m x r) m.settings r (.ok (text region))) ∧
      ∀ s, Relation.ReflTransGen Schedule.Fires (Schedule.start x [requestRoutine m a]) s →
        (∀ o, s.outcome? 0 = some o → Presents m x may k r
          ((identified m.settings r d).mapRegions (Component.Region.fill text)) o) ∧
        (m.perform k r = Builtin.componentToHtml.perform r → s.queue = [] → (s.outcome? 0).isSome)) ∧
    ∀ e, Fails m x r d e →
      ∀ s, Relation.ReflTransGen Schedule.Fires (Schedule.start x [requestRoutine m a]) s →
        Intact x s.shared ∧
        (∀ o, s.outcome? 0 = some o → (∃ e, Fails m x r d e ∧ o = .error (.failed e)) ∧
          ∀ t < s.tasks.length, (s.outcome? t).isSome) ∧
        (s.queue = [] → (s.outcome? 0).isSome) := by
  obtain ⟨next₁, hhtml, hdone⟩ := exists_next_html (X := X) r
  obtain ⟨next₂, hvalue, hruns⟩ := exists_next_value m x may r
  obtain ⟨next, hcall⟩ : ∃ next : Settings → Document → Call X,
      m.perform k r = Builtin.withHub r fun h => Component.prepare h r (next h) :=
    h.compiler.elim (fun heq => ⟨next₁, heq.trans hhtml⟩) fun heq => ⟨next₂, heq.trans hvalue⟩
  refine ⟨?_, ?_, ?_⟩
  · intro f _
    obtain ⟨_, ⟨i, rfl⟩, hmin⟩ := Schedule.wellFounded_fires.has_min (Set.range f) ⟨f 0, 0, rfl⟩
    exact ⟨i, hmin (f (i + 1)) ⟨i + 1, rfl⟩⟩
  · intro hnever
    obtain ⟨results, hresults⟩ := h.results_or_fails.resolve_right fun ⟨e, he⟩ => hnever e he
    have hapart : (identified m.settings r d).Apart := Component.apart_of_read (d := d) h.read
    obtain ⟨text, htext, hcompiled⟩ := Component.exists_texts hapart hresults
    refine ⟨text, hcompiled, fun s hs => ⟨fun o ho => ?_, fun hcompiles hrest => ?_⟩⟩
    · rw [← htext]
      refine ⟨(h.succeeds hcall hs hresults ho).1, ?_, ?_⟩
      · intro d' hd' hcompiles
        obtain ⟨c, hc, rfl⟩ := (h.succeeds (hcompiles.trans hhtml) hs hresults ho).2 d' hd'
        rw [hdone] at hc
        obtain rfl : c = _ := hc
        exact delivered_done r _
      · intro d' hd' hrun
        obtain ⟨c, hc, rfl⟩ := (h.succeeds (hrun.trans hvalue) hs hresults ho).2 d' hd'
        exact hruns d' c hc
    · apply h.rest (hcompiles.trans hhtml) hs _ hrest
      intro d'
      rw [hdone]
      trivial
  · intro e he s hs
    obtain ⟨hintact, houtcome, hrest⟩ := h.fails hcall hs he
    refine ⟨hintact, fun o ho => ⟨houtcome o ho, ?_⟩, hrest⟩
    exact h.all_ended hcall hs (Option.isSome_of_eq_some ho)

/--
A kind of compilers: for components, for two languages of regions, and for regions that need no other one.
-/
inductive Craft where
  | component
  | element
  | rule
  | plain

def studio : Machine Craft Unit where
  perform
    | .component, r => Builtin.componentToHtml.perform r
    | .element, r => .answer (.output (.str ("<" ++ r.text ++ "></" ++ r.text ++ ">")) .null)
        ((.str "seen", .bool true) :: r.compilerOptions) []
    | .rule, r => .answer (.output (.str (r.text ++ "\x7b\x7d")) .null)
        ((.str "seen", .bool true) :: r.compilerOptions) []
    | .plain, r =>
      let text := if (Value.find? r.compilerOptions "seen").isSome then "seen" else r.text
      .answer (.output (.str text) .null) ((.str "seen", .bool true) :: r.compilerOptions) []

def studioStart : State Craft Unit where
  registry := (((({} : Registry Craft).setTranspiler "vue" "html" .component).setTranspiler "pug" "html"
    .element).setTranspiler "less" "css" .rule).setTranspiler "css" "css" .plain
  ext := ()

def pageText : String :=
  "<template lang='pug'>p</template><script> </script><style lang='less'>a</style>" ++
    "<style scoped>b\x7b\x7d</style>"

def page : Document where
  template := some ⟨.template, "p", [("lang", .text "pug")], 0⟩
  script := some ⟨.script, " ", [], 33⟩
  styles := [⟨.style, "a", [("lang", .text "less")], 51⟩, ⟨.style, "b\x7b\x7d", [("scoped", .present)], 79⟩]

def pageOptions : Fields :=
  [(.str "style", .map [(.str "x", .int 1)])]

def pageAsk : Ask :=
  ⟨.transpile, .ofFields [("source", .str pageText), ("input_lang", .str "vue"), ("output_lang", .str "html"),
    ("compiler_options", .map pageOptions)]⟩

def pageRequest : Request where
  mode := .transpile
  location := inlineLocation inlineStart pageText
  inputLang := "vue"
  outputLang := some "html"
  source := some pageText
  fromLocation := false
  depth := 0
  compilerOptions := pageOptions

theorem steady_studio : Steady studio studioStart Uncached where
  uncached := fun _ => id
  regular := by
    intro a depth r k _ _ _
    cases k with
    | component => exact Component.regular_transpile fun _ _ => Component.uncached_regionPart
    | element => trivial
    | rule => trivial
    | plain => trivial

theorem orders_page : Orders studio studioStart Uncached pageAsk pageRequest .component page where
  idle := rfl
  ready := by rfl
  allowed := by decide
  found := by rfl
  compiler := .inl rfl
  read := by
    apply eq_ok_of_toOption
    rfl
  steady := steady_studio
  regions := fun _ _ _ ha => Component.uncached_regionPart (Component.regionPart_of_asks ha)

theorem comes_of_answer {region : Region} {a : Ask} {sub : Request} {k : Craft} {text : String} {v : Value}
    {compilerOptions executerOptions : Fields} {o : Except Failure String}
    (h : region.Comes (alone studio studioStart pageRequest) studio.settings pageRequest o)
    (hpart : regionPart studio.settings pageRequest region = .ask a)
    (hsub : (requestOf a.mode a.options studio.settings.inlineStart 1).bind
      (loaded studio.settings studioStart) = .ok sub)
    (hk : compiler? studioStart.registry sub = some k)
    (hcall : studio.perform k sub = .answer v compilerOptions executerOptions)
    (hv : Payload.ofValue sub.mode v = .ok (.output ⟨text, .null⟩)) : o = .ok text := by
  obtain ⟨result, hresult, rfl⟩ := Component.comes_iff.mp h
  rw [hpart] at hresult
  obtain ⟨answer, hanswer, rfl⟩ := hresult
  have hbrings : Brings studio studioStart (31 + 1) (some pageRequest) a answer := hanswer
  rw [hbrings.of_answer hsub hk hcall hv]
  rfl

def pageTexts (region : Region) : String :=
  if region.start = 0 then "<p></p>" else if region.start = 51 then "a\x7b\x7d" else region.content

theorem comes_page {region : Region} (hregion : region ∈ page.parts) {o : Except Failure String}
    (h : region.Comes (alone studio studioStart pageRequest) studio.settings pageRequest o) :
    o = .ok (pageTexts region) := by
  have hparts : page.parts = [⟨.template, "p", [("lang", .text "pug")], 0⟩, ⟨.script, " ", [], 33⟩,
    ⟨.style, "a", [("lang", .text "less")], 51⟩, ⟨.style, "b\x7b\x7d", [("scoped", .present)], 79⟩] := rfl
  rw [hparts] at hregion
  simp only [List.mem_cons, List.not_mem_nil, or_false] at hregion
  rcases hregion with rfl | rfl | rfl | rfl
  · exact comes_of_answer h rfl rfl rfl rfl rfl
  · obtain ⟨result, hresult, rfl⟩ := Component.comes_iff.mp h
    obtain rfl : result = .ok none := hresult
    rfl
  · exact comes_of_answer h rfl rfl rfl rfl rfl
  · exact comes_of_answer h rfl rfl rfl rfl rfl

def scopedPage : Document where
  template := some ⟨.template, "<p data-vue-Yib3yjWemakLXO9vlPlmjQjj></p>", [], 0⟩
  script := some ⟨.script, " ", [], 33⟩
  styles := [⟨.style, "a\x7b\x7d", [], 51⟩,
    ⟨.style, "[data-vue-Yib3yjWemakLXO9vlPlmjQjj] b\x7b\x7d", [("scoped", .present)], 79⟩]
  scopeId := "data-vue-Yib3yjWemakLXO9vlPlmjQjj"

def pageOutput : String :=
  "<template><p data-vue-Yib3yjWemakLXO9vlPlmjQjj></p></template><script type='text/x-python'> </script>" ++
    "<style type='text/css'>a\x7b\x7d</style>" ++
    "<style type='text/css'>[data-vue-Yib3yjWemakLXO9vlPlmjQjj] b\x7b\x7d</style>"

/--
Whatever the order of its ticks, the request for the page comes to the same page, and has its own options.
-/
theorem page_presented : Orders studio studioStart Uncached pageAsk pageRequest .component page ∧
    ∀ s, Relation.ReflTransGen Schedule.Fires (Schedule.start studioStart [requestRoutine studio pageAsk]) s →
      s.queue = [] →
        s.outcome? 0 = some (.ok (some ⟨pageRequest, .output ⟨pageOutput, .document scopedPage⟩⟩)) := by
  obtain ⟨_, hsucceeds, _⟩ := assembled_of_fires orders_page
  obtain ⟨text, htexts, hruns⟩ := hsucceeds (by
    rintro e ⟨region, hregion, he⟩
    cases comes_page (Document.mem_regions.mp hregion) he)
  have htext (region : Region) (hregion : region ∈ page.parts) : text region = pageTexts region :=
    Except.ok.inj (comes_page hregion (htexts region hregion))
  have hfilled : (identified studio.settings pageRequest page).mapRegions (Component.Region.fill text) =
      (identified studio.settings pageRequest page).mapRegions (Component.Region.fill pageTexts) := by
    apply Document.mapRegions_congr
    intro region hregion
    rw [Component.Region.fill, Component.Region.fill, htext region hregion]
  have hscoped : scoped? ((identified studio.settings pageRequest page).mapRegions
      (Component.Region.fill pageTexts)) = some scopedPage := by decide +kernel
  have hserialize : scopedPage.serialize studio.settings.component pageRequest.debug = pageOutput := by
    decide +kernel
  have hfull : pageOutput.isEmpty = false := by decide +kernel
  rw [hfilled] at hruns
  refine ⟨orders_page, fun s hs hrest => ?_⟩
  obtain ⟨hpresents, hends⟩ := hruns s hs
  obtain ⟨o, ho⟩ := Option.isSome_iff_exists.mp (hends rfl hrest)
  rw [ho, (hpresents o ho).compiled scopedPage hscoped rfl, hserialize]
  simp [replied, pageRequest, Payload.ofValue, Output.ofValue, Output.ofParts, hfull, Except.map, Except.mapError]

end Hub

end Polyglot
