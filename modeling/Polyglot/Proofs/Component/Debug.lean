import Polyglot.Compiler.Builtin
import Polyglot.Proofs.Component.RoundTrip
import Polyglot.Proofs.Hub.Paired

/-!
Components that are compiled for debugging and as they are: the same steps are taken for both, if the
compilers of their regions make no difference between the two. Only the layout of the text differs that is
written in the end.
-/

namespace Polyglot

open Hub

variable {K X : Type}

namespace Hub

def Heedless (m : Machine K X) (k : K) : Prop :=
  ∀ r debug, m.perform k (r.debugged debug) = m.perform k r

def Unheeded (m : Machine K X) (x : State K X) (a : Ask) : Prop :=
  ∀ depth r k, requestOf a.mode a.options m.settings.inlineStart depth = .ok r →
    compiler? x.registry r = some k → Heedless m k

theorem paired_of_fields {m : Machine K X} {x : State K X} {es es' : Fields} {mode : Mode}
    (h : SameButDebug es es') (ha : Unheeded m x ⟨mode, .map es⟩) :
    Paired m x (Told (isDebug es) (isDebug es')) ⟨mode, .map es⟩ ⟨mode, .map es'⟩ := by
  refine ⟨_, _, twin_of_fields h mode _, fun e he => ⟨he, rfl⟩, ?_⟩
  rintro depth r k ⟨r₀, hr₀, hr⟩ hk
  obtain ⟨source, rfl⟩ := exists_source_of_loaded hr
  exact ha depth r₀ k hr₀ hk _ _

theorem sameButDebug_flag (front back : List (String × Value)) (debug debug' : Bool) :
    SameButDebug ((front ++ ("debug", .bool debug) :: back).map fun (k, v) => (.str k, v))
      ((front ++ ("debug", .bool debug') :: back).map fun (k, v) => (.str k, v)) := by
  intro key hkey
  have hflag : Value.isText key (Value.str "debug") = false := by
    rw [Value.isText]
    exact beq_false_of_ne hkey
  have hskip (debug : Bool) :
      Value.find? ((front ++ ("debug", .bool debug) :: back).map fun (k, v) => (.str k, v)) key =
        Value.find? ((front ++ back).map fun (k, v) => (.str k, v)) key := by
    simp only [Value.find?, List.map_append, List.find?_append, List.map_cons, List.find?_cons, hflag]
  exact (hskip debug).trans (hskip debug').symm

end Hub

namespace Component

variable {h : Hub.Settings} {pair : (Envelope → Envelope → Prop) → Ask → Ask → Prop}
variable {ends : Value → Value → Prop} {m : Machine K X} {x : State K X} (r : Request) (debug' : Bool)

theorem regionPart_flag (h : Hub.Settings) (region : Region) :
    (∃ front back, ∀ debug, regionPart h (r.debugged debug) region =
        .ask ⟨.transpile, .ofFields (front ++ ("debug", .bool debug) :: back)⟩ ∧
          isDebug ((front ++ ("debug", .bool debug) :: back).map fun (k, v) => (.str k, v)) = debug) ∨
      ∃ part, (∀ a, part ≠ .ask a) ∧ ∀ debug, regionPart h (r.debugged debug) region = part := by
  let target := h.component.language region.kind
  let front : List (String × Value) := [("output_lang", .str target)]
  let kept : List (String × Value) := [("allow_cache", .bool false),
    ("compiler_options", regionOptions r.compilerOptions region.kind),
    ("executer_options", regionOptions r.executerOptions region.kind)]
  let named := (region.attrs.text? "lang").map fun lang => ("input_lang", Value.str lang)
  have hflag (back : List (String × Value)) (debug : Bool) :
      isDebug ((front ++ ("debug", .bool debug) :: back).map fun (k, v) => (.str k, v)) = debug := by
    simp [front, isDebug, Value.find?, Value.isText, Value.isTrue]
  have hplace (debug : Bool) : placeOf h (r.debugged debug) = placeOf h r := rfl
  simp only [regionPart, hplace]
  cases region.attrs.text? "src" with
  | some src =>
    dsimp only
    cases resolve (placeOf h r) src with
    | ok location =>
      refine .inl ⟨front, kept ++ named.toList ++ [("location", .str location)], fun debug => ⟨?_, hflag _ _⟩⟩
      rfl
    | error e => exact .inr ⟨.failed (.address e), by rintro _ ⟨⟩, fun _ => rfl⟩
  | none =>
    by_cases hblank : Text.allBlank region.content.toList
    · exact .inr ⟨.done, by rintro _ ⟨⟩, fun _ => by rw [if_pos hblank]⟩
    · refine .inl ⟨front, kept ++ [named.getD ("input_lang", .str target), ("source", .str region.content)],
        fun debug => ⟨?_, hflag _ _⟩⟩
      rw [if_neg hblank]
      rfl

theorem pair_regionPart {region : Region}
    (hregion : ∀ a, regionPart m.settings r region = .ask a → Unheeded m x a) :
    Part.Pair (Paired m x) (Told r.debug debug') (regionPart m.settings r region)
      (regionPart m.settings (r.debugged debug') region) := by
  rcases regionPart_flag r m.settings region with ⟨front, back, hpart⟩ | ⟨part, hask, hpart⟩
  · obtain ⟨hpart₁, hflag₁⟩ := hpart r.debug
    obtain ⟨hpart₂, hflag₂⟩ := hpart debug'
    rw [r.debugged_self] at hpart₁
    rw [hpart₁, hpart₂]
    have hpaired := paired_of_fields (sameButDebug_flag front back r.debug debug') (hregion _ hpart₁)
    rwa [hflag₁, hflag₂] at hpaired
  · have hpart₁ := hpart r.debug
    rw [r.debugged_self] at hpart₁
    rw [hpart₁, hpart debug']
    cases part with
    | ask a => exact absurd rfl (hask a)
    | done => trivial
    | failed e => rfl

theorem paired_scriptAsk {content : String} (hscript : Unheeded m x (scriptAsk m.settings r content)) :
    Paired m x (Told r.debug debug') (scriptAsk m.settings r content)
      (scriptAsk m.settings (r.debugged debug') content) := by
  let front : List (String × Value) := [("source", .str content), ("lang", .str m.settings.component.logic)]
  let back : List (String × Value) := [("allow_cache", .bool false),
    ("compiler_options", regionOptions r.compilerOptions .script),
    ("executer_options", regionOptions r.executerOptions .script)]
  have hflag (debug : Bool) :
      isDebug ((front ++ ("debug", .bool debug) :: back).map fun (k, v) => (.str k, v)) = debug := by
    simp [front, isDebug, Value.find?, Value.isText, Value.isTrue]
  have hpaired := paired_of_fields (sameButDebug_flag front back r.debug debug') hscript
  rwa [hflag, hflag] at hpaired

theorem fillRegions_congr (d : Document) {results results' : List (Option Envelope)}
    (hresults : results.map (·.map (·.payload)) = results'.map (·.map (·.payload))) :
    fillRegions d results = fillRegions d results' := by
  have htexts (results : List (Option Envelope)) :
      ((d.regions.zip results).filterMap fun z => z.2.map fun e => (z.1.start, e.payload.text)) =
        (d.regions.zip (results.map (·.map (·.payload)))).filterMap fun z =>
          z.2.map fun p => (z.1.start, p.text) := by
    rw [List.zip_map_right, List.filterMap_map]
    congr 1
    funext z
    rw [Function.comp, Prod.map, Option.map_map]
    rfl
  have hfill (results : List (Option Envelope)) : fillRegions d results = d.mapRegions fun region =>
      { region with
        content := (((d.regions.zip results).filterMap fun z =>
          z.2.map fun e => (z.1.start, e.payload.text)).lookup region.start).getD region.content
        attrs := (region.attrs.erase "lang").erase "src" } := rfl
  rw [hfill, hfill, htexts results, htexts results', hresults]

/--
What is written between the regions of a document, and before and after the content of each.
-/
structure Layout where
  separator : String
  before : RegionKind → String
  after : RegionKind → String

def Layout.write (l : Layout) (d : Document) : String :=
  l.separator.intercalate
    (d.regions.map fun region => l.before region.kind ++ region.content ++ l.after region.kind)

/--
The layouts of the serializer: tags on lines of their own for debugging, and else tags that say what they
hold.
-/
def layout (s : Settings) (debug : Bool) : Layout :=
  if debug then
    ⟨"\n\n", fun kind => "<" ++ kind.name ++ ">\n", fun kind => "\n</" ++ kind.name ++ ">"⟩
  else
    ⟨"", fun kind => "<" ++ kind.name ++ Region.openingAttrs s kind ++ ">",
      fun kind => "</" ++ kind.name ++ ">"⟩

theorem serialize_eq_write (s : Settings) (debug : Bool) (d : Document) :
    d.serialize s debug = (layout s debug).write d := by
  have hregion (region : Region) : region.serialize s debug =
      (layout s debug).before region.kind ++ region.content ++ (layout s debug).after region.kind := by
    cases debug with
    | true => simp [Region.serialize, layout, String.append_assoc]
    | false =>
      apply String.toList_inj.mp
      rw [Region.serialize_toList]
      simp [layout, closing]
  rw [Document.serialize, Layout.write, List.map_congr_left fun region _ => hregion region]
  cases debug <;> rfl

theorem write_eq_empty_iff (s : Settings) (debug : Bool) (d : Document) :
    (layout s debug).write d = "" ↔ d.regions = [] := by
  have hbefore (kind : RegionKind) : (layout s debug).before kind ≠ "" := by
    intro h
    have hempty := congrArg String.toList h
    cases debug <;> simp [layout] at hempty
  rw [Layout.write]
  cases d.regions with
  | nil => exact ⟨fun _ => rfl, fun _ => rfl⟩
  | cons region regions =>
    refine ⟨fun h => ?_, nofun⟩
    have hempty := congrArg String.toList h
    cases regions with
    | nil => simp [hbefore] at hempty
    | cons next regions => simp [hbefore, String.intercalate_cons_cons] at hempty

theorem pair_trace (text : String) {next next' : Call X} (hnext : next.Pair h pair ends next') :
    (trace r text next).Pair h pair ends (trace (r.debugged debug') text next') := by
  rw [trace, trace]
  cases r.debug with
  | true =>
    cases hdebug' : debug' with
    | true => exact .effect hnext
    | false => exact .left hnext
  | false =>
    cases hdebug' : debug' with
    | true => exact .right hnext
    | false => exact hnext

theorem pair_scope (d : Document) {next next' : Document → Call X}
    (hnext : ∀ d, (next d).Pair h pair ends (next' d)) :
    (scope d next).Pair h pair ends (scope d next') := by
  rw [scope, scope]
  split
  · exact hnext d
  · dsimp only
    split
    · split
      · exact hnext d
      · exact .fail
    · refine .join (q := Eq) (fun _ _ he => he ▸ rfl) ?_ fun _ _ _ => hnext _
      rw [List.forall₂_same]
      intro part hpart
      obtain ⟨region, _, rfl⟩ := List.mem_map.mp hpart
      rw [scopePart]
      split
      · trivial
      · rfl

section Compilers

variable (hregions : ∀ d, read r.text = .ok d → ∀ region ∈ d.regions, ∀ a,
  regionPart m.settings r region = .ask a → Unheeded m x a)
include hregions

theorem pair_prepare {next next' : Document → Call X}
    (hnext : ∀ d, (next d).Pair m.settings (Paired m x) ends (next' d)) :
    (prepare m.settings r next).Pair m.settings (Paired m x) ends
      (prepare m.settings (r.debugged debug') next') := by
  have htext : (r.debugged debug').text = r.text := rfl
  rw [prepare, prepare, htext]
  cases hread : read r.text with
  | error e => exact .fail
  | ok d =>
    apply pair_trace r debug'
    refine .join (q := Told r.debug debug') ?_ ?_ ?_
    · rintro e _ ⟨_, rfl⟩
      rfl
    · rw [List.forall₂_map_left_iff, List.forall₂_map_right_iff, List.forall₂_same]
      exact fun region hregion => pair_regionPart r debug' (hregions d hread region hregion)
    · intro results results' hresults
      have hpayloads : results.map (·.map (·.payload)) = results'.map (·.map (·.payload)) := by
        induction hresults with
        | nil => rfl
        | cons he _ ih =>
          rw [List.map_cons, List.map_cons, ih]
          rcases he with ⟨_, rfl⟩ | _ <;> rfl
      rw [fillRegions_congr _ hpayloads]
      exact pair_scope _ hnext

def Laid (h : Hub.Settings) (debug debug' : Bool) (v v' : Value) : Prop :=
  ∃ d : Document, v = .output (.str (d.serialize h.component debug)) (.document d) ∧
    v' = .output (.str (d.serialize h.component debug')) (.document d)

theorem pair_transpile : (transpile m.settings r : Call X).Pair m.settings (Paired m x)
    (Laid m.settings r.debug debug') (transpile m.settings (r.debugged debug')) :=
  pair_prepare r debug' hregions fun d => .answer ⟨d, rfl, rfl⟩

theorem pair_interpret (hscript : ∀ content, Unheeded m x (scriptAsk m.settings r content)) :
    (interpret m.settings r : Call X).Pair m.settings (Paired m x) Eq
      (interpret m.settings (r.debugged debug')) := by
  refine pair_prepare r debug' hregions fun d => ?_
  have hassemble (exports : Value) : (assemble r d exports : Call X).Pair m.settings (Paired m x) Eq
      (assemble (r.debugged debug') d exports) := by
    have hsame : (assemble (r.debugged debug') d exports : Call X) = assemble r d exports := rfl
    rw [hsame]
    exact Call.pair_self (paired_self m x) _
  have hname : (r.debugged debug').location = r.location := rfl
  rw [hname]
  split
  · exact hassemble _
  · refine .ask (paired_scriptAsk r debug' (hscript _)) ?_
    rintro e _ ⟨_, rfl⟩
    exact hassemble _

end Compilers

end Component

end Polyglot
