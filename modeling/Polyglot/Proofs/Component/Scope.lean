import Mathlib.Data.List.DropRight
import Polyglot.Component.Pipeline
import Polyglot.Proofs.Component.Nesting
import Polyglot.Proofs.Component.Read
import Polyglot.Proofs.Component.Root
import Polyglot.Proofs.Hub.Rules

/-!
What the compilers of components ask for, and what they may come to.
-/

namespace Polyglot

open Hub

theorem Hub.allowCache_of_requestOf {mode : Mode} {es : Fields} {start : String} {depth : Nat}
    {r : Request} (h : requestOf mode (.map es) start depth = .ok r) :
    r.allowCache = !((Value.find? es "allow_cache").getD .null).isFalse := by
  obtain ⟨w, hw, h⟩ := bind_eq_ok.mp h
  rw [mapError_eq_ok] at hw
  have hwish : w.allowCache = !((Value.find? es "allow_cache").getD .null).isFalse := by
    obtain ⟨_, _, hw⟩ := bind_eq_ok.mp hw
    obtain ⟨_, _, hw⟩ := bind_eq_ok.mp hw
    obtain ⟨_, _, hw⟩ := bind_eq_ok.mp hw
    obtain ⟨_, _, hw⟩ := bind_eq_ok.mp hw
    obtain ⟨_, _, hw⟩ := bind_eq_ok.mp hw
    cases hw
    rfl
  rw [← hwish]
  obtain ⟨_, -, rfl⟩ | ⟨_, _, -, -, rfl⟩ := Wish.request_cases h <;> rfl

namespace Component

variable {X : Type} {h : Hub.Settings} {r : Request}

theorem uncached_of_find {mode : Mode} {fields : List (String × Value)}
    (hfind : Value.find? (fields.map fun (k, v) => (.str k, v)) "allow_cache" = some (.bool false)) :
    Uncached ⟨mode, .ofFields fields⟩ := by
  intro start depth r hr
  rw [allowCache_of_requestOf hr, hfind]
  rfl

theorem uncached_regionPart {region : Region} {a : Ask} (ha : regionPart h r region = .ask a) :
    Uncached a := by
  simp only [regionPart] at ha
  split at ha
  · split at ha
    · cases ha
      apply uncached_of_find
      simp [Value.find?, Value.isText]
    · cases ha
  · split at ha
    · cases ha
    · cases ha
      apply uncached_of_find
      simp [Value.find?, Value.isText]

theorem uncached_scriptAsk (content : String) : Uncached (scriptAsk h r content) := by
  apply uncached_of_find
  simp [Value.find?, Value.isText]

section AsksOnly

variable {may : Ask → Prop}

theorem asksOnly_scope (d : Document) {next : Document → Call X} (hnext : ∀ d, (next d).AsksOnly may) :
    (scope d next).AsksOnly may := by
  rw [scope]
  split
  · exact hnext d
  · dsimp only
    split
    · split
      · exact hnext d
      · trivial
    · refine ⟨?_, fun _ => hnext _⟩
      intro a ha
      obtain ⟨region, _, hpart⟩ := List.mem_map.mp ha
      rw [scopePart] at hpart
      split at hpart <;> cases hpart

theorem asksOnly_prepare (hregions : ∀ region a, regionPart h r region = .ask a → may a)
    {next : Document → Call X} (hnext : ∀ d, (next d).AsksOnly may) :
    (prepare h r next).AsksOnly may := by
  rw [prepare]
  split
  · trivial
  · have hjoin (d : Document) : (Call.join (d.regions.map (regionPart h r)) fun results =>
        scope (fillRegions d results) next).AsksOnly may := by
      refine ⟨?_, fun _ => asksOnly_scope _ hnext⟩
      intro a ha
      obtain ⟨region, _, hpart⟩ := List.mem_map.mp ha
      exact hregions region a hpart
    dsimp only [trace]
    split
    · exact hjoin _
    · exact hjoin _

theorem asksOnly_transpile (hregions : ∀ region a, regionPart h r region = .ask a → may a) :
    (transpile h r : Call X).AsksOnly may :=
  asksOnly_prepare hregions fun _ => trivial

theorem asksOnly_assemble (d : Document) (exports : Value) :
    (assemble r d exports : Call X).AsksOnly may := by
  simp only [assemble]
  split
  · trivial
  · trivial
  · trivial
  · split
    · trivial
    · trivial

theorem asksOnly_interpret (hregions : ∀ region a, regionPart h r region = .ask a → may a)
    (hscript : ∀ content, may (scriptAsk h r content)) :
    (interpret h r : Call X).AsksOnly may := by
  apply asksOnly_prepare hregions
  intro d
  split
  · exact asksOnly_assemble d _
  · exact ⟨hscript _, fun _ => asksOnly_assemble d _⟩

end AsksOnly

/--
What scoping makes of a document. Without a template, or with one that has no root element, nothing
changes; in the latter case there must be no scoped style.
-/
structure Scopes (d d' : Document) : Prop where
  script : d'.script = d.script
  styles : List.Forall₂ (fun style style' =>
    (style.isScoped ∧ d.template.isSome →
      Style.scopeSheet d.scopeId.toList style.content.toList = .ok style'.content.toList) ∧
    (¬ (style.isScoped ∧ d.template.isSome) → style' = style)) d.styles d'.styles
  template : match d.template with
    | none => d'.template = none
    | some template => ∃ template', d'.template = some template' ∧
      match injectScope? d.scopeId.toList template.content.toList with
      | none => template' = template ∧ ∀ style ∈ d.styles, ¬ style.isScoped
      | some markup => template'.content.toList = markup

theorem scopeSheet_of_scopePart {id : String} {style : Region} (hscoped : style.isScoped)
    (hpart : ∀ e, scopePart id style ≠ .failed e) :
    Style.scopeSheet id.toList style.content.toList =
      .ok (scopeOrKeep id style).content.toList := by
  rw [scopeOrKeep]
  cases hsheet : Style.scopeSheet id.toList style.content.toList with
  | ok css => simp [scopeRegion, hscoped, hsheet]
  | error e => exact absurd (by simp [scopePart, scopeRegion, hscoped, hsheet]) (hpart (.substitution e))

theorem scopeOrKeep_of_not_scoped {id : String} {style : Region} (hscoped : ¬ style.isScoped) :
    scopeOrKeep id style = style := by
  simp [scopeOrKeep, scopeRegion, hscoped]

section Yields

variable {sees : View X → Prop} {answers : Ask → Envelope → Prop} {v : Value}
variable {compilerOptions executerOptions : Fields}

theorem yields_scope {d : Document} {next : Document → Call X}
    (hy : (scope d next).Yields sees answers v compilerOptions executerOptions) :
    ∃ d', Scopes d d' ∧ (next d').Yields sees answers v compilerOptions executerOptions := by
  rw [scope] at hy
  split at hy
  · next htemplate =>
    refine ⟨d, ⟨rfl, ?_, by rw [htemplate]⟩, hy⟩
    rw [List.forall₂_same]
    intro style _
    exact ⟨fun h => by simp [htemplate] at h, fun _ => rfl⟩
  · next template htemplate =>
    dsimp only at hy
    split at hy
    · next hroot =>
      split at hy
      · next hnone =>
        have hplain : ∀ style ∈ d.styles, ¬ style.isScoped := by
          rw [List.isEmpty_iff, List.filter_eq_nil_iff] at hnone
          exact hnone
        refine ⟨d, ⟨rfl, ?_, ?_⟩, hy⟩
        · rw [List.forall₂_same]
          intro style hstyle
          exact ⟨fun h => absurd h.1 (hplain style hstyle), fun _ => rfl⟩
        · rw [htemplate]
          refine ⟨template, rfl, ?_⟩
          rw [hroot]
          exact ⟨rfl, hplain⟩
      · exact hy.elim
    · next markup hroot =>
      obtain ⟨results, hparts, hy⟩ := hy
      refine ⟨{ d with
        template := some { template with content := String.ofList markup }
        styles := d.styles.map (scopeOrKeep d.scopeId) }, ⟨rfl, ?_, ?_⟩, hy⟩
      · rw [List.forall₂_map_right_iff, List.forall₂_same]
        intro style hstyle
        refine ⟨?_, ?_⟩
        · intro hscoped
          apply scopeSheet_of_scopePart hscoped.1
          intro e hfailed
          have hmem : style ∈ d.styles.filter (·.isScoped) :=
            List.mem_filter.mpr ⟨hstyle, hscoped.1⟩
          obtain ⟨_, hresult⟩ := of_forall₂_map hparts hmem
          rw [hfailed] at hresult
          exact hresult
        · intro hscoped
          exact scopeOrKeep_of_not_scoped fun h => hscoped ⟨h, by simp [htemplate]⟩
      · rw [htemplate]
        refine ⟨_, rfl, ?_⟩
        rw [hroot]
        simp

theorem yields_prepare {next : Document → Call X}
    (hy : (prepare h r next).Yields sees answers v compilerOptions executerOptions) :
    ∃ d results, read r.text = .ok d ∧
      List.Forall₂ (Part.Yields answers) (d.regions.map (regionPart h r)) results ∧
      (scope (fillRegions { d with scopeId := h.component.naming.name r.text } results) next).Yields
        sees answers v compilerOptions executerOptions := by
  rw [prepare] at hy
  split at hy
  · exact hy.elim
  · next d hd =>
    dsimp only [trace] at hy
    split at hy
    · obtain ⟨results, hresults, hy⟩ := hy
      exact ⟨d, results, hd, hresults, hy⟩
    · obtain ⟨results, hresults, hy⟩ := hy
      exact ⟨d, results, hd, hresults, hy⟩

end Yields

end Component

end Polyglot

/-!
What becomes of the styles and the template of a component: where there is a template, scoped styles
are confined to its root element, and every other style comes out as it was compiled.
-/

namespace Polyglot

namespace Component

section Fill

variable {answers : Ask → Envelope → Prop} {h : Hub.Settings} {r : Request}

def Compiled (answers : Ask → Envelope → Prop) (h : Hub.Settings) (r : Request) (region : Region)
    (content : String) : Prop :=
  ∃ result, Part.Yields answers (regionPart h r region) result ∧
    content = (result.map (·.payload.text)).getD region.content

theorem lookup_start {p : Region → Option Envelope → Prop} {regions : List Region}
    {results : List (Option Envelope)} (h : List.Forall₂ p regions results)
    (hnodup : (regions.map (·.start)).Nodup) {region : Region} (hmem : region ∈ regions) :
    ∃ result, p region result ∧ List.lookup region.start ((regions.zip results).filterMap
      fun (region, e) => e.map fun e => (region.start, e.payload.text)) =
        result.map (·.payload.text) := by
  induction h with
  | nil => cases hmem
  | @cons first result regions results hp hrest ih =>
    obtain ⟨hfirst, hnodup⟩ := List.nodup_cons.mp hnodup
    rw [List.zip_cons_cons, List.filterMap_cons]
    rcases List.mem_cons.mp hmem with rfl | hmem
    · refine ⟨result, hp, ?_⟩
      cases result with
      | none =>
        apply List.lookup_eq_none_iff.mpr
        rintro ⟨start, text⟩ hentry
        obtain ⟨⟨other, e⟩, hzip, hother⟩ := List.mem_filterMap.mp hentry
        obtain ⟨e', _, heq⟩ := Option.map_eq_some_iff.mp hother
        cases heq
        rw [bne_iff_ne]
        intro hstart
        exact hfirst (List.mem_map.mpr ⟨other, (List.of_mem_zip hzip).1, hstart.symm⟩)
      | some e => simp
    · obtain ⟨result', hp', hlookup⟩ := ih hnodup hmem
      refine ⟨result', hp', ?_⟩
      have hne : (region.start == first.start) = false := by
        rw [beq_eq_false_iff_ne]
        intro hstart
        exact hfirst (List.mem_map.mpr ⟨region, hmem, hstart⟩)
      cases result with
      | none => exact hlookup
      | some e =>
        rw [← hlookup]
        simp [List.lookup_cons, hne]

structure Fills (answers : Ask → Envelope → Prop) (h : Hub.Settings) (r : Request)
    (region filled : Region) : Prop where
  content : Compiled answers h r region filled.content
  isScoped : filled.isScoped = region.isScoped

theorem get_erase {as : Attributes} {name other : String} (h : name ≠ other) :
    (as.erase other).get? name = as.get? name := by
  rw [Attributes.get?, Attributes.get?, Attributes.erase, List.find?_filter]
  congr 2
  funext a
  by_cases ha : a.1 = name
  · simp [ha, h]
  · simp [ha]

theorem fills_fillRegions {d : Document} (hapart : d.Apart) {results : List (Option Envelope)}
    (hresults : List.Forall₂ (Part.Yields answers) (d.regions.map (regionPart h r)) results) :
    ∃ f, fillRegions d results = d.mapRegions f ∧
      ∀ region ∈ d.parts, Fills answers h r region (f region) := by
  refine ⟨_, rfl, ?_⟩
  intro region hregion
  rw [List.forall₂_map_left_iff] at hresults
  have hnodup : (d.regions.map (·.start)).Nodup := (d.perm_regions.map _).nodup_iff.mpr hapart
  obtain ⟨result, hresult, hlookup⟩ :=
    lookup_start hresults hnodup (Document.mem_regions.mpr hregion)
  refine ⟨⟨result, hresult, ?_⟩, ?_⟩
  · dsimp only
    rw [← hlookup]
  · rw [Region.isScoped, Region.isScoped, get_erase (by decide), get_erase (by decide)]

end Fill

section Confined

variable {X : Type} {sees : View X → Prop} {answers : Ask → Envelope → Prop} {h : Hub.Settings}
variable {r : Request} {v : Value} {compilerOptions executerOptions : Fields}

/--
What comes out for a document. Styles come out in their order: a scoped style of a document with a
template is confined to the scope, and any other style is what it was compiled to, scoped or not. If
there is a scoped style and a template, what the template was compiled to starts with an element, whose
first attribute then is the scope id, unless the name of the element goes on behind its word
characters and hyphens.
-/
structure Confined (answers : Ask → Envelope → Prop) (h : Hub.Settings) (r : Request)
    (d d' : Document) : Prop where
  styles : List.Forall₂ (fun style style' => ∃ css, Compiled answers h r style css ∧
    (style.isScoped ∧ d.template.isSome →
      Style.scopeSheet (h.component.naming.name r.text).toList css.toList =
        .ok style'.content.toList) ∧
    (¬ (style.isScoped ∧ d.template.isSome) → style'.content = css)) d.styles d'.styles
  template : ∀ template, d.template = some template → ∃ markup template',
    Compiled answers h r template markup ∧ d'.template = some template' ∧
    ((∃ style ∈ d.styles, style.isScoped) → ∃ tag rest,
      rootTag? markup.toList = some (tag, rest) ∧
      (EndsName rest →
        Carries (h.component.naming.name r.text).toList template'.content.toList) ∧
      (¬ EndsName rest → template'.content.toList =
        '<' :: tag ++ ' ' :: (h.component.naming.name r.text).toList ++ rest))

theorem confined_of_prepare {next : Document → Call X}
    (hy : (prepare h r next).Yields sees answers v compilerOptions executerOptions) :
    ∃ d d', read r.text = .ok d ∧ Confined answers h r d d' ∧
      (next d').Yields sees answers v compilerOptions executerOptions := by
  obtain ⟨d, results, hread, hresults, hy⟩ := yields_prepare hy
  obtain ⟨d', hscopes, hy⟩ := yields_scope hy
  have hapart : Document.Apart { d with scopeId := h.component.naming.name r.text } :=
    apart_of_read (d := d) hread
  obtain ⟨f, hf, hfills⟩ := fills_fillRegions hapart hresults
  rw [hf] at hscopes
  refine ⟨d, d', hread, ⟨?_, ?_⟩, hy⟩
  · have hstyles := hscopes.styles
    rw [Document.mapRegions, List.forall₂_map_left_iff] at hstyles
    apply forall₂_imp_of_mem hstyles
    rintro style style' hstyle ⟨hconfined, hkept⟩
    have hfill := hfills style (List.mem_append_right _ hstyle)
    rw [hfill.isScoped, Option.isSome_map] at hconfined hkept
    exact ⟨_, hfill.content, hconfined, fun hnot => by rw [hkept hnot]⟩
  · intro template htemplate
    have hfill := hfills template (by simp [Document.parts, htemplate])
    have hscoped := hscopes.template
    simp only [Document.mapRegions, htemplate, Option.map_some] at hscoped
    obtain ⟨template', htemplate', hinject⟩ := hscoped
    refine ⟨_, template', hfill.content, htemplate', ?_⟩
    rintro ⟨style, hstyle, hmarked⟩
    split at hinject
    · refine absurd ?_ (hinject.2 (f style) (List.mem_map_of_mem hstyle))
      rw [(hfills style (List.mem_append_right _ hstyle)).isScoped]
      exact hmarked
    · next markup' hmarkup =>
      rw [hinject]
      exact carries_of_injectScope hmarkup

theorem yields_assemble {d : Document} {exports : Value}
    (hy : (assemble r d exports : Call X).Yields sees answers v compilerOptions executerOptions) :
    ∃ name pending, v = .component exports name
      ⟨d.template.map (·.content), d.styles.map (·.content), r.location, pending⟩ := by
  simp only [assemble] at hy
  split at hy
  · exact hy.elim
  · exact ⟨_, _, hy.1.symm⟩
  · exact ⟨_, _, hy.1.symm⟩
  · split at hy
    · exact ⟨_, _, hy.1.symm⟩
    · exact hy.elim

/--
Whenever a component has a result, be it compiled or run, the result holds a document that is confined
as far as it has a template.
-/
theorem confined_of_yields :
    ((transpile h r : Call X).Yields sees answers v compilerOptions executerOptions →
      ∃ d d', read r.text = .ok d ∧ Confined answers h r d d' ∧
        v = .output (.str (d'.serialize h.component r.debug)) (.document d')) ∧
    ((interpret h r : Call X).Yields sees answers v compilerOptions executerOptions →
      ∃ d d' exports name pending, read r.text = .ok d ∧ Confined answers h r d d' ∧
        v = .component exports name
          ⟨d'.template.map (·.content), d'.styles.map (·.content), r.location, pending⟩) := by
  refine ⟨?_, ?_⟩
  · intro hy
    obtain ⟨d, d', hread, hconfined, hy⟩ := confined_of_prepare hy
    exact ⟨d, d', hread, hconfined, hy.1.symm⟩
  · intro hy
    obtain ⟨d, d', hread, hconfined, hy⟩ := confined_of_prepare hy
    have hassemble {exports : Value}
        (hy : (assemble r d' exports : Call X).Yields sees answers v compilerOptions
          executerOptions) : ∃ d d' exports name pending, read r.text = .ok d ∧
        Confined answers h r d d' ∧ v = .component exports name
          ⟨d'.template.map (·.content), d'.styles.map (·.content), r.location, pending⟩ := by
      obtain ⟨name, pending, hv⟩ := yields_assemble hy
      exact ⟨d, d', exports, name, pending, hread, hconfined, hv⟩
    split at hy
    · exact hassemble hy
    · obtain ⟨e, _, hy⟩ := hy
      exact hassemble hy

def bare : Request where
  mode := .transpile
  location := "bare.vue"
  inputLang := "vue"
  outputLang := some "html"
  source := some "<style scoped>p \x7b\x7d</style>"

def bareStyle : Region :=
  ⟨.style, "p \x7b\x7d", [("scoped", .present)], 0⟩

theorem read_bare : read bare.text = .ok { styles := [bareStyle] } := by
  apply eq_ok_of_toOption
  rfl

def plainAnswers (_ : Ask) (e : Envelope) : Prop :=
  e = ⟨bare, .output ⟨bareStyle.content, .null⟩⟩

theorem regionPart_bareStyle : ∃ a, regionPart {} bare bareStyle = .ask a := by
  have hask : (match regionPart {} bare bareStyle with
    | .ask _ => true
    | _ => false) = true := by rfl
  split at hask
  · next a heq => exact ⟨a, heq⟩
  · cases hask

/--
There is no template that the style could be confined to: it comes out as it was compiled.
-/
theorem bare_unconfined : ∃ v, (transpile {} bare : Call Unit).Yields (fun _ => True) plainAnswers v [] [] ∧
    ∃ d d', read bare.text = .ok d ∧ Confined plainAnswers {} bare d d' ∧
      (∃ style ∈ d.styles, style.isScoped) ∧ d'.styles.map (·.content) = [bareStyle.content] := by
  obtain ⟨a, ha⟩ := regionPart_bareStyle
  have hy : ∃ v, (transpile {} bare : Call Unit).Yields (fun _ => True) plainAnswers v [] [] := by
    rw [transpile, prepare, read_bare]
    refine ⟨_, [some ⟨bare, .output ⟨bareStyle.content, .null⟩⟩], ?_, rfl, rfl, rfl⟩
    refine .cons ?_ .nil
    rw [ha]
    exact ⟨_, rfl, rfl⟩
  obtain ⟨v, hy⟩ := hy
  obtain ⟨d, d', hread, hconfined, _⟩ := confined_of_yields.1 hy
  obtain rfl := Except.ok.inj (read_bare.symm.trans hread)
  refine ⟨v, hy, _, d', hread, hconfined, ⟨bareStyle, List.mem_singleton_self _, by decide⟩, ?_⟩
  obtain ⟨style', rest, ⟨css, ⟨result, hresult, hcss⟩, _, hkept⟩, hrest, heq⟩ :=
    List.forall₂_cons_left_iff.mp hconfined.styles
  rw [List.forall₂_nil_left_iff] at hrest
  rw [ha] at hresult
  obtain ⟨e, rfl, rfl⟩ := hresult
  rw [heq, hrest, List.map_singleton, hkept (by simp), hcss]
  rfl

end Confined

end Component

end Polyglot
