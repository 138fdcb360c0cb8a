import Polyglot.Compiler.Call
import Polyglot.Component.Reference
import Polyglot.Component.Root
import Polyglot.Program.Basic
import Polyglot.Style.Sheet

/-!
Compiling components: the regions of a document are compiled side by side, its scoped styles confined
to the root element of its template, and what comes out is written as one text or made into a value.

Regions are compiled by the hub, one level deeper, and their results are never kept.
-/

namespace Polyglot.Component

variable {X : Type}

/--
The options that a request has for one kind of region; empty ones count as none.
-/
def regionOptions (options : Fields) (kind : RegionKind) : Value :=
  match Value.find? options kind.name with
  | some v => if v.truthy then v else .map []
  | none => .map []

def placeOf (h : Hub.Settings) (r : Request) : Place :=
  ⟨r.location, r.fromLocation, h.inlineStart⟩

/--
What has to be done for a region: nothing if it is blank and has no source of its own.
-/
def regionPart (h : Hub.Settings) (r : Request) (region : Region) : Part :=
  let target := h.component.language region.kind
  let base : List (String × Value) := [("output_lang", .str target), ("debug", .bool r.debug),
    ("allow_cache", .bool false),
    ("compiler_options", regionOptions r.compilerOptions region.kind),
    ("executer_options", regionOptions r.executerOptions region.kind)]
  let named := (region.attrs.text? "lang").map fun lang => ("input_lang", Value.str lang)
  match region.attrs.text? "src" with
  | some src =>
    match resolve (placeOf h r) src with
    | .ok location =>
      .ask ⟨.transpile, .ofFields (base ++ named.toList ++ [("location", .str location)])⟩
    | .error e => .failed (.address e)
  | none =>
    if Text.allBlank region.content.toList then .done
    else
      let lang := named.getD ("input_lang", .str target)
      .ask ⟨.transpile, .ofFields (base ++ [lang, ("source", .str region.content)])⟩

/--
A document whose regions have got the texts that came out for them. The attributes that said where a
region came from are gone.
-/
def fillRegions (d : Document) (results : List (Option Envelope)) : Document :=
  let texts := (d.regions.zip results).filterMap fun (region, e) =>
    e.map fun e => (region.start, e.payload.text)
  d.mapRegions fun region =>
    { region with
      content := (texts.lookup region.start).getD region.content
      attrs := (region.attrs.erase "lang").erase "src" }

def scopeRegion (id : String) (region : Region) : Except Failure Region :=
  if region.isScoped then
    match Style.scopeSheet id.toList region.content.toList with
    | .ok css => .ok { region with content := String.ofList css }
    | .error e => .error (.substitution e)
  else .ok region

def scopePart (id : String) (region : Region) : Part :=
  match scopeRegion id region with
  | .ok _ => .done
  | .error e => .failed e

def scopeOrKeep (id : String) (region : Region) : Region :=
  match scopeRegion id region with
  | .ok confined => confined
  | .error _ => region

/--
Gives the root element of the template the scope id and confines the scoped styles to it. Without a
template there is no scope; scoped styles need a root element.
-/
def scope (d : Document) (next : Document → Call X) : Call X :=
  match d.template with
  | none => next d
  | some template =>
    let marked := d.styles.filter (·.isScoped)
    match injectScope? d.scopeId.toList template.content.toList with
    | none => if marked.isEmpty then next d else .fail .rootless
    | some markup =>
      let d := { d with template := some { template with content := String.ofList markup } }
      .join (marked.map (scopePart d.scopeId)) fun _ =>
        next { d with styles := d.styles.map (scopeOrKeep d.scopeId) }

def trace (r : Request) (text : String) (next : Call X) : Call X :=
  if r.debug then .effect (.log (.traced "preos.component.pipeline" text)) next
  else next

/--
Reads a document, compiles its regions and scopes it.
-/
def prepare (h : Hub.Settings) (r : Request) (next : Document → Call X) : Call X :=
  match read r.text with
  | .error e => .fail (.component e)
  | .ok d =>
    let d := { d with scopeId := h.component.naming.name r.text }
    trace r ("component parsed: " ++ r.location ++ " regions=" ++ toString d.regions.length ++
        " scope=" ++ d.scopeId)
      (.join (d.regions.map (regionPart h r)) fun results => scope (fillRegions d results) next)

def Region.serialize (s : Settings) (debug : Bool) (region : Region) : String :=
  let tag := region.kind.name
  if debug then "<" ++ tag ++ ">\n" ++ region.content ++ "\n</" ++ tag ++ ">"
  else match region.kind with
    | .script => "<script type='" ++ mediaType s.logic ++ "'>" ++ region.content ++ "</script>"
    | .style => "<style type='text/css'>" ++ region.content ++ "</style>"
    | .template => "<template>" ++ region.content ++ "</template>"

/--
A document as text, its regions in their order. For debugging they stand on lines of their own.
-/
def Document.serialize (s : Settings) (debug : Bool) (d : Document) : String :=
  (if debug then "\n\n" else "").intercalate (d.regions.map (·.serialize s debug))

def transpile (h : Hub.Settings) (r : Request) : Call X :=
  prepare h r fun d =>
    .done r (.output (.str (d.serialize h.component r.debug)) (.document d))

def exportedName : Value → Value
  | .program names => (names.lookup "name").getD .null
  | .component _ name _ => name
  | _ => .null

def documentHead : Nat := 0

/--
Where the styles of a component go.
-/
inductive StyleTarget where
  | head (id : Nat)
  | caller
  | unusable

def styleTarget (options : Fields) : Except Failure StyleTarget :=
  match regionOptions options .style with
  | .map es =>
    if ((Value.find? es "delegate_styles").getD .null).isTrue then .ok .caller
    else match (Value.find? es "target").getD .null with
      | .null => .ok (.head documentHead)
      | .head id => .ok (.head id)
      | _ => .ok .unusable
  | _ => .error (.noSuchAttribute "get")

/--
The value of a document whose script has been run: its styles go to a head, or are left to the caller.
-/
def assemble (r : Request) (d : Document) (exports : Value) : Call X :=
  let exported := exportedName exports
  let name := if exported.isNull then (Value.find? r.compilerOptions "name").getD .null
    else exported
  let styles := d.styles.map (·.content)
  let component (pending : Option Nat) : Value :=
    .component exports name ⟨d.template.map (·.content), styles, r.location, pending⟩
  match styleTarget r.executerOptions with
  | .error e => .fail e
  | .ok .caller => .done r (component (some documentHead))
  | .ok (.head id) => .effect (.appendStyles id styles) (.done r (component none))
  | .ok .unusable =>
    if styles.isEmpty then .done r (component none) else .fail (.noSuchAttribute "append_style")

def scriptAsk (h : Hub.Settings) (r : Request) (content : String) : Ask :=
  ⟨.interpret, .ofFields [("source", .str content), ("lang", .str h.component.logic),
    ("debug", .bool r.debug), ("allow_cache", .bool false),
    ("compiler_options", regionOptions r.compilerOptions .script),
    ("executer_options", regionOptions r.executerOptions .script)]⟩

def interpret (h : Hub.Settings) (r : Request) : Call X :=
  prepare h r fun d =>
    match d.script.filter fun s => !Text.allBlank s.content.toList with
    | none => assemble r d (.program [("__name__", .str (Program.nameOf r.location))])
    | some script => .ask (scriptAsk h r script.content) fun e => assemble r d e.payload.toValue

end Polyglot.Component
