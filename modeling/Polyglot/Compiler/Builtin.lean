import Polyglot.Compiler.Call
import Polyglot.Component.Pipeline
import Polyglot.Json.Writer
import Polyglot.Markdown.Writer
import Polyglot.Program.Run
import Polyglot.Template.Render
import Polyglot.Toml.Reader
import Polyglot.Xml.Reader
import Polyglot.Yaml.Reader

/-!
The compilers that come with a hub. The one for pages has the options a template is read with, and places
where it looks for others.
-/

namespace Polyglot.Page

def optionNames : List String :=
  ["block_start_string", "block_end_string", "variable_start_string", "variable_end_string",
    "comment_start_string", "comment_end_string", "line_statement_prefix", "line_comment_prefix",
    "trim_blocks", "lstrip_blocks", "newline_sequence", "keep_trailing_newline", "extensions",
    "optimized", "undefined", "finalize", "autoescape", "cache_size", "auto_reload",
    "bytecode_cache", "enable_async"]

/--
Text is escaped by default; what surrounds statements is trimmed unless one is looking for faults.
-/
def defaults (r : Request) : List (String × Value) :=
  [("autoescape", .bool true), ("trim_blocks", .bool !r.debug), ("lstrip_blocks", .bool !r.debug)]

/--
The directories of included templates: that of the document itself if it was read from a file, then
the root directory.
-/
def directories (root : String) (r : Request) : List String :=
  let own := if r.fromLocation && !Url.isWeb r.location then
      let path := Path.tidy (Path.join root.toList r.location.toList)
      [String.ofList (Path.dirName path)]
    else []
  own ++ [root]

def options (r : Request) : Fields :=
  Request.joinOptions (defaults r) r.compilerOptions

def settings (options : Fields) : Template.Settings :=
  let is (key : String) : Bool := ((Value.find? options key).getD .null).truthy
  ⟨is "autoescape", is "trim_blocks", is "lstrip_blocks", is "keep_trailing_newline"⟩

def unknown? (options : Fields) : Option String :=
  (options.map fun e => e.1.plain).find? (!optionNames.contains ·)

def read (root : String) (r : Request) : Except Failure Template :=
  let options := options r
  match unknown? options with
  | some name => .error (.unknownOption name)
  | none =>
    let s := settings options
    match Template.read s r.text with
    | .ok body => .ok ⟨body, s, directories root r⟩
    | .error e => .error (.template e)

def write (w : World) (r : Request) (t : Template) : Except Failure Value :=
  match t.render w r.executerOptions with
  | .ok s => .ok (.output (.str s) (.template t))
  | .error e => .error (.template e)

variable {X : Type}

def interpret (r : Request) : Call X :=
  .observe fun v => .ofExcept (read v.root r) fun t => .doneWith r (options r) (.template t)

/--
The text of the template, with the template beside it.
-/
def transpile (r : Request) : Call X :=
  .observe fun v =>
    .ofExcept (do write v.world r (← read v.root r)) fun o => .doneWith r (options r) o

end Polyglot.Page

namespace Polyglot

inductive Builtin where
  | passthrough
  | jinjaToHtml
  | markdownToHtml
  | componentToHtml
  | tomlToJson
  | yamlToJson
  | xmlToJson
  | jinjaTemplate
  | jsonValue
  | program
  | tomlValue
  | componentValue
  | xmlValue
  | yamlValue
  deriving DecidableEq

namespace Builtin

def name : Builtin → String
  | passthrough => "passthrough"
  | jinjaToHtml => "jinja_transpiler"
  | markdownToHtml => "markdown_transpiler"
  | componentToHtml => "component_transpiler"
  | tomlToJson => "toml_transpiler"
  | yamlToJson => "yaml_transpiler"
  | xmlToJson => "xml_transpiler"
  | jinjaTemplate => "jinja_interpreter"
  | jsonValue => "json_interpreter"
  | program => "python_interpreter"
  | tomlValue => "toml_interpreter"
  | componentValue => "component_interpreter"
  | xmlValue => "xml_interpreter"
  | yamlValue => "yaml_interpreter"

def transpilers : List (String × String × Builtin) :=
  [("js", "js", passthrough), ("py", "py", passthrough), ("html", "html", passthrough),
    ("css", "css", passthrough), ("json", "json", passthrough), ("toml", "json", tomlToJson),
    ("yaml", "json", yamlToJson), ("xml", "json", xmlToJson), ("jinja", "html", jinjaToHtml),
    ("md", "html", markdownToHtml), ("vue", "html", componentToHtml)]

def interpreters : List (String × Builtin) :=
  [("json", jsonValue), ("toml", tomlValue), ("yaml", yamlValue), ("xml", xmlValue),
    ("jinja", jinjaTemplate), ("py", program), ("vue", componentValue)]

/--
The registry that holds every compiler that comes with a hub.
-/
def registry {K : Type} (inject : Builtin → K) : Registry K :=
  let r := transpilers.foldl (fun r (i, o, b) => r.setTranspiler i o (inject b))
    ({} : Registry K)
  { r with interpreters := interpreters.foldl (fun t (l, b) => t.set l (inject b)) {} }

variable {X : Type}

def plain (v : Value) : Except Failure Value :=
  .ok v

/--
The JSON of a value. A mapping with keys that JSON does not have has none.
-/
def json (v : Value) : Except Failure Value :=
  match Json.write? Json.compact 0 v with
  | some s => .ok (.output (.str s) .null)
  | none => .error (.fault .type)

def xmlDefaults : List (String × Value) :=
  [("attribute_prefix", .str "@_"), ("text_key", .str "#text"), ("parse_values", .bool true),
    ("ignore_attributes", .bool false)]

def xmlOptions (options : Fields) : Xml.Options :=
  let get (key : String) : Value := (Value.find? options key).getD .null
  ⟨get "attribute_prefix", get "text_key", (get "parse_values").truthy,
    (get "ignore_attributes").truthy⟩

/--
The value of an XML text. The text itself cannot be an option.
-/
def readXml (source : String) (options : Fields) : Except Failure Value :=
  if (Value.find? options "source").isSome then .error (.unknownOption "source")
  else match Xml.read? source with
    | none => .error .xml
    | some root =>
      let all := Request.joinOptions xmlDefaults options
      (Xml.toValue (xmlOptions all) root).mapError .mapping

/--
Hands back what is made of a value, with the options of an XML request over the defaults.
-/
def xml (r : Request) (f : Value → Except Failure Value) : Call X :=
  let options := Request.joinOptions xmlDefaults r.compilerOptions
  .ofExcept (readXml r.text options >>= f) fun v => .doneWith r options v

def data (r : Request) (v : Except Failure Value) (f : Value → Except Failure Value) : Call X :=
  .ofExcept (v >>= f) fun v => .done r v

/--
The style that an option names; digits of versions at its end do not count.
-/
def markdownStyle (options : Fields) : Except Failure Markdown.Style :=
  match (Value.find? options "output_format").getD .null with
  | .str s =>
    let version : List Char := ['1', '4', '5']
    match String.ofList ((Text.lower s).toList.reverse.dropWhile version.contains).reverse with
    | "html" => .ok .html
    | "xhtml" => .ok .xhtml
    | _ => .error (.fault .key)
  | _ => .error (.fault .attribute)

def markdown (r : Request) : Call X :=
  let options := Request.joinOptions [("output_format", .str "html")] r.compilerOptions
  let read : Except Failure Value := do
    if (Value.find? options "text").isSome then throw (.unknownOption "text")
    let style ← markdownStyle options
    return .output (.str (Markdown.toHtml style r.text)) .null
  .ofExcept read fun v => .doneWith r options v

def withHub (r : Request) (f : Hub.Settings → Call X) : Call X :=
  .observe fun v =>
    match v.hub with
    | some h => f h
    | none => .fail (.argument (.noHub r.location))

def perform (b : Builtin) (r : Request) : Call X :=
  match b with
  | passthrough => .done r (.output (.str r.text) .null)
  | xmlToJson => xml r json
  | xmlValue => xml r plain
  | tomlToJson => data r ((Toml.read r.text).mapError .toml) json
  | tomlValue => data r ((Toml.read r.text).mapError .toml) plain
  | yamlToJson => data r ((Yaml.read r.text).mapError .yaml) json
  | yamlValue => data r ((Yaml.read r.text).mapError .yaml) plain
  | jsonValue => data r ((Json.read r.text).mapError .json) plain
  | jinjaToHtml => Page.transpile r
  | jinjaTemplate => Page.interpret r
  | markdownToHtml => markdown r
  | componentToHtml => withHub r fun h => Component.transpile h r
  | componentValue => withHub r fun h => Component.interpret h r
  | program => .ofExcept ((Program.run r.location r.text).mapError .program) fun v => .done r v

end Builtin

end Polyglot
