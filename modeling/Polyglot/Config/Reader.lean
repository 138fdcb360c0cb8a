import Polyglot.Config.Basic
import Polyglot.Json.Reader
import Polyglot.Language
import Polyglot.Text.Character

/-!
Reading configurations from values and from text.
-/

namespace Polyglot.Config

inductive SchemaError where
  | notObject
  | fieldType (field type : String)
  | version (n : Int)
  | language (key : String)
  | depth
  | scopeStart
  | plugin (index : Nat)
  | json (message : String)
  | name
  deriving DecidableEq

def SchemaError.message : SchemaError → String
  | .notObject => "config must be a JSON object"
  | .fieldType field type => "field '" ++ field ++ "' must be " ++ type
  | .version n => "unsupported config version: " ++ toString n
  | .language key => "component." ++ key ++ " is not a valid language identifier"
  | .depth => "component.max_depth must be > 0"
  | .scopeStart => "component.scope_prefix must be a non-empty string"
  | .plugin index => "plugins[" ++ toString index ++ "] must be a non-empty string"
  | .json message => "invalid JSON: " ++ message
  | .name => "config_name must be a non-empty string"

/--
Why a configuration could not be had. Besides faults in its contents there may be no file, or one
that is no text, or no path to look for it; some numbers are too large to be read.
-/
inductive ConfigError where
  | schema (e : SchemaError)
  | noFile (path : String)
  | badPath
  | tooLong (path : String)
  | notUtf8
  | tooManyDigits
  | tooDeep
  | timeoutTooLarge
  deriving DecidableEq

def ConfigError.message : ConfigError → String
  | .schema e => e.message
  | .noFile path => "config file not found: " ++ path
  | .badPath => "embedded null byte"
  | .tooLong path => "[Errno 36] File name too long: " ++ Text.quoted path
  | .notUtf8 => "the config file is not UTF-8"
  | .tooManyDigits => "Exceeds the limit for integer string conversion"
  | .tooDeep => "maximum recursion depth exceeded"
  | .timeoutTooLarge => "int too large to convert to float"

abbrev Result (α : Type) := Except ConfigError α

def refuse {α : Type} (e : SchemaError) : Result α :=
  .error (.schema e)

def object (v : Value) (key : String) : Result Fields :=
  match v.getD key with
  | .null => .ok []
  | .map es => .ok es
  | _ => refuse (.fieldType key "an object")

/--
A text without its blank ends; the default where the key is absent.
-/
def text (es : Fields) (key default : String) : Result String :=
  match Value.find? es key with
  | none => .ok (Text.trimmed default)
  | some (.str s) => .ok (Text.trimmed s)
  | some _ => refuse (.fieldType key "a string")

def integer (es : Fields) (key : String) : Result Int :=
  match Value.find? es key with
  | some (.int n) => .ok n
  | _ => refuse (.fieldType key "an integer")

def integerOr (es : Fields) (key : String) (default : Int) : Result Int :=
  match Value.find? es key with
  | none => .ok default
  | some _ => integer es key

def truth (es : Fields) (key : String) (default : Bool) : Result Bool :=
  match Value.find? es key with
  | none => .ok default
  | some (.bool b) => .ok b
  | some _ => refuse (.fieldType key "a boolean")

def readComponent (es : Fields) : Result ComponentConfig := do
  let d : ComponentConfig := {}
  let scopeStart ← text es "scope_prefix" d.scopeStart
  let scopeSalt ← text es "scope_salt" d.scopeSalt
  let markup ← text es "markup_lang" d.markup
  let logic ← text es "logic_lang" d.logic
  let style ← text es "style_lang" d.style
  let maxDepth ← integerOr es "max_depth" d.maxDepth
  if !Language.isName markup then refuse (.language "markup_lang")
  else if !Language.isName logic then refuse (.language "logic_lang")
  else if !Language.isName style then refuse (.language "style_lang")
  else if maxDepth ≤ 0 then refuse .depth
  else if scopeStart.isEmpty then refuse .scopeStart
  else return { scopeStart, scopeSalt, markup, logic, style, maxDepth := maxDepth.toNat }

def readDirectories (es : Fields) : Result Directories := do
  let d : Directories := {}
  return ⟨← text es "root_dir" d.root, ← text es "src_dir" d.source,
    ← text es "output_dir" d.output⟩

def readTimeout (es : Fields) : Result (Option Binary64) :=
  match (Value.find? es "timeout_seconds").getD .null with
  | .null => .ok none
  | .float x => .ok (some x)
  | .int n =>
    let x := Binary64.ofInt n
    if x.isInfinite then .error .timeoutTooLarge else .ok (some x)
  | _ => refuse (.fieldType "timeout_seconds" "a number")

def readPlugins : Option Value → Result (List String)
  | none => .ok builtinPlugins
  | some (.list vs) => go 0 [] vs
  | some _ => refuse (.fieldType "plugins" "a list")
where
  go (index : Nat) (found : List String) : List Value → Result (List String)
    | [] => .ok found
    | .str s :: vs =>
      let name := Text.trimmed s
      if name.isEmpty then refuse (.plugin index)
      else go (index + 1) (if name ∈ found then found else found ++ [name]) vs
    | _ :: _ => refuse (.plugin index)

/--
The configuration that a value describes. Of several faults the one looked at first counts: version,
component, log level, debug, directories, loader, plugins, options.
-/
def ofValue (v : Value) : Result Config :=
  match v with
  | .map es => do
    let version ← integer es "version"
    if version ≠ 1 then refuse (.version version)
    else do
      let component ← readComponent (← object v "component")
      let logLevel ← text es "log_level" "INFO"
      let debug ← truth es "debug" false
      let directories ← readDirectories (← object v "paths")
      let timeout ← readTimeout (← object v "loader")
      let plugins ← readPlugins (Value.find? es "plugins")
      let executerOptions ← object v "executer_options"
      return ⟨version, logLevel, debug, directories, component, timeout, plugins,
        executerOptions⟩
  | _ => refuse .notObject

def parse (s : String) : Except Json.Error Value :=
  (Json.read s).map Value.mended

def ofText (s : String) : Result Config :=
  match parse s with
  | .ok v => ofValue v
  | .error e =>
    match e.fault with
    | .digits => .error .tooManyDigits
    | .depth => .error .tooDeep
    | _ => refuse (.json e.message)

end Polyglot.Config
