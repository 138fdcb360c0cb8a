import Polyglot.Digest
import Polyglot.Text.Utf8
import Polyglot.Value.Basic

/-!
Requests: what a compiler is asked to do, and the key under which its answer is kept.
-/

namespace Polyglot

/--
The two kinds of work: text made into text of another language, and text made into a value.
-/
inductive Mode where
  | transpile
  | interpret
  deriving DecidableEq

def Mode.name : Mode → String
  | .transpile => "transpile"
  | .interpret => "interpret"

def Mode.ofName? : String → Option Mode
  | "transpile" => some .transpile
  | "interpret" => some .interpret
  | _ => none

structure Request where
  mode : Mode
  location : String
  inputLang : String
  outputLang : Option String := none
  source : Option String := none
  debug : Bool := false
  allowCache : Bool := true
  fromLocation : Bool := false
  compilerOptions : Fields := []
  executerOptions : Fields := []
  cacheHit : Bool := false
  depth : Nat := 0

/--
The key of a result: its languages and the location, with nothing else that could tell two requests
apart.
-/
def cacheKey (mode : Mode) (location input : String) (output : Option String) : String :=
  match mode with
  | .transpile => input ++ "-" ++ output.getD "None" ++ "/" ++ location
  | .interpret => input ++ "/" ++ location

def inlineStart : String := "/source/"

/--
The location of a text that comes without one: the digest of the text behind a fixed start.
-/
def inlineLocation (start source : String) : String :=
  start ++ Digest.hex (Digest.md5 (Text.Utf8.encode source))

namespace Request

/--
How deep a request stands below the one that it is made for; one from outside is made for none.
-/
def depthBelow : Option Request → Nat
  | none => 0
  | some parent => parent.depth + 1

def key (r : Request) : String :=
  cacheKey r.mode r.location r.inputLang r.outputLang

/--
The text to compile; nothing counts as no text.
-/
def text (r : Request) : String :=
  r.source.getD ""

def describe (r : Request) : List (String × Value) :=
  [("mode", .str r.mode.name), ("location", .str r.location), ("input_lang", .str r.inputLang),
    ("output_lang", Value.ofText? r.outputLang), ("cache_key", .str r.key),
    ("allow_cache", .bool r.allowCache), ("read_from_location", .bool r.fromLocation),
    ("depth", .int r.depth)]

def joinOptions (defaults : List (String × Value)) (options : Fields) : Fields :=
  options.foldl (fun all e => Value.insert all e.1 e.2) (defaults.map fun (k, v) => (.str k, v))

end Request

end Polyglot
