import Polyglot.Failure
import Polyglot.Request

/-!
From the options of a caller to a request: what is asked for, in which languages, and where the text
comes from. No file and no page has a torn location, so what a search for one ends with is known beforehand.
-/

namespace Polyglot.Hub

/--
Named options over a mapping of options. What is no mapping is left for the request to refuse.
-/
def mergeOptions (options : Option Value) (named : Fields) : Value :=
  match options with
  | none => .map named
  | some (.map es) => .map (named.foldl (fun all e => Value.insert all e.1 e.2) es)
  | some v => v

def optionMapping (es : Fields) (key : String) : Except ArgumentError Fields :=
  match (Value.find? es key).getD .null with
  | .null => .ok []
  | .map own => .ok own
  | _ => .error (.optionShape key)

def languageOption (es : Fields) (key : String) : Except ArgumentError (Option String) :=
  match (Value.find? es key).getD .null with
  | .null => .ok none
  | v => ((Language.ofValue key v).map some).mapError .language

def outputOption (mode : Mode) (es : Fields) : Except ArgumentError (Option String) :=
  match mode with
  | .interpret => .ok none
  | .transpile => do
    match ← languageOption es "output_lang" with
    | some lang => return some lang
    | none => .error .outputMissing

/--
The option that names the language of the text.
-/
def languageKey : Mode → String
  | .transpile => "input_lang"
  | .interpret => "lang"

/--
Where the text of a request comes from. A torn text has no digest, so there is no location for it; and a
torn location is nowhere.
-/
inductive Origin where
  | inline (source : String)
  | torn (source : Text.Torn)
  | location (s : String)
  | nowhere (location : Text.Torn)

/--
What the options of a caller say before any language has been inferred.
-/
structure Wish where
  input : Option String
  output : Option String
  origin : Origin
  debug : Bool
  allowCache : Bool
  compilerOptions : Fields
  executerOptions : Fields

def isDebug (es : Fields) : Bool :=
  ((Value.find? es "debug").getD .null).isTrue

def locationOption (es : Fields) : Except ArgumentError (Option Origin) :=
  match (Value.find? es "location").getD .null with
  | .null => .ok none
  | .str s => .ok (some (.location s))
  | .torn t => .ok (some (.nowhere t))
  | _ => .error (.notText "location")

def sourceOption (v : Value) : Except ArgumentError Origin :=
  match v with
  | .str s => .ok (.inline s)
  | .torn t => .ok (.torn t)
  | _ => .error (.notText "source")

def originOf (mode : Mode) (es : Fields) (input : Option String) :
    Except ArgumentError Origin := do
  let location ← locationOption es
  match (Value.find? es "source").getD .null, location with
  | .null, none => .error .noSource
  | .null, some origin => .ok origin
  | _, some _ => .error .twoSources
  | v, none =>
    let origin ← sourceOption v
    if input.isNone then .error (.sourceLanguage (languageKey mode)) else .ok origin

def Wish.ofFields (mode : Mode) (es : Fields) : Except ArgumentError Wish := do
  let compilerOptions ← optionMapping es "compiler_options"
  let executerOptions ← optionMapping es "executer_options"
  let output ← outputOption mode es
  let input ← languageOption es (languageKey mode)
  let origin ← originOf mode es input
  return ⟨input, output, origin, isDebug es,
    !((Value.find? es "allow_cache").getD .null).isFalse, compilerOptions, executerOptions⟩

def Wish.language (w : Wish) (mode : Mode) (location : String) : Except Failure String :=
  match w.input with
  | some lang => .ok lang
  | none => do
    match ← (Language.ofLocation location).mapError .address with
    | some lang => return lang
    | none => .error (.unknownLanguage (languageKey mode) location)

/--
The request that a wish comes to. A location may tell its language; an inline text gets a location of
its own.
-/
def Wish.request (w : Wish) (mode : Mode) (start : String) (depth : Nat) :
    Except Failure Request := do
  let base (location lang : String) : Request :=
    { mode, location, inputLang := lang, outputLang := w.output, debug := w.debug,
      allowCache := w.allowCache, compilerOptions := w.compilerOptions,
      executerOptions := w.executerOptions, depth }
  match w.origin with
  | .inline source =>
    return { base (inlineLocation start source) (w.input.getD "") with source := some source }
  | .torn source => .error (.notEncodable source)
  | .location location =>
    let lang ← w.language mode location
    return { base location lang with fromLocation := true }
  | .nowhere location =>
    let _ ← w.language mode location.mended
    .error (.nowhere location)

/--
The request that the options of a caller come to.
-/
def requestOf (mode : Mode) (options : Value) (start : String) (depth : Nat) :
    Except Failure Request :=
  match options with
  | .map es => do
    let wish ← (Wish.ofFields mode es).mapError .argument
    wish.request mode start depth
  | _ => .error (.argument .optionsShape)

end Polyglot.Hub
