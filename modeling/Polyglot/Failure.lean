import Polyglot.Compiler.Output
import Polyglot.Compiler.Registry
import Polyglot.Component.Reader
import Polyglot.Fault
import Polyglot.Json.Reader
import Polyglot.Location.Url
import Polyglot.Location.World
import Polyglot.Style.Substitution
import Polyglot.Xml.Mapping

/-!
Failures: why a request has no result. A failure goes to the caller as it is; nothing is tried again.
-/

namespace Polyglot

/--
What is wrong with a call.
-/
inductive ArgumentError where
  | optionsShape
  | optionShape (key : String)
  | language (e : LanguageError)
  | outputMissing
  | notText (what : String)
  | twoSources
  | noSource
  | sourceLanguage (key : String)
  | locationNotText
  | notFunction
  | rootNotText
  | rootRelative (path : String)
  | rootMissing (path : String)
  | noHub (location : String)
  deriving DecidableEq

def ArgumentError.message : ArgumentError → String
  | .optionsShape => "the options parameter is not a mapping"
  | .optionShape key => "the " ++ key ++ " option is not a mapping"
  | .language e => e.message
  | .outputMissing => "the output_lang option is required"
  | .notText what => "the " ++ what ++ " option is not a string"
  | .twoSources => "the options must contain only one of the source or location fields"
  | .noSource => "the options must contain at least the source or location fields"
  | .sourceLanguage key => "the source option requires the " ++ key ++ " option"
  | .locationNotText => "the location parameter is not a string"
  | .notFunction => "the compiler parameter is not a function"
  | .rootNotText => "the root directory must be a path string"
  | .rootRelative path => "the root directory must be an absolute path. current: " ++ path
  | .rootMissing path => "the root directory must be an existing directory. current: " ++ path
  | .noHub location => "component compilation needs a hub-bound request: " ++ location

def ArgumentError.ofRegistry : RegistryError → ArgumentError
  | .language e => .language e
  | .notFunction => .notFunction

inductive Failure where
  | argument (e : ArgumentError)
  | unknownLanguage (key location : String)
  | noTranspiler (input output : String)
  | noInterpreter (lang : String)
  | contract (e : OutputError)
  | missing (path : String)
  | directory (path : String)
  | vanished (path : String)
  | refused (url : String) (status : Int)
  | unreachable
  | tooDeep (depth : Nat) (limit : Int) (location : String)
  | component (e : Component.ReadError)
  | rootless
  | address (e : UrlError)
  | nulInPath
  | notEncodable (text : Text.Torn)
  | nowhere (location : Text.Torn)
  | substitution (e : Style.SubstitutionError)
  | json (e : Json.Error)
  | toml (e : DataError)
  | yaml (e : DataError)
  | xml
  | mapping (e : Xml.MappingError)
  | fault (f : Fault)
  | template (e : Template.Error)
  | program (e : Program.Error)
  | unknownOption (name : String)
  | noSuchAttribute (name : String)
  | unknownCharset (name : String)
  | notDecodable
  | file (e : FileError)
  | unfinished
  | raised (kind message : String)

namespace Failure

/--
The name of the kind of a failure, as reports give it.
-/
def kind : Failure → String
  | argument _ => "InvalidArgument"
  | unknownLanguage .. => "LanguageResolutionError"
  | noTranspiler .. | noInterpreter _ => "UnsupportedLanguagePair"
  | contract _ => "ContractViolation"
  | missing _ | directory _ => "NotFound"
  | vanished _ => "FileNotFoundError"
  | refused .. => "RemoteFetchError"
  | unreachable => "ConnectionError"
  | tooDeep .. => "CompositionDepthExceeded"
  | component _ | rootless => "MalformedTemplate"
  | address _ | nulInPath => "ValueError"
  | notEncodable _ => "UnicodeEncodeError"
  | nowhere location =>
    if Url.isWeb location.mended then "ConnectionError"
    else if location.parts.all Text.Part.isByte then "NotFound"
    else "UnicodeEncodeError"
  | substitution (.malformed ..) => "error"
  | substitution (.unknownGroup _) => "IndexError"
  | json e =>
    match e.fault with
    | .digits => "ValueError"
    | .depth => "RecursionError"
    | _ => "JSONDecodeError"
  | toml .tooManyDigits => "ValueError"
  | toml _ => "TOMLDecodeError"
  | yaml .malformed => "YAMLError"
  | yaml .tooManyDigits => "ValueError"
  | yaml (.evaluation f) => f.kind
  | xml => "ParseError"
  | mapping .integerTooLong => "ValueError"
  | mapping _ => "TypeError"
  | template e => e.kind
  | program e => e.kind
  | fault f => f.kind
  | unknownOption _ => "TypeError"
  | noSuchAttribute _ => "AttributeError"
  | unknownCharset _ => "LookupError"
  | notDecodable => "UnicodeDecodeError"
  | file (.notDirectory _) => "NotADirectoryError"
  | file (.exists _) => "FileExistsError"
  | file (.isDirectory _) => "IsADirectoryError"
  | unfinished => "CancelledError"
  | raised kind _ => kind

/--
The wording of a failure. Faults inside documents of the data formats have none.
-/
def message : Failure → String
  | argument e => e.message
  | unknownLanguage key location =>
    "cannot retrieve the " ++ key ++ " option from the location: " ++ location
  | noTranspiler input output =>
    "the lang pair (" ++ input ++ "-" ++ output ++ ") does not match any valid transpiler"
  | noInterpreter lang => "the lang value (" ++ lang ++ ") does not match any valid interpreter"
  | contract e => e.message
  | missing path => "path does not exist: " ++ path
  | directory path => "path is a directory, not a file: " ++ path
  | vanished path => "[Errno 2] No such file or directory: " ++ Text.quoted path
  | refused url status => "request failed: " ++ url ++ " status=" ++ toString status
  | tooDeep depth limit location =>
    "composition depth " ++ toString depth ++ " exceeds " ++ toString limit ++ ": " ++ location
  | component e => e.message
  | rootless => "the template requires a root element"
  | json e => e.message
  | substitution e => e.message
  | template (.notFound name) => name
  | nulInPath => "embedded null byte"
  | notEncodable text => text.complaint
  | unknownCharset name => "unknown encoding: " ++ name
  | file e => e.message
  | program (.noModule name) => "No module named " ++ Text.quoted name
  | raised _ message => message
  | _ => ""

def ofRegistry (e : RegistryError) : Failure :=
  argument (.ofRegistry e)

end Failure

end Polyglot
