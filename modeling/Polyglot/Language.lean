import Polyglot.Location.Path
import Polyglot.Location.Url
import Polyglot.Value.Text

/-!
Names of languages, and the language that the name of a file tells.

A name of a language is made of ASCII letters, digits and underscores. One line feed may follow it.
-/

namespace Polyglot

inductive LanguageError where
  | notText (what : String)
  | malformed (what quoted : String)
  deriving DecidableEq

def LanguageError.message : LanguageError → String
  | .notText what => "the " ++ what ++ " option is not a string"
  | .malformed what quoted =>
    "the " ++ what ++ " option can only contain letters, numbers and underscores (_): " ++ quoted

namespace Language

def isNameChar (c : Char) : Bool :=
  Text.isAsciiLetter c || Text.isAsciiDigit c || c == '_'

def body (cs : List Char) : List Char :=
  if cs.getLast? == some '\n' then cs.dropLast else cs

def isName (s : String) : Bool :=
  let cs := body s.toList
  !cs.isEmpty && cs.all isNameChar

def isNameValue : Value → Bool
  | .str s => isName s
  | _ => false

/--
The name that a value gives for the option `what`.
-/
def ofValue (what : String) : Value → Except LanguageError String
  | .str s => if isName s then .ok s else .error (.malformed what (Text.quoted s))
  | .torn t => .error (.malformed what t.quoted)
  | _ => .error (.notText what)

/--
The language of a path: the extension of its last part, backslashes taken for slashes.
-/
def ofPath? (path : List Char) : Option String :=
  let parts := Path.plainParts (Text.replaceChar '\\' ['/'] path)
  let found := String.ofList ((Path.extension (parts.getLastD [])).drop 1)
  if isName found then some found else none

/--
The language that a location tells; of a web address only the path counts.
-/
def ofLocation (location : String) : Except UrlError (Option String) :=
  if Url.isWeb location then (Url.split [] location.toList).map fun u => ofPath? u.path
  else .ok (ofPath? location.toList)

end Language

end Polyglot
