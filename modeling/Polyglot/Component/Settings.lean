import Polyglot.Component.Document
import Polyglot.Digest
import Polyglot.Text.Utf8

/-!
Settings of component compilation: the language that each kind of region is compiled to, and where
scope ids come from. A scope id is the name of the attribute that ties the rules of a style sheet to one
template.
-/

namespace Polyglot.Style

/--
Where scope ids come from: one for all, from a salt, or one for each source text.
-/
inductive ScopeNaming where
  | salted (salt start : String)
  | content (start : String)

def defaultScopeStart : String := "data-vue-"
def defaultScopeSalt : String := "sd"

/--
The digest of a text in base 64, in which `j` stands for the signs that no attribute name holds.
-/
def digestName (s : String) : String :=
  String.ofList ((Digest.Base64.encode (Digest.md5 (Text.Utf8.encode s))).map fun c =>
    if c == '+' || c == '/' || c == '=' then 'j' else c)

def ScopeNaming.name (n : ScopeNaming) (source : String) : String :=
  match n with
  | .salted salt start => start ++ digestName salt
  | .content start => start ++ digestName source

end Polyglot.Style

namespace Polyglot.Component

structure Settings where
  markup : String := "html"
  logic : String := "py"
  style : String := "css"
  naming : Style.ScopeNaming := .salted Style.defaultScopeSalt Style.defaultScopeStart

def mediaType : String → String
  | "js" => "application/javascript"
  | "py" => "text/x-python"
  | lang => "text/x-" ++ lang

def Settings.language (s : Settings) : RegionKind → String
  | .template => s.markup
  | .script => s.logic
  | .style => s.style

end Polyglot.Component
