import Polyglot.Config.Basic
import Polyglot.Log.Setup

/-!
Plugins: modules that a configuration names. Each is loaded once, in the order in which it is named.
-/

namespace Polyglot

inductive PluginError where
  | relative (name : String)
  | missing (name : String)
  | notPackage (name parent : String)
  deriving DecidableEq

def PluginError.message : PluginError → String
  | .relative name =>
    "the 'package' argument is required to perform a relative import for " ++ Text.quoted name
  | .missing name => "No module named " ++ Text.quoted name
  | .notPackage name parent =>
    "No module named " ++ Text.quoted name ++ "; " ++ Text.quoted parent ++ " is not a package"

namespace Plugin

def packages : List String :=
  ["preos", "preos.plugins"]

/--
Looks a module up part by part. Every part but the last one has to be a package.
-/
def find (name : String) : Except PluginError Unit :=
  if name.startsWith "." then .error (.relative name)
  else match (Text.pieces '.' name.toList).map String.ofList with
    | [] => .ok ()
    | top :: parts => go top parts
where
  go (name : String) : List String → Except PluginError Unit
    | [] =>
      if packages.contains name || Config.builtinPlugins.contains name then .ok ()
      else .error (.missing name)
    | part :: parts =>
      if packages.contains name then go (name ++ "." ++ part) parts
      else if Config.builtinPlugins.contains name then
        .error (.notPackage (name ++ "." ++ part) name)
      else .error (.missing name)

end Plugin

/--
The plugins that have been loaded, what was recorded on the way, and the fault that ended it.
-/
structure Plugins where
  loaded : List String := []
  records : List Log.Record := []
  fault : Option PluginError := none

namespace Plugins

def note (name : String) : Log.Record :=
  ⟨20, "preos.cli.runtime", "import plugin: " ++ name⟩

/--
Loads plugins that have not been loaded yet, up to the first one that is not there.
-/
def load (p : Plugins) : List String → Plugins
  | [] => p
  | name :: names =>
    if p.loaded.contains name then p.load names
    else
      let records := p.records ++ [note name]
      match Plugin.find name with
      | .ok _ => load { p with loaded := p.loaded ++ [name], records } names
      | .error e => { p with records, fault := some e }

end Plugins

end Polyglot
