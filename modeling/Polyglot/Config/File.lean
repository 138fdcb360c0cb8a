import Polyglot.Config.Reader
import Polyglot.Hub.State
import Polyglot.Location.World

/-!
Configurations as files of a project, where a project starts, and the hub that a configuration describes.
-/

namespace Polyglot.Config

/--
A configuration with its directories, and the file that it was read from.
-/
structure Loaded where
  config : Config
  layout : Layout
  file : Option AbsPath

def isProject (w : World) (p : AbsPath) : Bool :=
  w.isFile (p ++ ["pyproject.toml"]) || w.isDirectory (p ++ ["configs", "preos"])

/--
The nearest directory at or above a start that looks like a project; the start if there is none.
-/
def projectOf (w : World) (start : AbsPath) : AbsPath :=
  (((List.range (start.length + 1)).map fun k => start.take (start.length - k)).find?
    (isProject w)).getD start

def defaultRoot : String := "configs/preos"

def holdsNul (s : String) : Bool :=
  s.toList.contains '\x00'

def layout (d : Directories) (project : AbsPath) : Result Layout :=
  if holdsNul d.root || holdsNul d.source || holdsNul d.output then .error .badPath
  else .ok (d.resolve project)

def loadFile (w : World) (project path : AbsPath) : Result Loaded :=
  if w.isTooLong path then .error (.tooLong path.text)
  else match w.bytes? path with
    | none => .error (.noFile path.text)
    | some bytes =>
      match Text.Utf8.decode? bytes with
      | none => .error .notUtf8
      | some cs => do
        let config ← ofText (String.ofList (Text.unixLines cs))
        return ⟨config, ← layout config.directories project, some path⟩

/--
The configuration of a name, looked up below `root`; the default one where no name is given.
-/
def load (w : World) (project : AbsPath) (root : String) (name : Value) : Result Loaded :=
  match name with
  | .null =>
    let config : Config := {}
    .ok ⟨config, config.directories.resolve project, none⟩
  | .str s =>
    if Text.allBlank s.toList then refuse .name
    else if holdsNul root || holdsNul s then .error .badPath
    else loadFile w project ((project.resolve root).resolve (s ++ ".json"))
  | _ => refuse .name

end Polyglot.Config

namespace Polyglot.Config.Loaded

/--
The settings of the hub. Waiting for the web ends after the time that the configuration gives.
-/
def settings (l : Loaded) : Hub.Settings :=
  let c := l.config
  { component := c.component.settings, maxDepth := c.component.maxDepth,
    sources := { timeout := (c.timeout.map Value.float).getD .null } }

/--
A new hub over a registry. Its root directory has to be there.
-/
def hub {K X : Type} (l : Loaded) (registry : Registry K) (w : World) (ext : X) :
    Except ArgumentError (Hub.State K X) :=
  let root := l.layout.root
  if w.isDirectory root then .ok { registry, world := w, root := root.text, ext }
  else .error (.rootMissing root.text)

end Polyglot.Config.Loaded
