import Polyglot.Component.Settings
import Polyglot.Location.Path
import Polyglot.Request

/-!
Configurations: which directories a project has, how its components are compiled and which plugins
it uses.
-/

namespace Polyglot.Config

structure Directories where
  root : String := "."
  source : String := "src"
  output : String := "output"

structure ComponentConfig where
  scopeStart : String := Style.defaultScopeStart
  scopeSalt : String := Style.defaultScopeSalt
  markup : String := "html"
  logic : String := "py"
  style : String := "css"
  maxDepth : Nat := 32

def ComponentConfig.settings (c : ComponentConfig) : Component.Settings :=
  ⟨c.markup, c.logic, c.style, .salted c.scopeSalt c.scopeStart⟩

def builtinPlugins : List String :=
  ["preos.plugins.identity", "preos.plugins.data", "preos.plugins.markup", "preos.plugins.python",
    "preos.plugins.component"]

end Polyglot.Config

namespace Polyglot

structure Config where
  version : Int := 1
  logLevel : String := "INFO"
  debug : Bool := false
  directories : Config.Directories := {}
  component : Config.ComponentConfig := {}
  timeout : Option Binary64 := none
  plugins : List String := Config.builtinPlugins
  executerOptions : Fields := []

structure Layout where
  project : AbsPath
  root : AbsPath
  source : AbsPath
  output : AbsPath

/--
Directories below a project: the root is found from the project, the others from the root.
-/
def Config.Directories.resolve (d : Config.Directories) (project : AbsPath) : Layout :=
  let root := project.resolve d.root
  ⟨project, root, root.resolve d.source, root.resolve d.output⟩

end Polyglot
