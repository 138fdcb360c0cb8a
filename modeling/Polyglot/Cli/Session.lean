import Polyglot.Build.Task
import Polyglot.Cli.Command
import Polyglot.Compiler.Basic
import Polyglot.Config.File
import Polyglot.Config.Plugin
import Polyglot.Source.Loader

/-!
Starting up: finding the project, and a look at what has been registered. Sessions: what lasts from one
command to the next while the program runs, and the commands themselves.
-/

namespace Polyglot.Cli

inductive StartupError where
  | emptyRegistry (name : String)
  deriving DecidableEq

def StartupError.message : StartupError → String
  | .emptyRegistry name =>
    "registry '" ++ name ++ "' is empty. did you forget to list plugin modules in the config?"

structure Startup where
  project : AbsPath
  counts : List (String × Nat)

namespace Startup

def registrySizes (compilers : Nat) : List (String × Nat) :=
  [("sources", Source.kinds.length), ("compilers", compilers)]

/--
Finds the project from a directory. Strictly, no registry may be empty.
-/
def check (w : World) (start : AbsPath) (strict : Bool) (compilers : Nat) :
    Except StartupError Startup :=
  let counts := registrySizes compilers
  match if strict then counts.find? fun e => e.2 = 0 else none with
  | some e => .error (.emptyRegistry e.1)
  | none => .ok ⟨Config.projectOf w start, counts⟩

def diagnostics (s : Startup) : List (String × String) :=
  ("project_root", s.project.text) ::
    s.counts.map fun (name, n) => ("registry." ++ name ++ ".count", toString n)

end Startup

inductive Error where
  | config (e : Config.ConfigError)
  | plugin (e : PluginError)
  | failure (e : Failure)
  | task (e : Build.TaskError)
  | path

def Error.message : Error → String
  | .config e => e.message
  | .plugin e => e.message
  | .failure e => e.message
  | .task e => e.message
  | .path => "embedded null byte"

structure Session where
  world : World := {}
  log : Log.Setup := {}
  plugins : List String := []
  out : String := ""
  err : String := ""

namespace Session

def emit (s : Session) (records : List Log.Record) : Session :=
  { s with out := s.out ++ s.log.text .out records, err := s.err ++ s.log.text .err records }

end Session

abbrev Action := ExceptT Error (StateM Session)

namespace Action

def mainLog : String := "preos.cli.main"

def patience : Nat := 1000000

def emit (records : List Log.Record) : Action Unit :=
  modify (·.emit records)

def info (text : String) : Action Unit :=
  emit [⟨20, mainLog, text⟩]

def print (text : String) : Action Unit :=
  modify fun s => { s with out := s.out ++ text ++ "\n" }

def lift {ε α : Type} (wrap : ε → Error) : Except ε α → Action α
  | .ok a => pure a
  | .error e => throw (wrap e)

def loadPlugins (l : Config.Loaded) : Action Unit := do
  let loading := Plugins.load { loaded := (← get).plugins } l.config.plugins
  emit loading.records
  modify fun s => { s with plugins := loading.loaded }
  match loading.fault with
  | some e => throw (.plugin e)
  | none => pure ()

def openHub (l : Config.Loaded) : Action (Hub.State Compiler Rehearsal) := do
  loadPlugins l
  lift (fun e => .failure (.argument e)) (l.hub Compiler.registry (← get).world {})

/--
The location of a request: an address of the web, or a path from the current directory.
-/
def locate (location : String) : Action String := do
  if Url.isWeb location then return location
  else if Config.holdsNul location then throw .path
  else return ((← get).world.current.resolve location).text

def ask (l : Config.Loaded) (mode : Mode) (location : String) (debug : Bool)
    (own : List (String × Value)) : Action Payload := do
  let hub ← openHub l
  let location ← locate location
  let options : List (String × Value) := [("location", .str location), ("debug", .bool debug),
    ("executer_options", .map l.config.executerOptions)] ++ own
  let (hub, result) := Hub.serve (Hub.machine l.settings) patience hub ⟨mode, .ofFields options⟩
  emit hub.records
  let e ← lift .failure result
  return e.payload

def named (key : String) (s : Option String) : List (String × Value) :=
  (s.map fun s => (key, Value.str s)).toList

def save (path text : String) : Action Unit := do
  let w := (← get).world
  let (world, saved) := w.save w.current path text
  modify fun s => { s with world }
  lift (fun e => .failure (.file e)) saved
  info ("written: " ++ String.ofList (Path.tidy path.toList))

def build (l : Config.Loaded) (debug : Bool) : Action Nat := do
  let hub ← openHub l
  let site ← lift .task (Build.Site.prepare ⟨hub, .ofConfig l debug⟩)
  let site ← lift .task (site.run (Hub.machine l.settings) patience)
  emit site.hub.records
  modify fun s => { s with world := site.hub.world }
  let failed := site.task.errors.length
  info ("Build finished: " ++ toString site.task.artifacts.length ++ " succeeded, " ++
    toString failed ++ " failed")
  return if failed = 0 then 0 else 5

def sourceNames : String :=
  ", ".intercalate (Source.kinds.map Source.Kind.name)

def list (l : Config.Loaded) : Action Unit := do
  loadPlugins l
  let r := Compiler.registry
  print ("Sources: " ++ sourceNames)
  print ("Transpilers: " ++ ", ".intercalate (r.pairs.map fun (i, o) => i ++ "->" ++ o))
  print ("Interpreters: " ++ ", ".intercalate (r.sortedInterpreters.map (·.1)))

def doctor (l : Config.Loaded) (startup : Startup) : Action Unit := do
  let hub ← openHub l
  let facts := startup.diagnostics.mergeSort fun a b => a.1 ≤ b.1
  facts.forM fun (key, value) => info (key ++ ": " ++ value)
  info ("config: " ++ (l.file.map AbsPath.text).getD "<built-in defaults>")
  info ("root_dir: " ++ hub.root)
  info ("sources: " ++ sourceNames)
  info ("transpilers: " ++ toString hub.registry.transpilers.length ++ ", interpreters: " ++
    toString hub.registry.interpreters.size)
  info "Doctor check passed."

/--
Does what a command says under a configuration. The answer is the exit status.
-/
def perform (l : Config.Loaded) (startup : Startup) (debug : Bool) : Command → Action Nat
  | .transpile location output input file => do
    let payload ← ask l .transpile location debug
      ([("output_lang", .str output)] ++ named "input_lang" input)
    match file with
    | some path => save path payload.text
    | none => print payload.text
    return 0
  | .interpret location lang => do
    let payload ← ask l .interpret location debug (named "lang" lang)
    print (Json.render payload.toValue)
    return 0
  | .build => build l debug
  | .list => do
    list l
    return 0
  | .doctor => do
    doctor l startup
    return 0

def invoke (startup : Startup) (i : Invocation) : Action Nat := do
  let w := (← get).world
  let l ← lift .config
    (Config.load w startup.project Config.defaultRoot (Value.ofText? i.config))
  let level := i.logLevel.getD l.config.logLevel
  modify fun s => { s with log := s.log.setLevel (.str level) }
  perform l startup (i.debug || l.config.debug) i.command

end Action

namespace Session

def fatal (e : Error) : List Log.Record :=
  [⟨40, Action.mainLog, "Fatal error: " ++ e.message⟩, ⟨10, Action.mainLog, "Traceback"⟩]

def start (s : Session) : Startup :=
  ⟨Config.projectOf s.world s.world.current, Startup.registrySizes Compiler.registry.size⟩

/--
Runs one command line. An error ends it with a report, never the session itself.
-/
def run (s : Session) (args : List String) : Session × Nat :=
  match Invocation.read args with
  | .error halt => ({ s with out := s.out ++ halt.out, err := s.err ++ halt.err }, halt.status)
  | .ok i =>
    let log := s.log.configure (.str (i.logLevel.getD "INFO")) none false
    match (Action.invoke s.start i).run.run { s with log } with
    | (.ok status, s) => (s, status)
    | (.error e, s) => (s.emit (fatal e), 4)

end Session

end Polyglot.Cli
