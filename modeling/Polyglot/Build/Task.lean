import Polyglot.Config.File
import Polyglot.Hub.Dispatch
import Polyglot.Language
import Polyglot.Location.World
import Polyglot.Log.Setup

/-!
What there is to build: the files in the directories right below a source directory. The name of a
directory is the language that its files are compiled to.

The build task is prepared, run and closed. A run works its items off one after the other, and an
item that fails does not keep the others from being built.
-/

namespace Polyglot.Build

structure Item where
  source : AbsPath
  output : AbsPath
  lang : String
  deriving DecidableEq

def Item.label (i : Item) : String :=
  i.lang ++ "/" ++ i.source.name

def logger : String := "preos.cli.tasks.build"

def itemsOf (w : World) (source output : AbsPath) (lang : String) : List Item :=
  let directory := source ++ [lang]
  ((w.children directory).filter fun n => w.isFile (directory ++ [n])).map fun n =>
    ⟨directory ++ [n], output ++ [lang, n ++ "." ++ lang], lang⟩

def directories (w : World) (source : AbsPath) : List String :=
  (w.children source).filter fun n => w.isDirectory (source ++ [n])

/--
All items, by language and then by name. Directories whose name is no language are left out.
-/
def collect (w : World) (source output : AbsPath) : List Item :=
  ((directories w source).filter Language.isName).flatMap (itemsOf w source output)

def skipped (w : World) (source : AbsPath) : List Log.Record :=
  ((directories w source).filter fun n => !Language.isName n).map fun n =>
    ⟨30, logger, "skipping directory with invalid language name: " ++ AbsPath.text (source ++ [n])⟩

inductive Phase where
  | created
  | prepared
  | finished
  | failed
  | closed
  deriving DecidableEq

def Phase.name : Phase → String
  | .created => "created"
  | .prepared => "prepared"
  | .finished => "finished"
  | .failed => "failed"
  | .closed => "closed"

structure Artifact where
  kind : String
  path : String
  deriving DecidableEq

/--
Why an item could not be built.
-/
structure ItemError where
  kind : String
  message : String
  item : String
  deriving DecidableEq

inductive TaskError where
  | noSource (path : String)
  | notPrepared
  deriving DecidableEq

def TaskError.kind : TaskError → String
  | .noSource _ => "FileNotFoundError"
  | .notPrepared => "RuntimeError"

def TaskError.message : TaskError → String
  | .noSource path => "source directory not found: " ++ path
  | .notPrepared => "task.run() called before prepare()"

/--
A task and its account: what it has made, what has failed, and facts about it by their names.
-/
structure Task where
  source : AbsPath
  output : AbsPath
  debug : Bool := false
  executerOptions : Fields := []
  phase : Phase := .created
  items : List Item := []
  artifacts : List Artifact := []
  errors : List ItemError := []
  diagnostics : Table String Value := {}

def Task.ofConfig (l : Config.Loaded) (debug : Bool) : Task :=
  { source := l.layout.source, output := l.layout.output, debug,
    executerOptions := l.config.executerOptions }

def Task.ask (t : Task) (i : Item) : Ask :=
  ⟨.transpile, .ofFields [("location", .str i.source.text), ("output_lang", .str i.lang),
    ("debug", .bool t.debug), ("executer_options", .map t.executerOptions)]⟩

/--
A task with the hub that it works with.
-/
structure Site (K X : Type) where
  hub : Hub.State K X
  task : Task

namespace Site

variable {K X : Type}

def log (s : Site K X) (level : Int) (text : String) : Site K X :=
  { s with hub := s.hub.record level logger text }

def prepare (s : Site K X) : Except TaskError (Site K X) :=
  let t := s.task
  let w := s.hub.world
  if !w.isDirectory t.source then .error (.noSource t.source.text)
  else
    let items := collect w t.source t.output
    let count := items.length
    let diagnostics := ((t.diagnostics.set "src_dir" (.str t.source.text)).set "output_dir"
      (.str t.output.text)).set "items" (.int count)
    let hub := { s.hub with records := s.hub.records ++ skipped w t.source }
    .ok (log ⟨hub, { t with items, diagnostics, phase := .prepared }⟩ 20
      ("build prepared: " ++ toString count ++ " files under " ++ t.source.text))

def make (m : Hub.Machine K X) (fuel : Nat) (hub : Hub.State K X) (t : Task) (i : Item) :
    Hub.State K X × Except Failure Unit :=
  match Hub.serve m fuel hub (t.ask i) with
  | (hub, .error e) => (hub, .error e)
  | (hub, .ok e) =>
    let (world, saved) := hub.world.save [] i.output.text e.payload.text
    ({ hub with world }, saved.mapError .file)

def succeed (s : Site K X) (i : Item) : Site K X :=
  let artifact : Artifact := ⟨i.lang, i.output.text⟩
  log { s with task.artifacts := s.task.artifacts ++ [artifact] } 20 (i.label ++ " ... OK")

def fail (s : Site K X) (i : Item) (e : Failure) : Site K X :=
  let error : ItemError := ⟨e.kind, e.message, i.label⟩
  let s := { s with task.errors := s.task.errors ++ [error] }
  (s.log 40 (i.label ++ " failed because: " ++ e.message)).log 10 "Traceback"

def attempt (m : Hub.Machine K X) (fuel : Nat) (s : Site K X) (i : Item) : Site K X :=
  match make m fuel s.hub s.task i with
  | (hub, .ok _) => succeed { s with hub } i
  | (hub, .error e) => fail { s with hub } i e

/--
Tries every item. Only a task that has just been prepared can be run.
-/
def run (m : Hub.Machine K X) (fuel : Nat) (s : Site K X) : Except TaskError (Site K X) :=
  if s.task.phase ≠ .prepared then .error .notPrepared
  else
    let s := s.task.items.foldl (attempt m fuel) s
    let failed := s.task.errors.length
    .ok { s with task.phase := if failed = 0 then .finished else .failed,
                 task.diagnostics := s.task.diagnostics.set "failed" (.int failed) }

def close (s : Site K X) : Site K X :=
  { s with task.phase := .closed }

end Site

end Polyglot.Build
