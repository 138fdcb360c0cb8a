import Polyglot.Cli.Grammar

/-!
The commands of the program and their options.
-/

namespace Polyglot.Cli

inductive Verb where
  | transpile
  | interpret
  | build
  | list
  | doctor
  deriving DecidableEq

inductive Command where
  | transpile (location output : String) (input file : Option String)
  | interpret (location : String) (lang : Option String)
  | build
  | list
  | doctor

structure Invocation where
  config : Option String
  debug : Bool
  logLevel : Option String
  command : Command

namespace Verb

def name : Verb → String
  | transpile => "transpile"
  | interpret => "interpret"
  | build => "build"
  | list => "list"
  | doctor => "doctor"

def all : List Verb :=
  [transpile, interpret, build, list, doctor]

def helpFlag : Flag :=
  ⟨["-h", "--help"], .help, false⟩

def bare (name : String) : Grammar :=
  { title := "preos " ++ name
    usage := "usage: preos " ++ name ++ " [-h]\n"
    details := "options:\n  -h, --help  show this help message and exit\n"
    flags := [helpFlag] }

def grammar : Verb → Grammar
  | transpile =>
    { title := "preos transpile"
      usage :=
        "usage: preos transpile [-h] --to OUTPUT_LANG [--from INPUT_LANG] [-o OUTPUT]\n" ++
        "                       location\n"
      details :=
        "positional arguments:\n" ++
        "  location              File path or http(s) URL\n\n" ++
        "options:\n" ++
        "  -h, --help            show this help message and exit\n" ++
        "  --to OUTPUT_LANG      Output language\n" ++
        "  --from INPUT_LANG     Input language\n" ++
        "  -o OUTPUT, --output OUTPUT\n" ++
        "                        Write the result to a file\n"
      flags := [helpFlag, ⟨["--to"], .value, true⟩, ⟨["--from"], .value, false⟩,
        ⟨["-o", "--output"], .value, false⟩]
      operand := .one "location" }
  | interpret =>
    { title := "preos interpret"
      usage := "usage: preos interpret [-h] [--lang LANG] location\n"
      details :=
        "positional arguments:\n" ++
        "  location     File path or http(s) URL\n\n" ++
        "options:\n" ++
        "  -h, --help   show this help message and exit\n" ++
        "  --lang LANG  Language of the source\n"
      flags := [helpFlag, ⟨["--lang"], .value, false⟩]
      operand := .one "location" }
  | build => bare "build"
  | list => bare "list"
  | doctor => bare "doctor"

def given (a : Arguments) (key : String) : Option String :=
  (a.value? key).filter fun s => !s.isEmpty

def command (v : Verb) (a : Arguments) : Command :=
  let location := a.operands.headD ""
  match v with
  | transpile =>
    .transpile location ((a.value? "--to").getD "") (given a "--from") (given a "--output")
  | interpret => .interpret location (given a "--lang")
  | build => .build
  | list => .list
  | doctor => .doctor

end Verb

namespace Invocation

def grammar : Grammar :=
  { title := "preos"
    usage :=
      "usage: preos [-h] [--config CONFIG_NAME] [--debug] [--log-level LOG_LEVEL]\n" ++
      "             \x7btranspile,interpret,build,list,doctor\x7d ...\n"
    details :=
      "Pluggable multi-language compilation hub\n\n" ++
      "positional arguments:\n" ++
      "  \x7btranspile,interpret,build,list,doctor\x7d\n" ++
      "    transpile           Transpile one file or URL\n" ++
      "    interpret           Interpret one file or URL and print the value\n" ++
      "    build               Compile every file under src_dir/<lang>/ into\n" ++
      "                        output_dir/<lang>/\n" ++
      "    list                List registered content sources and compilers\n" ++
      "    doctor              Run preflight checks only\n\n" ++
      "options:\n" ++
      "  -h, --help            show this help message and exit\n" ++
      "  --config CONFIG_NAME  Config name under configs/preos (without .json);\n" ++
      "                        built-in defaults when omitted\n" ++
      "  --debug               Compile in debug mode (traces, pretty output)\n" ++
      "  --log-level LOG_LEVEL\n" ++
      "                        Override the configured log level\n"
    flags := [Verb.helpFlag, ⟨["--config"], .value, false⟩, ⟨["--debug"], .mark, false⟩,
      ⟨["--log-level"], .value, false⟩]
    operand := .command "command" (Verb.all.map Verb.name) }

/--
Reads a command line. What neither the program nor its command knows is refused in the end.
-/
def read (args : List String) : Except Halt Invocation := do
  let top ← grammar.parse args
  let name := top.operands.headD ""
  let verb := (Verb.all.find? fun v => v.name == name).getD .list
  let own ← verb.grammar.parse top.operands.tail
  match top.extras ++ own.extras with
  | [] =>
    return ⟨top.value? "--config", top.has "--debug", Verb.given top "--log-level",
      verb.command own⟩
  | extras => grammar.refuse ("unrecognized arguments: " ++ " ".intercalate extras)

end Invocation

end Polyglot.Cli
