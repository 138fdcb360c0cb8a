import Polyglot.Log.Setup
import Polyglot.Source.Options

/-!
Loading: from a location to text. Addresses of the web go to the web, every other location is a path
taken from the root directory. Long addresses are cut in the middle where they are written down.
-/

namespace Polyglot.Source

/--
The last `n` characters; none to be left out where `n` is zero.
-/
def lastChars (n : Nat) (cs : List Char) : List Char :=
  if n = 0 then cs else cs.drop (cs.length - n)

/--
A text of which only the two ends are kept if the middle is longer than the dots in its place.
-/
def excerpt (head tail : Nat) (s : String) : String :=
  let cs := s.toList
  if cs.length ≤ head + tail + 3 then s
  else String.ofList (cs.take head ++ "...".toList ++ lastChars tail cs)

inductive Kind where
  | file
  | web
  deriving DecidableEq

def Kind.name : Kind → String
  | .file => "file"
  | .web => "http"

def Kind.implementation : Kind → String
  | .file => "preos.sources.filesystem.FileSystemSource"
  | .web => "preos.sources.http.HttpSource"

def kinds : List Kind := [.file, .web]

def kindOf (location : String) : Kind :=
  if Url.isWeb location then .web else .file

structure Loaded where
  kind : Kind
  location : String
  text : String

structure WebCall where
  url : String
  agent : Value
  timeout : Value

/--
What came of reading a source: the outcome, and the records and web calls made on the way.
-/
structure Reading where
  outcome : Except Failure Loaded
  records : List Log.Record := []
  calls : List WebCall := []

/--
A root directory: an absolute path of a directory, kept as it was given but for doubled slashes.
-/
def checkRoot (w : World) (root : Value) : Except ArgumentError String :=
  match root with
  | .str s =>
    let tidy := Path.tidy s.toList
    let text := String.ofList tidy
    if !Path.isAbsolute tidy then .error (.rootRelative text)
    else if !w.isDirectory (AbsPath.resolve [] text) then .error (.rootMissing text)
    else .ok text
  | .torn t =>
    let text := String.ofList (Path.tidy t.mended.toList)
    .error (if Path.isAbsolute text.toList then .rootMissing text else .rootRelative text)
  | _ => .error .rootNotText

def locate (w : World) (root location : String) : Except Failure AbsPath :=
  let path := (AbsPath.resolve [] root).resolve location
  if location.toList.contains '\x00' then .error .nulInPath
  else if !w.exists? path then .error (.missing path.text)
  else if w.isDirectory path then .error (.directory path.text)
  else .ok path

def readFile (o : Options) (w : World) (path : AbsPath) : Reading :=
  match w.bytes? path with
  | none => { outcome := .error (.vanished path.text) }
  | some bytes =>
    match o.file.decode bytes with
    | .error e => { outcome := .error e }
    | .ok cs =>
      let text := Text.unixLines cs
      { outcome := .ok ⟨.file, path.text, String.ofList text⟩,
        records := [⟨10, "preos.sources.filesystem",
          "file loaded: path=" ++ path.text ++ " chars=" ++ toString text.length⟩] }

/--
Asks the web. Any status outside the two hundreds is a failure.
-/
def fetch (o : Options) (w : World) (url : String) : Reading :=
  let shown := excerpt 48 16 url
  let record (level : Int) (text : String) : Log.Record := ⟨level, "preos.sources.http", text⟩
  let asked := record 10 ("http request: GET " ++ shown)
  let calls := [⟨url, o.agent, o.timeout⟩]
  match w.answers.lookup url with
  | none => ⟨.error .unreachable, [asked], calls⟩
  | some a =>
    let status := toString a.status
    if a.status < 200 || 300 ≤ a.status then
      ⟨.error (.refused url a.status),
        [asked, record 30 ("http request failed: GET " ++ shown ++ " status=" ++ status)], calls⟩
    else
      let records := [asked, record 10 ("http response: GET " ++ shown ++ " status=" ++ status ++
        " bytes=" ++ toString a.body.length)]
      ⟨(o.web.decode a.body).map fun cs => ⟨.web, url, String.ofList cs⟩, records, calls⟩

/--
What stands between a location and its text: a file that is there, or an address to ask. Only then
does anything have to be waited for.
-/
inductive Plan where
  | file (path : AbsPath)
  | web (url : String)

def plan (w : World) (root location : String) : Except Failure Plan :=
  match kindOf location with
  | .web => .ok (.web location)
  | .file => (locate w root location).map .file

def Plan.read (o : Options) (w : World) : Plan → Reading
  | .file path => readFile o w path
  | .web url => fetch o w url

def load (o : Options) (w : World) (root : String) (location : Value) : Reading :=
  match location with
  | .str s =>
    match plan w root s with
    | .ok p => p.read o w
    | .error e => { outcome := .error e }
  | .torn t => { outcome := .error (.nowhere t) }
  | _ => { outcome := .error (.argument .locationNotText) }

end Polyglot.Source
