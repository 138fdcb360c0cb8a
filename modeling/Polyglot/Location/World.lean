import Polyglot.Location.Path
import Polyglot.Text.Quoted
import Polyglot.Text.Utf8

/-!
The world that sources are read from: a tree of files and what web addresses answer.

A path is a directory when it is said to be one or when something lies below it.
-/

namespace Polyglot

inductive Entry where
  | file (bytes : List UInt8)
  | directory

structure Answer where
  status : Int
  body : List UInt8

structure World where
  entries : List (AbsPath × Entry) := []
  answers : List (String × Answer) := []
  current : AbsPath := []

inductive FileError where
  | notDirectory (path : String)
  | exists (path : String)
  | isDirectory (path : String)
  deriving DecidableEq

def FileError.message : FileError → String
  | .notDirectory p => "[Errno 20] Not a directory: " ++ Text.quoted p
  | .exists p => "[Errno 17] File exists: " ++ Text.quoted p
  | .isDirectory p => "[Errno 21] Is a directory: " ++ Text.quoted p

namespace World

def entry? (w : World) (p : AbsPath) : Option Entry :=
  (w.entries.find? fun e => e.1 == p).map (·.2)

def bytes? (w : World) (p : AbsPath) : Option (List UInt8) :=
  match w.entry? p with
  | some (.file bs) => some bs
  | _ => none

def isFile (w : World) (p : AbsPath) : Bool :=
  (w.bytes? p).isSome

def isDirectory (w : World) (p : AbsPath) : Bool :=
  match w.entry? p with
  | some .directory => true
  | some (.file _) => false
  | none => p.isPrefixOf w.current || w.entries.any fun e => p.isPrefixOf e.1

def exists? (w : World) (p : AbsPath) : Bool :=
  w.isFile p || w.isDirectory p

def pathLimit : Nat := 4095

def nameLimit : Nat := 255

/--
Whether a path cannot be looked up: it is too long, or a name in it is, in a directory that there is.
-/
def isTooLong (w : World) (p : AbsPath) : Bool :=
  p.text.utf8ByteSize > pathLimit || (List.range p.length).any fun k =>
    w.isDirectory (p.take k) && (p.getD k "").utf8ByteSize > nameLimit

def insertName (n : String) : List String → List String
  | [] => [n]
  | m :: ms => if n = m then m :: ms else if n < m then n :: m :: ms else m :: insertName n ms

def children (w : World) (p : AbsPath) : List String :=
  (w.entries.filterMap fun e =>
    if p.isPrefixOf e.1 then (e.1.drop p.length).head? else none).foldl (fun ns n => insertName n ns) []

def set (w : World) (p : AbsPath) (e : Entry) : World :=
  let rec place : List (AbsPath × Entry) → List (AbsPath × Entry)
    | [] => [(p, e)]
    | (q, d) :: rest => if q = p then (p, e) :: rest else (q, d) :: place rest
  { w with entries := place w.entries }

def delete (w : World) (p : AbsPath) : World :=
  { w with entries := w.entries.filter fun e => !p.isPrefixOf e.1 }

/--
The same world in which the directory above a path stays although nothing may be left in it.
-/
def keepParents (w : World) (p : AbsPath) : World :=
  if w.isDirectory p.parent && (w.entry? p.parent).isNone && !p.parent.isEmpty then
    w.set p.parent .directory
  else w

/--
Makes a directory and those above it. The fault names the directory as it is `shown`.
-/
def makeDirectory (w : World) (p : AbsPath) (shown : String) : Except FileError World :=
  if ((List.range p.length).map p.take).any w.isFile then .error (.notDirectory shown)
  else if w.isFile p then .error (.exists shown)
  else if w.isDirectory p then .ok w
  else .ok (w.set p .directory)

/--
Writes a text to a file, in a directory that is made if need be. The path may be relative to a base.
-/
def save (w : World) (base : AbsPath) (path text : String) : World × Except FileError Unit :=
  let tidy := Path.tidy path.toList
  let parent := Path.dirName tidy
  match w.makeDirectory (base.resolve (String.ofList parent)) (String.ofList parent) with
  | .error e => (w, .error e)
  | .ok made =>
    let p := base.resolve path
    if made.isDirectory p then (made, .error (.isDirectory (String.ofList tidy)))
    else (made.set p (.file (Text.Utf8.encode text)), .ok ())

end World

end Polyglot
