import Polyglot.Text.Search

/-!
Paths as texts: their parts, joining, and the normal form without blank parts and detours.
-/

namespace Polyglot.Path

def isAbsolute (p : List Char) : Bool :=
  p.head? == some '/'

def baseName (p : List Char) : List Char :=
  (p.reverse.takeWhile (· != '/')).reverse

/--
What comes before the last slash. Slashes at its end are left out unless there is nothing else.
-/
def dirName (p : List Char) : List Char :=
  let head := (p.reverse.dropWhile (· != '/')).reverse
  if head.all (· == '/') then head else (head.reverse.dropWhile (· == '/')).reverse

/--
One path taken from another; an absolute path is itself.
-/
def join (a b : List Char) : List Char :=
  if isAbsolute b then b
  else if a.isEmpty || a.getLast? == some '/' then a ++ b
  else a ++ '/' :: b

def rootSlashes : List Char → Nat
  | '/' :: '/' :: '/' :: _ => 1
  | '/' :: '/' :: _ => 2
  | '/' :: _ => 1
  | _ => 0

/--
The parts of a path with every detour taken back. `done` holds what has been read, last part first.
-/
def foldParts (rooted : Bool) (done : List (List Char)) : List (List Char) → List (List Char)
  | [] => done.reverse
  | p :: ps =>
    if p.isEmpty || p == ['.'] then foldParts rooted done ps
    else if p != ['.', '.'] then foldParts rooted (p :: done) ps
    else match done with
      | [] => if rooted then foldParts rooted [] ps else foldParts rooted [p] ps
      | d :: rest =>
        if d == ['.', '.'] then foldParts rooted (p :: done) ps else foldParts rooted rest ps

def normalize (p : List Char) : List Char :=
  let slashes := rootSlashes p
  let parts := foldParts (slashes != 0) [] (Text.pieces '/' p)
  let text := List.replicate slashes '/' ++ Text.join ['/'] parts
  if text.isEmpty then ['.'] else text

def plainParts (p : List Char) : List (List Char) :=
  (Text.pieces '/' p).filter fun part => !part.isEmpty && part != ['.']

def tidy (p : List Char) : List Char :=
  let text := List.replicate (rootSlashes p) '/' ++ Text.join ['/'] (plainParts p)
  if text.isEmpty then ['.'] else text

/--
The extension of a name with its dot: what follows the last dot, which may stand neither first nor
last.
-/
def extension (name : List Char) : List Char :=
  let tail := (name.reverse.takeWhile (· != '.')).reverse
  let start := name.length - tail.length
  if tail.isEmpty || start ≤ 1 then [] else '.' :: tail

/--
A name without its extension; dots in front belong to the name.
-/
def stem (name : List Char) : List Char :=
  let dots := name.takeWhile (· == '.')
  let rest := name.dropWhile (· == '.')
  if rest.contains '.' then
    dots ++ ((rest.reverse.dropWhile (· != '.')).drop 1).reverse
  else name

end Polyglot.Path

namespace Polyglot

/--
A resolved path: the names from the root down.
-/
abbrev AbsPath := List String

namespace AbsPath

/--
The written form; the root itself is the empty text.
-/
def text (p : AbsPath) : String :=
  String.join (p.map ("/" ++ ·))

/--
The resolved form of a path taken from another one.
-/
def resolve (base : AbsPath) (p : String) : AbsPath :=
  let cs := p.toList
  let start : AbsPath := if Path.isAbsolute cs then [] else base
  (Path.plainParts cs).foldl (fun at_ part =>
    if part == ['.', '.'] then at_.dropLast else at_ ++ [String.ofList part]) start

def parent (p : AbsPath) : AbsPath :=
  p.dropLast

def name (p : AbsPath) : String :=
  p.getLastD ""

end AbsPath

end Polyglot
