/-!
Finding and cutting in texts given as lists of characters.
-/

namespace Polyglot.Text

def after? : List Char → List Char → Option (List Char)
  | [], cs => some cs
  | _ :: _, [] => none
  | p :: ps, c :: cs => if p == c then after? ps cs else none

def startsWith (start cs : List Char) : Bool :=
  (after? start cs).isSome

def cut? (part : List Char) : List Char → Option (List Char × List Char)
  | [] => if part.isEmpty then some ([], []) else none
  | c :: cs =>
    match after? part (c :: cs) with
    | some rest => some ([], rest)
    | none => (cut? part cs).map fun (before, rest) => (c :: before, rest)

def contains (part cs : List Char) : Bool :=
  (cut? part cs).isSome

/--
The pieces between the occurrences of a character; there is always one piece.
-/
def pieces (sep : Char) : List Char → List (List Char)
  | [] => [[]]
  | c :: cs =>
    if c == sep then [] :: pieces sep cs
    else match pieces sep cs with
      | [] => [[c]]
      | p :: ps => (c :: p) :: ps

def join (sep : List Char) : List (List Char) → List Char
  | [] => []
  | [p] => p
  | p :: ps => p ++ sep ++ join sep ps

def replaceChar (c : Char) (new cs : List Char) : List Char :=
  cs.flatMap fun d => if d == c then new else [d]

/--
Line ends written as carriage returns, alone or before a line feed, become line feeds.
-/
def unixLines : List Char → List Char
  | '\r' :: '\n' :: cs => '\n' :: unixLines cs
  | '\r' :: cs => '\n' :: unixLines cs
  | c :: cs => c :: unixLines cs
  | [] => []

end Polyglot.Text
