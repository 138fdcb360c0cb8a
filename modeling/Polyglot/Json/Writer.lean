import Polyglot.Value.Text

/-!
Writing values as JSON.

Characters beyond ASCII stand for themselves; torn texts are written as mended ones. Numbers that are
none and infinities get the names that JSON readers of this family accept.
-/

namespace Polyglot.Json

def escapeChar (c : Char) : List Char :=
  if c == '"' then ['\\', '"']
  else if c == '\\' then ['\\', '\\']
  else if c == '\n' then ['\\', 'n']
  else if c == '\r' then ['\\', 'r']
  else if c == '\t' then ['\\', 't']
  else if c == '\x08' then ['\\', 'b']
  else if c == '\x0c' then ['\\', 'f']
  else if c.toNat < 32 then '\\' :: 'u' :: Text.hexDigits 4 c.toNat
  else [c]

def writeText (s : String) : String :=
  String.ofList ('"' :: s.toList.flatMap escapeChar ++ ['"'])

def writeNumber (x : Binary64) : String :=
  if x.isNaN then "NaN"
  else if x.isInfinite then if x.isNegative then "-Infinity" else "Infinity"
  else x.text

/--
The text under which a key is written; keys other than texts, numbers, truth values and nothing have
none.
-/
def keyText? : Value → Option String
  | .str s => some s
  | .torn t => some t.mended
  | .bool b => some (if b then "true" else "false")
  | .null => some "null"
  | .int n => some (toString n)
  | .float x => some (writeNumber x)
  | _ => none

/--
How a written value is laid out: what follows a colon, the step of indentation if lines are broken,
and what becomes of values that JSON does not have.
-/
structure Layout where
  comma : String
  colon : String
  indent : Option Nat
  other : Value → Option String

def Layout.newline (l : Layout) (depth : Nat) : String :=
  match l.indent with
  | none => ""
  | some n => "\n" ++ String.ofList (List.replicate (n * depth) ' ')

/--
Everything on one line without blanks; values that JSON does not have are written as their plain
text.
-/
def compact : Layout := ⟨",", ":", none, fun v => some v.plain⟩

def mended? : Value → Option String
  | .torn t => some t.mended
  | _ => none

def indented : Layout := ⟨",", ": ", some 2, mended?⟩

def spaced : Layout := ⟨", ", ": ", none, mended?⟩

def enclose (l : Layout) (depth : Nat) (left right : String) (parts : List String) : String :=
  if parts.isEmpty then left ++ right
  else left ++ l.newline (depth + 1) ++ (l.comma ++ l.newline (depth + 1)).intercalate parts ++
    l.newline depth ++ right

def write? (l : Layout) (depth : Nat) : Value → Option String
  | .null => some "null"
  | .bool b => some (if b then "true" else "false")
  | .int n => some (toString n)
  | .float x => some (writeNumber x)
  | .str s => some (writeText s)
  | .list xs => (all xs).map (enclose l depth "[" "]")
  | .tuple xs => (all xs).map (enclose l depth "[" "]")
  | .map es => (fields es).map (enclose l depth "\x7b" "\x7d")
  | v => (l.other v).map writeText
where
  all : List Value → Option (List String)
    | [] => some []
    | x :: xs => do
      let s ← write? l (depth + 1) x
      return s :: (← all xs)
  fields : List (Value × Value) → Option (List String)
    | [] => some []
    | (k, v) :: es => do
      let key ← keyText? k
      let s ← write? l (depth + 1) v
      return (writeText key ++ l.colon ++ s) :: (← fields es)

def render (v : Value) : String :=
  (write? indented 0 v).getD v.spelled

end Polyglot.Json
