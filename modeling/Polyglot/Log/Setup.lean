import Polyglot.Text.Character
import Polyglot.Text.Quoted
import Polyglot.Value.Text

/-!
Logging: levels, and which of two streams a record goes to.

Until logging has been configured only warnings and worse are shown, as bare messages. From then on
one handler takes the records from the level of the log up to the level of information, and another
one those from warnings on, or from the level of the log if that is higher.
-/

namespace Polyglot.Log

/--
A level as it was given: a number, or a truth value that counts as one.
-/
inductive Level where
  | number (n : Int)
  | truth (b : Bool)
  deriving DecidableEq

namespace Level

def value : Level → Int
  | number n => n
  | truth b => if b then 1 else 0

def debug : Level := number 10
def info : Level := number 20
def warning : Level := number 30
def error : Level := number 40
def critical : Level := number 50

def ofName? : String → Option Level
  | "DEBUG" => some debug
  | "INFO" => some info
  | "WARNING" => some warning
  | "WARN" => some warning
  | "ERROR" => some error
  | "CRITICAL" => some critical
  | _ => none

def label (n : Int) : String :=
  if n = 10 then "DEBUG" else if n = 20 then "INFO" else if n = 30 then "WARNING"
  else if n = 40 then "ERROR" else if n = 50 then "CRITICAL" else if n = 0 then "NOTSET"
  else "Level " ++ toString n

end Level

structure Record where
  level : Int
  logger : String
  message : String
  deriving DecidableEq

def Record.traced (logger text : String) : Record :=
  ⟨10, logger, "(preos) " ++ text⟩

def Record.line (r : Record) : String :=
  Level.label r.level ++ " | " ++ r.logger ++ " | " ++ r.message

inductive Charset where
  | ascii
  | latin
  | unicode
  deriving DecidableEq

def Charset.has : Charset → Char → Bool
  | .ascii, c => c.toNat < 128
  | .latin, c => c.toNat < 256
  | .unicode, _ => true

def escapeOutside (set : Charset) (s : String) : String :=
  String.ofList (s.toList.flatMap fun c => if set.has c then [c] else Text.codeEscape c.toNat)

/--
The lowest levels of the two handlers. Both may write to one stream of a limited set of characters
in place of the two usual ones.
-/
structure Handlers where
  out : Int
  err : Int
  shared : Option Charset := none
  deriving DecidableEq

structure Setup where
  level : Level := .info
  threshold : Int := Level.warning.value
  handlers : Option Handlers := none
  deriving DecidableEq

inductive Stream where
  | out
  | err
  deriving DecidableEq

namespace Setup

/--
The level that a value stands for; a name that is not known stands for the present level.
-/
def levelOf (s : Setup) : Value → Level
  | .null => s.level
  | .int n => .number n
  | .bool b => .truth b
  | v => (Level.ofName? (Text.upper (Text.trimmed v.plain))).getD s.level

def handlersAt (l : Level) (shared : Option Charset) : Handlers :=
  ⟨l.value, max l.value Level.warning.value, shared⟩

def setLevel (s : Setup) (v : Value) : Setup :=
  let l := s.levelOf v
  ⟨l, l.value, s.handlers.map fun h => handlersAt l h.shared⟩

/--
Makes the handlers. Where there are some already only the level changes, unless new ones are forced.
-/
def configure (s : Setup) (v : Value) (shared : Option Charset) (force : Bool) : Setup :=
  let l := s.levelOf v
  if s.handlers.isSome && !force then s.setLevel v
  else ⟨l, l.value, some (handlersAt l shared)⟩

def streams (s : Setup) (level : Int) : List Stream :=
  if level ≤ 0 || level < s.threshold then []
  else match s.handlers with
    | none => if Level.warning.value ≤ level then [.err] else []
    | some h =>
      (if h.out ≤ level && level ≤ Level.info.value then [.out] else []) ++
        if h.err ≤ level then [.err] else []

/--
What is written of a record: the bare message as long as nothing has been configured.
-/
def written (s : Setup) (r : Record) : String :=
  match s.handlers with
  | none => r.message
  | some _ => r.line

/--
The text that a list of records puts on one of the usual streams.
-/
def text (s : Setup) (stream : Stream) (records : List Record) : String :=
  if (s.handlers.bind (·.shared)).isSome then ""
  else String.join (records.flatMap fun r =>
    ((s.streams r.level).filter (· = stream)).map fun _ => s.written r ++ "\n")

def sharedText (s : Setup) (records : List Record) : String :=
  match s.handlers.bind (·.shared) with
  | none => ""
  | some set => String.join (records.flatMap fun r =>
      (s.streams r.level).map fun _ => escapeOutside set r.line ++ "\n")

end Setup

end Polyglot.Log
