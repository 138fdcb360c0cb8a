import Polyglot.Failure
import Polyglot.Text.Character

/-!
Options of the two kinds of sources, files and answers from the web; the sets of characters that a source may
be written in, and what becomes of bytes that are no text.
-/

namespace Polyglot.Source

inductive Encoding where
  | utf8
  | ascii
  | latin

def Encoding.ofName? (name : String) : Option Encoding :=
  let plain := String.ofList ((Text.lower name).toList.map fun c =>
    if c == '_' || c == ' ' then '-' else c)
  if ["utf-8", "utf8", "u8", "utf", "utf8-ucs2", "utf8-ucs4", "cp65001"].contains plain then some .utf8
  else if ["ascii", "us-ascii", "646", "ansi-x3.4-1968", "iso646-us", "us"].contains plain then
    some .ascii
  else if ["latin-1", "latin1", "latin", "iso-8859-1", "iso8859-1", "8859", "cp819", "l1"].contains
      plain then some .latin
  else none

/--
What stands in place of bytes that are no text, or that they are not let through.
-/
inductive OnBad where
  | refuse
  | leaveOut
  | replace
  | unknown (name : String)

def OnBad.ofName : String → OnBad
  | "strict" => refuse
  | "ignore" => leaveOut
  | "replace" => replace
  | name => unknown name

/--
Names as they were given: they are looked up only when there is something to decode.
-/
structure Decoding where
  encoding : String := "utf-8"
  onBad : String := "replace"

def decodeBytes? : Encoding → List UInt8 → Option (List Char)
  | .utf8, bytes => Text.Utf8.decode? bytes
  | .ascii, bytes =>
    if bytes.all fun b => b.toNat < 128 then some (bytes.map fun b => Char.ofNat b.toNat) else none
  | .latin, bytes => some (bytes.map fun b => Char.ofNat b.toNat)

def decodeWith (bad : List Char) : Encoding → List UInt8 → List Char
  | .utf8, bytes => Text.Utf8.decodeWith bad bytes
  | .ascii, bytes => bytes.flatMap fun b => if b.toNat < 128 then [Char.ofNat b.toNat] else bad
  | .latin, bytes => bytes.map fun b => Char.ofNat b.toNat

def Decoding.decode (d : Decoding) (bytes : List UInt8) : Except Failure (List Char) :=
  match Encoding.ofName? d.encoding with
  | none => .error (.unknownCharset d.encoding)
  | some e =>
    match decodeBytes? e bytes with
    | some cs => .ok cs
    | none =>
      match OnBad.ofName d.onBad with
      | .refuse => .error .notDecodable
      | .leaveOut => .ok (decodeWith [] e bytes)
      | .replace => .ok (decodeWith ['\uFFFD'] e bytes)
      | .unknown name => .error (.unknownCharset name)

structure Options where
  file : Decoding := {}
  web : Decoding := {}
  timeout : Value := .null
  agent : Value := .str "preos/0.1"

namespace Options

def unknownKey? (known : List String) (es : Fields) : Option String :=
  es.findSome? fun e => match e.1 with
    | .str k => if known.contains k then none else some k
    | _ => some "?"

def textOr (es : Fields) (key default : String) : Except Failure String :=
  match Value.find? es key with
  | none => .ok default
  | some (.str s) => .ok s
  | some _ => .error (.unknownOption key)

def decoding (es : Fields) : Except Failure Decoding := do
  return ⟨← textOr es "encoding" "utf-8", ← textOr es "errors" "replace"⟩

/--
The options of one kind of source; only known ones are taken.
-/
def part (es : Fields) (name : String) (known : List String) : Except Failure Fields :=
  match (Value.find? es name).getD (.map []) with
  | .map own =>
    match unknownKey? known own with
    | some key => .error (.unknownOption key)
    | none => .ok own
  | _ => .error (.unknownOption name)

/--
The options that a value gives to sources by their names. Names of other sources say nothing.
-/
def ofValue (v : Value) : Except Failure Options :=
  if !v.truthy then .ok {}
  else match v with
    | .map es => do
      let file ← part es "file" ["encoding", "errors"]
      let web ← part es "http" ["timeout_seconds", "encoding", "errors", "user_agent"]
      return ⟨← decoding file, ← decoding web, (Value.find? web "timeout_seconds").getD .null,
        (Value.find? web "user_agent").getD (.str "preos/0.1")⟩
    | _ => .error (.unknownOption "source_options")

end Options

end Polyglot.Source
