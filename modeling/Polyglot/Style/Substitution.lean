import Polyglot.Text.Character
import Polyglot.Text.Quoted

/-!
Substitution texts: what is put in place of a match. A backslash starts an escape, for a character
by name or by octal number, or for the whole match; anything else stands for itself. A text without
a backslash is its own meaning.
-/

namespace Polyglot.Style

/--
Why a substitution text has no meaning: it is malformed at a place, or names a group that there is
not.
-/
inductive SubstitutionError where
  | malformed (what : String) (text : List Char) (place : Nat)
  | unknownGroup (name : String)

def SubstitutionError.message : SubstitutionError → String
  | .malformed what text place =>
    let before := text.take place
    let lines := before.count '\n'
    what ++ " at position " ++ toString place ++
      if text.contains '\n' then
        " (line " ++ toString (lines + 1) ++ ", column " ++
          toString ((before.reverse.takeWhile (· != '\n')).length + 1) ++ ")"
      else ""
  | .unknownGroup name => "unknown group name " ++ Text.quoted name

namespace Substitution

inductive Part where
  | char (c : Char)
  | whole
  deriving DecidableEq

def isOctal (c : Char) : Bool :=
  '0' ≤ c && c ≤ '7'

def octal (ds : List Char) : Nat :=
  ds.foldl (fun n c => n * 8 + (c.toNat - 48)) 0

def namedChar? : Char → Option Char
  | 'a' => some '\x07'
  | 'b' => some '\x08'
  | 'f' => some '\x0c'
  | 'n' => some '\n'
  | 'r' => some '\r'
  | 't' => some '\t'
  | 'v' => some '\x0b'
  | '\\' => some '\\'
  | _ => none

def group (text : List Char) (place n : Nat) : Except SubstitutionError Part :=
  if n = 0 then .ok .whole
  else .error (.malformed ("invalid group reference " ++ toString n) text place)

/--
A reference to a group between angle brackets; `place` is where the name starts.
-/
def namedGroup (text : List Char) (place : Nat) (cs : List Char) :
    Except SubstitutionError (Part × List Char) :=
  let name := cs.takeWhile (· != '>')
  let fail (what : String) := Except.error (.malformed what text place)
  match cs.dropWhile (· != '>') with
  | [] => fail (if name.isEmpty then "missing group name" else "missing >, unterminated name")
  | _ :: rest =>
    if name.isEmpty then fail "missing group name"
    else if name.all Text.isAsciiDigit then
      (group text place (Text.ofDecimals name)).map fun p => (p, rest)
    else if name.all Text.isWord && !name.head?.any Text.isDigit then
      .error (.unknownGroup (String.ofList name))
    else fail ("bad character in group name " ++ Text.quoted (String.ofList name))

def parts (text : List Char) : Nat → Nat → List Char → Except SubstitutionError (List Part)
  | 0, _, _ => .ok []
  | fuel + 1, place, cs =>
    let more (ps : List Part) (used : Nat) : Except SubstitutionError (List Part) :=
      (parts text fuel (place + used) (cs.drop used)).map (ps ++ ·)
    match cs with
    | [] => .ok []
    | ['\\'] => .error (.malformed "bad escape (end of pattern)" text place)
    | '\\' :: 'g' :: '<' :: rest =>
      match namedGroup text (place + 3) rest with
      | .error e => .error e
      | .ok (p, left) => more [p] (cs.length - left.length)
    | '\\' :: 'g' :: _ => .error (.malformed "missing <" text (place + 2))
    | '\\' :: '0' :: rest =>
      let ds := (rest.take 2).takeWhile isOctal
      more [.char (Char.ofNat (octal ds))] (2 + ds.length)
    | '\\' :: c :: rest =>
      if Text.isAsciiDigit c then
        let ds := c :: (rest.take 1).takeWhile Text.isAsciiDigit
        let third := (rest.drop 1).take 1
        if ds.length == 2 && (ds ++ third).all isOctal && third.length == 1 then
          let code := octal (ds ++ third)
          if code > 255 then
            let written := String.ofList ('\\' :: ds ++ third)
            .error (.malformed ("octal escape value " ++ written ++ " outside of range 0-0o377")
              text place)
          else more [.char (Char.ofNat code)] 4
        else match group text (place + 1) (Text.ofDecimals ds) with
          | .error e => .error e
          | .ok p => more [p] (1 + ds.length)
      else match namedChar? c with
        | some d => more [.char d] 2
        | none =>
          if Text.isAsciiLetter c then
            .error (.malformed ("bad escape \\" ++ c.toString) text place)
          else more [.char '\\', .char c] 2
    | c :: _ => more [.char c] 1

def parse (text : List Char) : Except SubstitutionError (List Part) :=
  parts text (text.length + 1) 0 text

def spell (whole : List Char) (ps : List Part) : List Char :=
  ps.flatMap fun
    | .char c => [c]
    | .whole => whole

end Substitution

end Polyglot.Style
