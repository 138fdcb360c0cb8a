import Polyglot.Text.Quoted
import Polyglot.Text.Search
import Polyglot.Text.Character

/-!
Command lines: the options and the operand of a command, read from left to right.

Options may be cut short as long as it is clear which one is meant. A double dash ends the options.
What a command does not know is put aside, for its caller to judge.
-/

namespace Polyglot.Cli

inductive Effect where
  | help
  | mark
  | value
  deriving DecidableEq

structure Flag where
  names : List String
  effect : Effect
  required : Bool := false
  deriving DecidableEq

def Flag.title (f : Flag) : String :=
  "/".intercalate f.names

/--
The operand of a command: none, one, or the name of a further command with all that follows it.
-/
inductive Operand where
  | none
  | one (name : String)
  | command (name : String) (choices : List String)

structure Grammar where
  title : String
  usage : String
  details : String
  flags : List Flag
  operand : Operand := .none

structure Halt where
  status : Nat
  out : String
  err : String

/--
A value in the same word as its option, perhaps behind an equals sign.
-/
structure Attached where
  equals : Bool
  text : String

inductive WordKind where
  | operand
  | dashes
  | flag (f : Flag) (isShort : Bool) (value : Option Attached)
  | unknown

structure Word where
  raw : String
  kind : WordKind

/--
What has been read of a command line. Of several values of an option the last one counts.
-/
structure Arguments where
  values : List (Flag × String) := []
  marks : List Flag := []
  operands : List String := []
  extras : List String := []

namespace Arguments

def value? (a : Arguments) (name : String) : Option String :=
  (a.values.find? fun e => e.1.names.contains name).map (·.2)

def has (a : Arguments) (name : String) : Bool :=
  a.marks.any fun f => f.names.contains name

def sees (a : Arguments) (f : Flag) : Bool :=
  a.marks.contains f || a.values.any fun e => e.1 = f

def extra (a : Arguments) (word : String) : Arguments :=
  { a with extras := a.extras ++ [word] }

end Arguments

def isNegativeNumber (cs : List Char) : Bool :=
  match if cs.getLast? == some '\n' then cs.dropLast else cs with
  | '-' :: digits =>
    match digits.dropWhile Text.isDecimal with
    | [] => !digits.isEmpty
    | '.' :: rest => !rest.isEmpty && rest.all Text.isDecimal
    | _ => false
  | _ => false

namespace Grammar

def refuse {α : Type} (g : Grammar) (message : String) : Except Halt α :=
  .error ⟨2, "", g.usage ++ g.title ++ ": error: " ++ message ++ "\n"⟩

def refuseFlag {α : Type} (g : Grammar) (f : Flag) (message : String) : Except Halt α :=
  g.refuse ("argument " ++ f.title ++ ": " ++ message)

def help (g : Grammar) : Halt :=
  ⟨0, g.usage ++ "\n" ++ g.details, ""⟩

def flag? (g : Grammar) (name : String) : Option Flag :=
  g.flags.find? fun f => f.names.contains name

/--
The names of options that a word may stand for, each with its option and the value in the word.
-/
def meanings (g : Grammar) (cs : List Char) : List (String × WordKind) :=
  let all : List (Flag × String) := g.flags.flatMap fun f => f.names.map fun n => (f, n)
  match cs with
  | '-' :: '-' :: _ =>
    let (start, value) : List Char × Option Attached := match Text.cut? ['='] cs with
      | some (start, value) => (start, some ⟨true, String.ofList value⟩)
      | none => (cs, none)
    (all.filter fun e => Text.startsWith start e.2.toList).map fun (f, n) =>
      (n, .flag f false value)
  | a :: b :: rest =>
    all.filterMap fun (f, n) =>
      if n.toList = [a, b] then some (n, .flag f true (some ⟨false, String.ofList rest⟩))
      else if Text.startsWith cs n.toList then some (n, .flag f false none)
      else none
  | _ => []

def isShort (name : String) : Bool :=
  name.length = 2

/--
The option that a word names as it stands, perhaps with a value behind an equals sign.
-/
def literal? (g : Grammar) (s : String) : Option WordKind :=
  match g.flag? s with
  | some f => some (.flag f (isShort s) none)
  | none =>
    match Text.cut? ['='] s.toList with
    | none => none
    | some (start, value) =>
      let name := String.ofList start
      (g.flag? name).map fun f => .flag f (isShort name) (some ⟨true, String.ofList value⟩)

def classify (g : Grammar) (s : String) : Except Halt WordKind :=
  match s.toList with
  | '-' :: c :: cs =>
    match g.literal? s with
    | some k => .ok k
    | none =>
      match g.meanings ('-' :: c :: cs) with
      | [] =>
        if isNegativeNumber ('-' :: c :: cs) || (c :: cs).contains ' ' then .ok .operand
        else .ok .unknown
      | [(_, k)] => .ok k
      | several => g.refuse ("ambiguous option: " ++ s ++ " could match " ++
          ", ".intercalate (several.map (·.1)))
  | _ => .ok .operand

/--
The words of a command line up to a double dash by what they are; behind it all are operands.
-/
def classifyAll (g : Grammar) : List String → Except Halt (List Word)
  | [] => .ok []
  | s :: ss =>
    if s = "--" then .ok (⟨s, .dashes⟩ :: ss.map fun t => ⟨t, .operand⟩)
    else do
      let kind ← g.classify s
      let rest ← g.classifyAll ss
      return ⟨s, kind⟩ :: rest

/--
The options in a word that comes with a value. Short options that take none may stand together, and
then the last of them may want its value from the next word. What is no option is left over.
-/
def expand (g : Grammar) (f : Flag) (isShort equals : Bool) :
    List Char → Except Halt (List (Flag × Option String) × Option String)
  | [] =>
    if f.effect = .value then .ok ([(f, some "")], none)
    else g.refuseFlag f "ignored explicit argument ''"
  | c :: cs =>
    let value := String.ofList (c :: cs)
    if f.effect = .value then .ok ([(f, some value)], none)
    else if !isShort || equals || c == '-' then
      g.refuseFlag f ("ignored explicit argument " ++ Text.quoted value)
    else match g.flag? (String.ofList ['-', c]), cs with
      | none, _ => .ok ([(f, none)], some ("-" ++ value))
      | some next, [] => .ok ([(f, none), (next, none)], none)
      | some next, '=' :: own => do
        let (rest, left) ← g.expand next true true own
        return ((f, none) :: rest, left)
      | some next, d :: ds => do
        let (rest, left) ← g.expand next true false (d :: ds)
        return ((f, none) :: rest, left)

def apply (g : Grammar) (a : Arguments) : List (Flag × Option String) → Except Halt Arguments
  | [] => .ok a
  | (f, value) :: rest =>
    match f.effect, value with
    | .help, _ => .error g.help
    | .value, some v => g.apply { a with values := (f, v) :: a.values } rest
    | _, _ => g.apply { a with marks := f :: a.marks } rest

def awaits (g : Grammar) (a : Arguments) : Bool :=
  match g.operand with
  | .none => false
  | _ => a.operands.isEmpty

def choose (g : Grammar) (a : Arguments) (word : String) (rest : List Word) :
    Except Halt Arguments :=
  match g.operand with
  | .command name choices =>
    if choices.contains word then .ok { a with operands := word :: rest.map (·.raw) }
    else g.refuse ("argument " ++ name ++ ": invalid choice: " ++ Text.quoted word ++
      " (choose from " ++ ", ".intercalate (choices.map Text.quoted) ++ ")")
  | _ => .ok { a with operands := [word] }

def takesAll (g : Grammar) : Bool :=
  match g.operand with
  | .command .. => true
  | _ => false

/--
What the next word may belong to: options that want it as a value, an operand that a double dash
stood in front of, or one that a double dash may still follow.
-/
inductive Pending where
  | nothing
  | value (flags : List (Flag × Option String))
  | operand
  | dashes

def wanting? (flags : List (Flag × Option String)) : Option Flag :=
  (flags.find? fun (f, value) => f.effect = .value && value.isNone).map (·.1)

def refuseWanting (g : Grammar) (flags : List (Flag × Option String)) : Except Halt Arguments :=
  match wanting? flags with
  | some f => g.refuseFlag f "expected one argument"
  | none => .ok {}

def fill (flags : List (Flag × Option String)) (v : String) : List (Flag × Option String) :=
  flags.map fun (f, value) => (f, value.orElse fun _ => some v)

/--
Reads words from left to right. A double dash counts as part of the operand next to it; the name of
a further command takes everything with it.
-/
def take (g : Grammar) (a : Arguments) : Pending → List Word → Except Halt Arguments
  | .value flags, [] => g.refuseWanting flags
  | .operand, [] => .ok (a.extra "--")
  | _, [] => .ok a
  | .value flags, w :: rest =>
    match w.kind with
    | .operand => do g.take (← g.apply a (fill flags w.raw)) .nothing rest
    | _ => g.refuseWanting flags
  | .operand, w :: rest => do g.take (← g.choose a w.raw rest) .nothing rest
  | p, w :: rest =>
    match w.kind, p with
    | .dashes, .dashes => g.take a .nothing rest
    | .dashes, _ =>
      if !g.awaits a then g.take (a.extra w.raw) .nothing rest
      else if g.takesAll && !rest.isEmpty then g.choose a w.raw rest
      else g.take a .operand rest
    | .unknown, _ => g.take (a.extra w.raw) .nothing rest
    | .operand, _ =>
      if !g.awaits a then g.take (a.extra w.raw) .nothing rest
      else if g.takesAll then g.choose a w.raw rest
      else do g.take (← g.choose a w.raw rest) .dashes rest
    | .flag f isShort value, _ => do
      let (flags, left) ← match value with
        | none => .ok ([(f, none)], none)
        | some v => g.expand f isShort v.equals v.text.toList
      let a := match left with
        | none => a
        | some word => a.extra word
      if (wanting? flags).isSome then g.take a (.value flags) rest
      else g.take (← g.apply a flags) .nothing rest

def lacking (g : Grammar) (a : Arguments) : List String :=
  (if g.awaits a then match g.operand with
    | .one name | .command name _ => [name]
    | .none => []
  else []) ++ ((g.flags.filter fun f => f.required && !a.sees f).map Flag.title)

def parse (g : Grammar) (args : List String) : Except Halt Arguments := do
  let a ← g.take {} .nothing (← g.classifyAll args)
  match g.lacking a with
  | [] => return a
  | names => g.refuse ("the following arguments are required: " ++ ", ".intercalate names)

end Grammar

end Polyglot.Cli
