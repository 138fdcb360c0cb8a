import Polyglot.Location.Path
import Polyglot.Text.Character
import Polyglot.Value.Arithmetic

/-!
Programs that set names: what a program is called, and its expressions and statements.

A name is the file name of a location made into an identifier.
-/

namespace Polyglot.Program

/--
The last part of a location without its extension, with an underscore for every sign that no word
holds. A name that would be empty or start with a digit gets a fixed start.
-/
def nameOf (location : String) : String :=
  let path := Text.replaceChar '\\' ['/'] location.toList
  let name := (Path.stem (Path.baseName path)).map fun c => if Text.isWord c then c else '_'
  if name.head?.any fun c => !Text.isDigit c then String.ofList name
  else "preos_" ++ String.ofList name

inductive BinaryOp where
  | arithmetic (op : Op)
  | bitOr | bitXor | bitAnd | shiftLeft | shiftRight
  | matrix
  deriving DecidableEq

inductive Relation where
  | comparison (c : Comparison)
  | identical
  | distinct
  deriving DecidableEq

/--
An expression. Those that are read but never worked out, such as the ones inside functions, need not
be taken apart.
-/
inductive Expr where
  | constant (v : Value)
  | name (n : String)
  | list (xs : List Expr)
  | tuple (xs : List Expr)
  | set (xs : List Expr)
  | dict (entries : List (Expr × Expr))
  | attr (e : Expr) (name : String)
  | item (e index : Expr)
  | slice (e : Expr) (start stop step : Option Expr)
  | call (f : Expr) (args : List Expr) (named : List (String × Expr))
  | not (e : Expr)
  | negate (e : Expr)
  | positive (e : Expr)
  | invert (e : Expr)
  | binary (op : BinaryOp) (l r : Expr)
  | and (l r : Expr)
  | or (l r : Expr)
  | compare (e : Expr) (chain : List (Relation × Expr))
  | choose (test yes no : Expr)
  | function
  | starred (e : Expr)
  | unread

inductive Statement where
  | expr (e : Expr)
  | assign (targets : List Expr) (value : Expr)
  | update (target : Expr) (op : BinaryOp) (value : Expr)
  | annotate (target annotation : Expr) (value : Option Expr)
  | pass
  | leave
  | stop
  | next
  | raise (e : Option Expr)
  | delete (targets : List Expr)
  | assert (test : Expr) (message : Option Expr)
  | load (modules : List (String × String))
  | branch (arms : List (Expr × List Statement)) (otherwise : List Statement)
  | loop (target items : Expr) (body otherwise : List Statement)
  | repeat (test : Expr) (body otherwise : List Statement)
  | attempt (body : List Statement) (handlers : List (Option Expr × Option String × List Statement))
      (otherwise final : List Statement)
  | define (name : String) (evaluated : List Expr)
  | type (name : String) (bases : List Expr) (body : List Statement)

end Polyglot.Program
