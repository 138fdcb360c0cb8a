import Polyglot.Number.Binary64
import Polyglot.Fault

/-!
Page templates: text with expressions and statements in it.
-/

namespace Polyglot.Template

inductive Literal where
  | str (s : String)
  | int (n : Int)
  | float (x : Binary64)
  | bool (b : Bool)
  | none

inductive Expr where
  | literal (l : Literal)
  | name (n : String)
  | list (xs : List Expr)
  | tuple (xs : List Expr)
  | dict (entries : List (Expr × Expr))
  | attr (e : Expr) (name : String)
  | item (e index : Expr)
  | slice (e : Expr) (start stop step : Option Expr)
  | call (f : Expr) (args : List Expr) (named : List (String × Expr))
  | filter (e : Expr) (name : String) (args : List Expr) (named : List (String × Expr))
  | test (e : Expr) (name : String) (args : List Expr)
  | not (e : Expr)
  | negate (e : Expr)
  | positive (e : Expr)
  | arithmetic (op : Op) (l r : Expr)
  | joined (xs : List Expr)
  | and (l r : Expr)
  | or (l r : Expr)
  | compare (e : Expr) (chain : List (Comparison × Expr))
  | choose (test yes : Expr) (no : Option Expr)

/--
A piece of a template. A loop may choose its items by a test and has a body of its own for no items.
-/
inductive Node where
  | text (s : String)
  | output (e : Expr)
  | branch (arms : List (Expr × List Node)) (otherwise : List Node)
  | loop (targets : List String) (items : Expr) (test : Option Expr) (body otherwise : List Node)
  | set (targets : List String) (value : Expr)
  | capture (target : String) (body : List Node)
  | insert (names : Expr) (ignoreMissing withContext : Bool)

/--
How a template is read and written out.
-/
structure Settings where
  escape : Bool
  trimBlocks : Bool
  stripBlocks : Bool
  keepLastNewline : Bool

end Polyglot.Template

namespace Polyglot

/--
A template ready to be written out, with the directories where included ones are looked up.
-/
structure Template where
  body : List Template.Node
  settings : Template.Settings
  directories : List String

end Polyglot
