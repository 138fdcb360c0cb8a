import Polyglot.Number.Writing
import Polyglot.Text.Quoted
import Polyglot.Value.Basic

/-!
Values as text: spelled out, where texts stand between quotes, and plain, where a text is itself.
-/

namespace Polyglot.Value

def commas (parts : List String) : String :=
  ", ".intercalate parts

def spelled : Value → String
  | null => "None"
  | bool b => if b then "True" else "False"
  | int n => toString n
  | float x => x.text
  | str s => Text.quoted s
  | torn t => t.quoted
  | bytes bs => Text.quotedBytes bs
  | list xs => "[" ++ commas (all xs) ++ "]"
  | tuple [x] => "(" ++ spelled x ++ ",)"
  | tuple xs => "(" ++ commas (all xs) ++ ")"
  | set [] => "set()"
  | set xs => "\x7b" ++ commas (all xs) ++ "\x7d"
  | map es => "\x7b" ++ commas (pairs es) ++ "\x7d"
  | moment m => m.spelled
  | program names => "<module " ++ field names "__name__" ++ file names ++ ">"
  | function name => "<function " ++ name ++ ">"
  | type name => "<class " ++ Text.quoted name ++ ">"
  | object kind => "<" ++ kind ++ " object>"
  | head _ => "<head>"
  | template _ => "<Template>"
  | document _ => "<document>"
  | component exports name parts =>
    "ComponentModule(" ++ commas [
      "exports=" ++ spelled exports,
      "template=" ++ ((parts.template.map Text.quoted).getD "None"),
      "styles=[" ++ commas (parts.styles.map Text.quoted) ++ "]",
      "base_uri=" ++ Text.quoted parts.location,
      "name=" ++ spelled name,
      "insert_styles=" ++ if parts.pendingHead.isSome then "<styles>" else "None"] ++ ")"
  | output text diagnostics =>
    "TranspileOutput(text=" ++ spelled text ++ ", diagnostics=" ++ spelled diagnostics ++ ")"
where
  all : List Value → List String
    | [] => []
    | x :: xs => spelled x :: all xs
  pairs : List (Value × Value) → List String
    | [] => []
    | (k, v) :: es => (spelled k ++ ": " ++ spelled v) :: pairs es
  field : List (String × Value) → String → String
    | [], _ => "'?'"
    | (n, v) :: rest, name => if n == name then spelled v else field rest name
  file : List (String × Value) → String
    | [] => ""
    | (n, v) :: rest => if n == "__file__" then " from " ++ spelled v else file rest

/--
The plain form of a value. A torn text has none but the mended one.
-/
def plain : Value → String
  | str s => s
  | torn t => t.mended
  | moment m => m.text
  | v => v.spelled

end Polyglot.Value
