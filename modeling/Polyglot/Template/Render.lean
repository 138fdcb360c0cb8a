import Polyglot.Location.World
import Polyglot.Template.Evaluate
import Polyglot.Template.Reader

/-!
Templates written out.

Names that a loop or an included template gives a value are forgotten behind it; those set inside a
branch are kept.
-/

namespace Polyglot.Template

namespace Node

def isKnown (soft : Bool) : Node → Bool
  | text _ => true
  | output e => e.isKnown soft
  | branch choices otherwise => arms choices && nodes true otherwise
  | loop _ items test body otherwise =>
    items.isKnown soft && test.all (·.isKnown false) && nodes false body && nodes false otherwise
  | set _ e => e.isKnown soft
  | capture _ body => nodes false body
  | insert names _ _ => names.isKnown soft
where
  nodes (soft : Bool) : List Node → Bool
    | [] => true
    | n :: ns => isKnown soft n && nodes soft ns
  arms : List (Expr × List Node) → Bool
    | [] => true
    | (e, body) :: rest => e.isKnown true && nodes true body && arms rest

end Node

/--
The pieces of a source text. Its form is looked at before its filters are.
-/
def read (s : Settings) (source : String) : Except Error (List Node) :=
  match read? s source with
  | none => .error .syntaxFault
  | some nodes => if Node.isKnown.nodes false nodes then .ok nodes else .error .unknownName

/--
Gives the targets of a loop or an assignment their values. Several targets take a list apart.
-/
def assign (env : Env) (targets : List String) (d : Datum) : Except Error Env :=
  match targets with
  | [t] => .ok (env.set t d)
  | ts => do
    let xs ← d.elements
    if xs.length ≠ ts.length then Datum.fault .value
    else return (ts.zip xs).foldl (fun env (t, x) => env.set t (.value x)) env

def chosen (env : Env) (targets : List String) (test : Option Expr) (items : List Value) :
    Except Error (List Value) :=
  match test with
  | none => .ok items
  | some e => items.filterM fun x => do
    let inner ← assign env.enter targets (.value x)
    return (← e.eval inner).truthy

/--
The names of included templates, of which the first that is there counts.
-/
structure Wanted where
  names : List String
  single : Bool
  ignoreMissing : Bool
  withContext : Bool

def Wanted.ofDatum (ignoreMissing withContext : Bool) : Datum → Except Error Wanted
  | .undefined => .error .undefined
  | .value (.str s) => .ok ⟨[s], true, ignoreMissing, withContext⟩
  | d => do
    let xs ← d.elements
    return ⟨xs.map Value.plain, false, ignoreMissing, withContext⟩

namespace Node

mutual

/--
The text of a piece, and the names with their values behind it. `fetch` writes out included
templates.
-/
def render (fetch : Wanted → Env → Except Error String) (env : Env) : Node →
    Except Error (String × Env)
  | text s => .ok (s, env)
  | output e => do
    let d ← e.eval env
    return (if env.escape then d.escaped else d.text, env)
  | branch choices otherwise => do
    match ← renderArms fetch env choices with
    | some found => return found
    | none => renderAll fetch env otherwise
  | loop targets items test body otherwise => do
    let xs ← chosen env targets test (← (← items.eval env).elements)
    if xs.isEmpty then return ((← renderAll fetch env.enter otherwise).1, env)
    else
      let texts ← (xs.zipIdx).mapM fun (x, i) => do
        let inner ← assign (env.enter.set "loop" (.turn ⟨xs, i⟩)) targets (.value x)
        return (← renderAll fetch inner body).1
      return (String.join texts, env)
  | set targets e => do
    let d ← e.eval env
    return ("", ← assign env targets d)
  | capture target body => do
    let (s, _) ← renderAll fetch env.enter body
    return ("", env.set target (if env.escape then .markup s else .str s))
  | insert names ignoreMissing withContext => do
    let wanted ← Wanted.ofDatum ignoreMissing withContext (← names.eval env)
    return (← fetch wanted env, env)

def renderAll (fetch : Wanted → Env → Except Error String) (env : Env) : List Node →
    Except Error (String × Env)
  | [] => .ok ("", env)
  | n :: ns => do
    let (s, env) ← render fetch env n
    let (t, env) ← renderAll fetch env ns
    return (s ++ t, env)

def renderArms (fetch : Wanted → Env → Except Error String) (env : Env) :
    List (Expr × List Node) → Except Error (Option (String × Env))
  | [] => .ok none
  | (e, body) :: rest => do
    if (← e.eval env).truthy then return some (← renderAll fetch env body)
    else renderArms fetch env rest

end

end Node

/--
The parts of a template's name. Names that lead out of a directory name nothing.
-/
def nameParts? (name : String) : Option (List (List Char)) :=
  let parts := Text.pieces '/' name.toList
  if parts.contains ['.', '.'] then none
  else some (parts.filter fun p => !p.isEmpty && p != ['.'])

def lookUp? (w : World) (directories : List String) (name : String) : Option (List UInt8) := do
  let parts ← nameParts? name
  directories.findSome? fun d =>
    w.bytes? ((AbsPath.resolve w.current d) ++ parts.map String.ofList)

def includeLimit : Nat := 100

def fetchFrom (w : World) (directories : List String) (s : Settings) (base : Env) :
    Nat → Wanted → Env → Except Error String
  | 0, _, _ => Datum.fault (.other "RecursionError")
  | fuel + 1, wanted, env =>
    match wanted.names.findSome? (lookUp? w directories) with
    | none =>
      if wanted.ignoreMissing then .ok ""
      else if wanted.single then .error (.notFound (wanted.names.headD "")) else .error .noneFound
    | some bytes =>
      match Text.Utf8.decode? bytes with
      | none => Datum.fault (.other "UnicodeDecodeError")
      | some cs => do
        let nodes ← read s (String.ofList cs)
        let start := if wanted.withContext then env else base
        return (← Node.renderAll (fetchFrom w directories s base fuel) start.enter nodes).1

def render (t : Template) (w : World) (context : Fields) : Except Error String :=
  if (Value.find? context "self").isSome then Datum.fault .type
  else do
    let names : Table String Datum :=
      context.foldl (fun t (k, v) => t.set k.plain (.value v.mended)) {}
    let escape := t.settings.escape
    let fetch := fetchFrom w t.directories t.settings ⟨[], escape⟩ includeLimit
    return (← Node.renderAll fetch ⟨[names], escape⟩ t.body).1

end Polyglot.Template
