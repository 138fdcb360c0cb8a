import Polyglot.Fault
import Polyglot.Template.Token

/-!
Reading a template from its tokens.

From the weakest to the strongest, expressions are made by a choice, `or`, `and`, `not`, comparisons,
sums, joining, products, powers, signs, and what follows an operand: attributes, items, calls,
filters and tests.
-/

namespace Polyglot.Template

abbrev Reading := StateT (List Token) Option

def peek : Reading (Option Token) := do
  return (← get).head?

def skip : Reading Unit :=
  modify List.tail

def isNext (t : Token) : Reading Bool := do
  return (← peek) == some t

def take (t : Token) : Reading Bool := do
  if ← isNext t then
    skip
    return true
  else return false

def expect (t : Token) : Reading Unit := do
  if !(← take t) then failure

def expectName : Reading String := do
  match ← peek with
  | some (.name n) =>
    skip
    return n
  | _ => failure

def dottedName : Nat → Reading String
  | 0 => failure
  | fuel + 1 => do
    let n ← expectName
    if ← take (.sign ".") then return n ++ "." ++ (← dottedName fuel) else return n

def takeSign? {α : Type} (signs : List (String × α)) : Reading (Option α) := do
  match ← peek with
  | some (.sign s) =>
    match signs.lookup s with
    | some a =>
      skip
      return some a
    | none => return none
  | _ => return none

def sums : List (String × Op) := [("+", .add), ("-", .sub)]

def products : List (String × Op) := [("*", .mul), ("/", .div), ("//", .floorDiv), ("%", .mod)]

def powers : List (String × Op) := [("**", .pow)]

def comparisons : List (String × Comparison) :=
  [("==", .eq), ("!=", .ne), ("<", .lt), ("<=", .le), (">", .gt), (">=", .ge)]

def leftChain (ops : List (String × Op)) (operand : Reading Expr) : Nat → Expr → Reading Expr
  | 0, _ => failure
  | fuel + 1, l => do
    match ← takeSign? ops with
    | some op => leftChain ops operand fuel (.arithmetic op l (← operand))
    | none => return l

def wordChain (word : String) (make : Expr → Expr → Expr) (operand : Reading Expr) :
    Nat → Expr → Reading Expr
  | 0, _ => failure
  | fuel + 1, l => do
    if ← take (.name word) then wordChain word make operand fuel (make l (← operand)) else return l

def joinedParts (operand : Reading Expr) : Nat → Reading (List Expr)
  | 0 => failure
  | fuel + 1 => do
    if ← take (.sign "~") then
      let e ← operand
      return e :: (← joinedParts operand fuel)
    else return []

def comparison? : Reading (Option Comparison) := do
  match ← takeSign? comparisons with
  | some c => return some c
  | none =>
    if ← take (.name "in") then return some .mem
    else
      match (← get).take 2 with
      | [.name "not", .name "in"] =>
        skip
        skip
        return some .notMem
      | _ => return none

def compareChain (operand : Reading Expr) : Nat → Reading (List (Comparison × Expr))
  | 0 => failure
  | fuel + 1 => do
    match ← comparison? with
    | some c =>
      let e ← operand
      return (c, e) :: (← compareChain operand fuel)
    | none => return []

def strings : Nat → Reading String
  | 0 => failure
  | fuel + 1 => do
    match ← peek with
    | some (.str s) =>
      skip
      return s ++ (← strings fuel)
    | _ => return ""

def constants : List (String × Literal) :=
  [("true", .bool true), ("True", .bool true), ("false", .bool false), ("False", .bool false),
    ("none", .none), ("None", .none)]

def rowEnds (stops : List String) : Reading Bool := do
  match ← peek with
  | some .outputEnd | some .statementEnd | some (.sign ")") => return true
  | some (.name n) => return stops.contains n
  | _ => return false

def testArgumentStarts : Reading Bool := do
  match ← peek with
  | some (.name n) => return !(["else", "or", "and"].contains n)
  | some (.str _) | some (.int _) | some (.float _) => return true
  | some (.sign s) => return ["(", "[", "\x7b"].contains s
  | _ => return false

structure Arguments where
  args : List Expr := []
  named : List (String × Expr) := []

mutual

def expr : Nat → Reading Expr
  | 0 => failure
  | fuel + 1 => do choices fuel (← disjunction fuel)

def choices : Nat → Expr → Reading Expr
  | 0, _ => failure
  | fuel + 1, yes => do
    if ← take (.name "if") then
      let test ← disjunction fuel
      if ← take (.name "else") then choices fuel (.choose test yes (some (← expr fuel)))
      else choices fuel (.choose test yes none)
    else return yes

def disjunction : Nat → Reading Expr
  | 0 => failure
  | fuel + 1 => do wordChain "or" .or (conjunction fuel) fuel (← conjunction fuel)

def conjunction : Nat → Reading Expr
  | 0 => failure
  | fuel + 1 => do wordChain "and" .and (negation fuel) fuel (← negation fuel)

def negation : Nat → Reading Expr
  | 0 => failure
  | fuel + 1 => do
    if ← take (.name "not") then return .not (← negation fuel)
    else
      let e ← sum fuel
      match ← compareChain (sum fuel) fuel with
      | [] => return e
      | chain => return .compare e chain

def sum : Nat → Reading Expr
  | 0 => failure
  | fuel + 1 => do leftChain sums (joining fuel) fuel (← joining fuel)

def joining : Nat → Reading Expr
  | 0 => failure
  | fuel + 1 => do
    let e ← product fuel
    match ← joinedParts (product fuel) fuel with
    | [] => return e
    | more => return .joined (e :: more)

def product : Nat → Reading Expr
  | 0 => failure
  | fuel + 1 => do leftChain products (power fuel) fuel (← power fuel)

def power : Nat → Reading Expr
  | 0 => failure
  | fuel + 1 => do leftChain powers (signed true fuel) fuel (← signed true fuel)

def signed (withFilter : Bool) : Nat → Reading Expr
  | 0 => failure
  | fuel + 1 => do
    let e ←
      if ← take (.sign "-") then do pure (.negate (← signed false fuel))
      else if ← take (.sign "+") then do pure (.positive (← signed false fuel))
      else operand fuel
    let e ← followed fuel e
    if withFilter then filtered fuel e else return e

def operand : Nat → Reading Expr
  | 0 => failure
  | fuel + 1 => do
    match ← peek with
    | some (.name n) =>
      skip
      match constants.lookup n with
      | some c => return .literal c
      | none => return .name n
    | some (.str _) => return .literal (.str (← strings fuel))
    | some (.int n) =>
      skip
      return .literal (.int n)
    | some (.float x) =>
      skip
      return .literal (.float x)
    | some (.sign "(") =>
      skip
      let e ← row true [] (expr fuel) fuel
      expect (.sign ")")
      return e
    | some (.sign "[") =>
      skip
      return .list (← items fuel)
    | some (.sign "\x7b") =>
      skip
      return .dict (← pairs fuel)
    | _ => failure

def row (bracketed : Bool) (stops : List String) (operand : Reading Expr) : Nat → Reading Expr
  | 0 => failure
  | fuel + 1 => do
    if ← rowEnds stops then
      if bracketed then return .tuple [] else failure
    else
      let e ← operand
      if ← isNext (.sign ",") then return .tuple (e :: (← rowRest stops operand fuel)) else return e

def rowRest (stops : List String) (operand : Reading Expr) : Nat → Reading (List Expr)
  | 0 => failure
  | fuel + 1 => do
    if ← take (.sign ",") then
      if ← rowEnds stops then return []
      let e ← operand
      return e :: (← rowRest stops operand fuel)
    else return []

def items : Nat → Reading (List Expr)
  | 0 => failure
  | fuel + 1 => do
    if ← take (.sign "]") then return []
    let e ← expr fuel
    if ← take (.sign ",") then return e :: (← items fuel)
    expect (.sign "]")
    return [e]

def pairs : Nat → Reading (List (Expr × Expr))
  | 0 => failure
  | fuel + 1 => do
    if ← take (.sign "\x7d") then return []
    let k ← expr fuel
    expect (.sign ":")
    let v ← expr fuel
    if ← take (.sign ",") then return (k, v) :: (← pairs fuel)
    expect (.sign "\x7d")
    return [(k, v)]

def followed : Nat → Expr → Reading Expr
  | 0, _ => failure
  | fuel + 1, e => do
    if ← take (.sign ".") then
      match ← peek with
      | some (.name n) =>
        skip
        followed fuel (.attr e n)
      | some (.int n) =>
        skip
        followed fuel (.item e (.literal (.int n)))
      | _ => failure
    else if ← take (.sign "[") then followed fuel (← subscript fuel e)
    else if ← take (.sign "(") then
      let a ← arguments fuel
      followed fuel (.call e a.args a.named)
    else return e

def subscript : Nat → Expr → Reading Expr
  | 0, _ => failure
  | fuel + 1, e => do
    let start ← bound fuel
    if ← take (.sign ":") then
      let stop ← bound fuel
      let step ← if ← take (.sign ":") then bound fuel else pure none
      expect (.sign "]")
      return .slice e start stop step
    else
      match start with
      | none => failure
      | some i =>
        if ← isNext (.sign ",") then
          let more ← rowRest [] (expr fuel) fuel
          expect (.sign "]")
          return .item e (.tuple (i :: more))
        else
          expect (.sign "]")
          return .item e i

def bound : Nat → Reading (Option Expr)
  | 0 => failure
  | fuel + 1 => do
    match ← peek with
    | some (.sign ":") | some (.sign "]") => return none
    | _ => return some (← expr fuel)

def arguments : Nat → Reading Arguments
  | 0 => failure
  | fuel + 1 => do
    if ← take (.sign ")") then return {}
    match (← get).take 2 with
    | [.name n, .sign "="] =>
      skip
      skip
      let e ← expr fuel
      let more ← moreArguments fuel
      if more.args.isEmpty then return { more with named := (n, e) :: more.named } else failure
    | _ =>
      let e ← expr fuel
      let more ← moreArguments fuel
      return { more with args := e :: more.args }

def moreArguments : Nat → Reading Arguments
  | 0 => failure
  | fuel + 1 => do
    if ← take (.sign ",") then arguments fuel
    else
      expect (.sign ")")
      return {}

def filtered : Nat → Expr → Reading Expr
  | 0, _ => failure
  | fuel + 1, e => do
    if ← take (.sign "|") then
      let name ← dottedName fuel
      let a ← if ← take (.sign "(") then arguments fuel else pure {}
      filtered fuel (.filter e name a.args a.named)
    else if ← take (.name "is") then
      let negated ← take (.name "not")
      let name ← dottedName fuel
      let args ←
        if ← take (.sign "(") then do pure (← arguments fuel).args
        else if ← testArgumentStarts then do
          if ← isNext (.name "is") then failure
          pure [← followed fuel (← operand fuel)]
        else pure []
      let t := .test e name args
      filtered fuel (if negated then .not t else t)
    else if ← take (.sign "(") then
      let a ← arguments fuel
      filtered fuel (.call e a.args a.named)
    else return e

end

def targets (stops : List String) (fuel : Nat) : Reading (List String × Bool) := do
  let bracketed ← take (.sign "(")
  let e ← row false stops (operand fuel) fuel
  if bracketed then expect (.sign ")")
  match e with
  | .name n => return ([n], false)
  | .tuple es => return (← es.mapM fun | .name n => pure n | _ => failure, true)
  | _ => failure

mutual

/--
The pieces up to one of some words at the start of a statement, which is left to be read.
-/
def pieces (stops : List String) : Nat → Reading (List Node)
  | 0 => failure
  | fuel + 1 => do
    match ← peek with
    | none => if stops.isEmpty then return [] else failure
    | some (.text s) =>
      skip
      return .text s :: (← pieces stops fuel)
    | some .outputStart =>
      skip
      let e ← row false [] (expr fuel) fuel
      expect .outputEnd
      return .output e :: (← pieces stops fuel)
    | some .statementStart =>
      skip
      let word ← expectName
      if stops.contains word then
        modify (.name word :: ·)
        return []
      else
        let n ← statement word fuel
        expect .statementEnd
        return n :: (← pieces stops fuel)
    | _ => failure

def statement (word : String) : Nat → Reading Node
  | 0 => failure
  | fuel + 1 => do
    if word == "if" then branch [] fuel
    else if word == "for" then loop fuel
    else if word == "set" then
      let (names, several) ← targets [] fuel
      if ← take (.sign "=") then return .set names (← row false [] (expr fuel) fuel)
      else
        match names with
        | [n] =>
          if several then failure
          let inner ← block ["endset"] fuel
          skip
          return .capture n inner
        | _ => failure
    else if word == "include" then
      let names ← expr fuel
      let ignoreMissing ← match (← get).take 2 with
        | [.name "ignore", .name "missing"] => do
          skip
          skip
          pure true
        | _ => pure false
      let withContext ← match (← get).take 2 with
        | [.name w, .name "context"] =>
          if w == "with" || w == "without" then do
            skip
            skip
            pure (w == "with")
          else pure true
        | _ => pure true
      return .insert names ignoreMissing withContext
    else failure

def block (stops : List String) : Nat → Reading (List Node)
  | 0 => failure
  | fuel + 1 => do
    let _ ← take (.sign ":")
    expect .statementEnd
    pieces stops fuel

def branch (arms : List (Expr × List Node)) : Nat → Reading Node
  | 0 => failure
  | fuel + 1 => do
    let test ← row false [] (disjunction fuel) fuel
    let inner ← block ["elif", "else", "endif"] fuel
    let arms := arms ++ [(test, inner)]
    match ← expectName with
    | "elif" => branch arms fuel
    | "else" =>
      let otherwise ← block ["endif"] fuel
      skip
      return .branch arms otherwise
    | _ => return .branch arms []

def loop : Nat → Reading Node
  | 0 => failure
  | fuel + 1 => do
    let (names, _) ← targets ["in"] fuel
    expect (.name "in")
    let items ← row false ["recursive"] (disjunction fuel) fuel
    let test ← if ← take (.name "if") then some <$> expr fuel else pure none
    let inner ← block ["endfor", "else"] fuel
    let word ← expectName
    let otherwise ←
      if word == "else" then do
        let n ← block ["endfor"] fuel
        skip
        pure n
      else pure []
    return .loop names items test inner otherwise

end

/--
The pieces of a template, if it has the form of one.
-/
def read? (s : Settings) (source : String) : Option (List Node) := do
  let tokens ← tokens? s source
  let (nodes, rest) ← (pieces [] (24 * tokens.length + 64)).run tokens
  if rest.isEmpty then some nodes else none

end Polyglot.Template
