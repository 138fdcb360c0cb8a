import Polyglot.Fault
import Polyglot.Program.Token

/-!
Reading a program from its tokens.
-/

namespace Polyglot.Program

abbrev Reading := StateT (List Token) (Except Error)

def keywords : List String :=
  ["False", "None", "True", "and", "as", "assert", "async", "await", "break", "class", "continue",
    "def", "del", "elif", "else", "except", "finally", "for", "from", "global", "if", "import", "in",
    "is", "lambda", "nonlocal", "not", "or", "pass", "raise", "return", "try", "while", "with",
    "yield"]

def peek : Reading (Option Token) := do
  return (← get).head?

def faultAt : Option Token → Error
  | some (.wrong e) => e
  | some .indent | some .dedent => .indentation
  | _ => .syntaxFault

def fail {α : Type} : Reading α := do
  throw (faultAt (← peek))

def lack {α : Type} (e : Error) : Reading α := do
  match ← peek with
  | some (.wrong other) => throw other
  | _ => throw e

def skip : Reading Unit :=
  modify List.tail

def nextIs (p : Token → Bool) : Reading Bool := do
  return (← peek).any p

def takeIf (p : Token → Bool) : Reading Bool := do
  if ← nextIs p then
    skip
    return true
  else return false

def sign (s : String) : Reading Bool := takeIf (·.isSign s)

def word (s : String) : Reading Bool := takeIf (·.isName s)

def isNewLine : Token → Bool
  | .newLine => true
  | _ => false

def isIndent : Token → Bool
  | .indent => true
  | _ => false

def isDedent : Token → Bool
  | .dedent => true
  | _ => false

def expectSign (s : String) : Reading Unit := do
  if !(← sign s) then fail

def expectWord (s : String) : Reading Unit := do
  if !(← word s) then fail

def identifier : Reading String := do
  match ← peek with
  | some (.name n) => if keywords.contains n then fail else do
    skip
    return n
  | _ => fail

def signOf? {α : Type} (table : List (String × α)) : Reading (Option α) := do
  match ← peek with
  | some (.sign s) =>
    match table.lookup s with
    | some a =>
      skip
      return some a
    | none => return none
  | _ => return none

def arith (op : Op) : BinaryOp := .arithmetic op

def levels : List (List (String × BinaryOp)) :=
  [[("|", .bitOr)], [("^", .bitXor)], [("&", .bitAnd)], [("<<", .shiftLeft), (">>", .shiftRight)],
    [("+", arith .add), ("-", arith .sub)],
    [("*", arith .mul), ("/", arith .div), ("//", arith .floorDiv), ("%", arith .mod),
      ("@", .matrix)]]

def updates : List (String × BinaryOp) :=
  [("+=", arith .add), ("-=", arith .sub), ("*=", arith .mul), ("/=", arith .div),
    ("//=", arith .floorDiv), ("%=", arith .mod), ("**=", arith .pow), ("@=", .matrix),
    ("|=", .bitOr), ("^=", .bitXor), ("&=", .bitAnd), ("<<=", .shiftLeft), (">>=", .shiftRight)]

def comparisons : List (String × Comparison) :=
  [("==", .eq), ("!=", .ne), ("<", .lt), ("<=", .le), (">", .gt), (">=", .ge)]

def relation? : Reading (Option Relation) := do
  match ← signOf? comparisons with
  | some c => return some (.comparison c)
  | none =>
    if ← word "in" then return some (.comparison .mem)
    else if ← word "is" then return some (if ← word "not" then .distinct else .identical)
    else
      match (← get).take 2 with
      | [.name "not", .name "in"] =>
        skip
        skip
        return some (.comparison .notMem)
      | _ => return none

def leftChain (ops : List (String × BinaryOp)) (operand : Reading Expr) : Nat → Expr → Reading Expr
  | 0, _ => fail
  | fuel + 1, l => do
    match ← signOf? ops with
    | some op => leftChain ops operand fuel (.binary op l (← operand))
    | none => return l

def operators : List (List (String × BinaryOp)) → Reading Expr → Nat → Reading Expr
  | [], operand, _ => operand
  | ops :: rest, operand, fuel => do
    leftChain ops (operators rest operand fuel) fuel (← operators rest operand fuel)

def relations (operand : Reading Expr) : Nat → Reading (List (Relation × Expr))
  | 0 => fail
  | fuel + 1 => do
    match ← relation? with
    | some r =>
      let e ← operand
      return (r, e) :: (← relations operand fuel)
    | none => return []

/--
Texts written side by side are one text; texts and bytes do not mix.
-/
def texts : Nat → Reading String
  | 0 => fail
  | fuel + 1 => do
    match ← peek with
    | some (.str s) =>
      skip
      return s ++ (← texts fuel)
    | some (.bytes _) => fail
    | _ => return ""

def byteTexts : Nat → Reading (List UInt8)
  | 0 => fail
  | fuel + 1 => do
    match ← peek with
    | some (.bytes bs) =>
      skip
      return bs ++ (← byteTexts fuel)
    | some (.str _) => fail
    | _ => return []

/--
What may stand between the brackets of a call. Arguments by place stand before those by name.
-/
structure Arguments where
  args : List Expr := []
  named : List (String × Expr) := []

def isStarred : Expr → Bool
  | .starred _ => true
  | _ => false

def startsExpr : Token → Bool
  | .name n =>
    !keywords.contains n || ["None", "True", "False", "not", "lambda", "await", "yield"].contains n
  | .constant _ | .str _ | .bytes _ => true
  | .sign s => ["(", "[", "\x7b", "-", "+", "~", "...", "*"].contains s
  | _ => false

mutual

def expr : Nat → Reading Expr
  | 0 => fail
  | fuel + 1 => do
    if ← word "lambda" then
      let _ ← parameters ":" false fuel
      let _ ← expr fuel
      return .function
    else
      let e ← disjunction fuel
      if ← word "if" then
        let test ← disjunction fuel
        expectWord "else"
        return .choose test e (← expr fuel)
      else return e

def namedExpr : Nat → Reading Expr
  | 0 => fail
  | fuel + 1 => do
    let e ← expr fuel
    if ← nextIs (·.isSign ":=") then
      match e with
      | .name _ =>
        skip
        let _ ← expr fuel
        return .unread
      | _ => fail
    else return e

def disjunction : Nat → Reading Expr
  | 0 => fail
  | fuel + 1 => do
    let l ← conjunction fuel
    if ← word "or" then return .or l (← disjunction fuel) else return l

def conjunction : Nat → Reading Expr
  | 0 => fail
  | fuel + 1 => do
    let l ← inversion fuel
    if ← word "and" then return .and l (← conjunction fuel) else return l

def inversion : Nat → Reading Expr
  | 0 => fail
  | fuel + 1 => do
    if ← word "not" then return .not (← inversion fuel)
    else
      let operand := operators levels (factor fuel) fuel
      let e ← operand
      match ← relations operand fuel with
      | [] => return e
      | chain => return .compare e chain

def factor : Nat → Reading Expr
  | 0 => fail
  | fuel + 1 => do
    if ← sign "-" then return .negate (← factor fuel)
    else if ← sign "+" then return .positive (← factor fuel)
    else if ← sign "~" then return .invert (← factor fuel)
    else if ← word "await" then
      let _ ← factor fuel
      return .unread
    else
      let e ← followed fuel (← atom fuel)
      if ← sign "**" then return .binary (arith .pow) e (← factor fuel) else return e

def atom : Nat → Reading Expr
  | 0 => fail
  | fuel + 1 => do
    match ← peek with
    | some (.constant v) =>
      skip
      return .constant v
    | some (.str _) => return .constant (.str (← texts fuel))
    | some (.bytes _) => return .constant (.bytes (← byteTexts fuel))
    | some (.name n) =>
      skip
      match n with
      | "None" => return .constant .null
      | "True" => return .constant (.bool true)
      | "False" => return .constant (.bool false)
      | n => if keywords.contains n then fail else return .name n
    | some (.sign "...") =>
      skip
      return .constant (.object "ellipsis")
    | some (.sign "(") =>
      skip
      if ← sign ")" then return .tuple []
      else if ← nextIs (·.isName "yield") then
        let e ← yieldExpr fuel
        expectSign ")"
        return e
      else
        let e ← element fuel
        if ← nextIs fun t => t.isName "for" || t.isName "async" then
          comprehension ")" fuel
          return .unread
        else if ← sign "," then return .tuple (e :: (← elements ")" fuel))
        else
          expectSign ")"
          if isStarred e then fail else return e
    | some (.sign "[") =>
      skip
      if ← sign "]" then return .list []
      else
        let e ← element fuel
        if ← nextIs fun t => t.isName "for" || t.isName "async" then
          comprehension "]" fuel
          return .unread
        else if ← sign "," then return .list (e :: (← elements "]" fuel))
        else
          expectSign "]"
          return .list [e]
    | some (.sign "\x7b") =>
      skip
      braces fuel
    | _ => fail

def braces : Nat → Reading Expr
  | 0 => fail
  | fuel + 1 => do
    if ← sign "\x7d" then return .dict []
    else if ← sign "**" then
      let _ ← expr fuel
      entries fuel
      return .unread
    else
      let k ← element fuel
      if ← sign ":" then
        let v ← expr fuel
        if ← nextIs fun t => t.isName "for" || t.isName "async" then
          comprehension "\x7d" fuel
          return .unread
        else match ← pairs fuel with
          | some more => return .dict ((k, v) :: more)
          | none => return .unread
      else if ← nextIs fun t => t.isName "for" || t.isName "async" then
        comprehension "\x7d" fuel
        return .unread
      else if ← sign "," then return .set (k :: (← elements "\x7d" fuel))
      else
        expectSign "\x7d"
        return .set [k]

/--
The further entries of a mapping; nothing if another mapping is taken over.
-/
def pairs : Nat → Reading (Option (List (Expr × Expr)))
  | 0 => fail
  | fuel + 1 => do
    if ← sign "\x7d" then return some []
    else
      expectSign ","
      if ← sign "\x7d" then return some []
      else if ← sign "**" then
        let _ ← expr fuel
        let _ ← pairs fuel
        return none
      else
        let k ← expr fuel
        expectSign ":"
        let v ← expr fuel
        return (← pairs fuel).map ((k, v) :: ·)

def entries : Nat → Reading Unit
  | 0 => fail
  | fuel + 1 => do
    let _ ← pairs fuel

def element : Nat → Reading Expr
  | 0 => fail
  | fuel + 1 => do
    if ← nextIs (·.isSign "*") then plainElement fuel else namedExpr fuel

def plainElement : Nat → Reading Expr
  | 0 => fail
  | fuel + 1 => do
    if ← sign "*" then return .starred (← operators levels (factor fuel) fuel) else expr fuel

def elements (close : String) : Nat → Reading (List Expr)
  | 0 => fail
  | fuel + 1 => do
    if ← sign close then return []
    let e ← element fuel
    if ← sign "," then return e :: (← elements close fuel)
    expectSign close
    return [e]

def comprehension (close : String) : Nat → Reading Unit
  | 0 => fail
  | fuel + 1 => do
    if ← sign close then return ()
    else if ← word "async" then comprehension close fuel
    else if ← word "for" then
      let _ ← targetRow fuel
      expectWord "in"
      let _ ← disjunction fuel
      comprehension close fuel
    else if ← word "if" then
      let _ ← disjunction fuel
      comprehension close fuel
    else fail

def followed : Nat → Expr → Reading Expr
  | 0, _ => fail
  | fuel + 1, e => do
    if ← sign "." then followed fuel (.attr e (← identifier))
    else if ← sign "(" then
      let a ← arguments false fuel
      followed fuel (.call e a.args a.named)
    else if ← sign "[" then followed fuel (← subscript fuel e)
    else return e

def subscript : Nat → Expr → Reading Expr
  | 0, _ => fail
  | fuel + 1, e => do
    let start ← bound fuel
    if ← sign ":" then
      let stop ← bound fuel
      let step ← if ← sign ":" then bound fuel else pure none
      if ← sign "]" then return .slice e start stop step
      else
        expectSign ","
        let _ ← elements "]" fuel
        return .unread
    else
      match start with
      | none => fail
      | some i =>
        if ← sign "," then return .item e (.tuple (i :: (← elements "]" fuel)))
        else
          expectSign "]"
          return .item e i

def bound : Nat → Reading (Option Expr)
  | 0 => fail
  | fuel + 1 => do
    if ← nextIs fun t => t.isSign ":" || t.isSign "]" || t.isSign "," then return none
    else return some (← element fuel)

def arguments (seenNamed : Bool) : Nat → Reading Arguments
  | 0 => fail
  | fuel + 1 => do
    if ← sign ")" then return {}
    else if ← sign "**" then
      let e ← expr fuel
      let more ← moreArguments true fuel
      return { more with args := .starred e :: more.args }
    else
      match (← get).take 2 with
      | [.name n, .sign "="] =>
        if keywords.contains n then fail
        skip
        skip
        let e ← expr fuel
        let more ← moreArguments true fuel
        if more.named.any (·.1 == n) then fail
        return { more with named := (n, e) :: more.named }
      | _ =>
        let e ← element fuel
        if ← nextIs (·.isName "for") then
          comprehension ")" fuel
          return { args := [.unread] }
        else
          if seenNamed && !isStarred e then fail
          let more ← moreArguments seenNamed fuel
          return { more with args := e :: more.args }

def moreArguments (seenNamed : Bool) : Nat → Reading Arguments
  | 0 => fail
  | fuel + 1 => do
    if ← sign "," then arguments seenNamed fuel
    else
      expectSign ")"
      return {}

/--
The parameters of a function up to a closing sign: their defaults and what is noted of their types.
-/
def parameters (close : String) (noted : Bool) : Nat → Reading (List Expr)
  | 0 => fail
  | fuel + 1 => do
    if ← sign close then return []
    else
      let found ←
        if ← sign "/" then pure []
        else if ← nextIs (·.isSign "*") then do
          skip
          if ← nextIs (·.isSign ",") then pure [] else parameter noted fuel
        else if ← sign "**" then parameter noted fuel
        else parameter noted fuel
      if ← sign "," then return found ++ (← parameters close noted fuel)
      else
        expectSign close
        return found

def parameter (noted : Bool) : Nat → Reading (List Expr)
  | 0 => fail
  | fuel + 1 => do
    let _ ← identifier
    let note ← if noted then do
        if ← sign ":" then pure [← expr fuel] else pure []
      else pure []
    if ← sign "=" then return note ++ [← expr fuel] else return note

def targetRow : Nat → Reading Expr
  | 0 => fail
  | fuel + 1 => do
    let e ← targetOf fuel
    if ← sign "," then return .tuple (e :: (← targetRest fuel)) else return e

def targetOf : Nat → Reading Expr
  | 0 => fail
  | fuel + 1 => do
    if ← sign "*" then return .starred (← targetOf fuel)
    else
      let e ← followed fuel (← atom fuel)
      match e with
      | .name _ | .attr .. | .item .. | .slice .. | .tuple _ | .list _ => return e
      | _ => fail

def targetRest : Nat → Reading (List Expr)
  | 0 => fail
  | fuel + 1 => do
    if ← nextIs (·.isName "in") then return []
    let e ← targetOf fuel
    if ← sign "," then return e :: (← targetRest fuel) else return [e]

def yieldExpr : Nat → Reading Expr
  | 0 => fail
  | fuel + 1 => do
    expectWord "yield"
    if ← word "from" then
      let _ ← expr fuel
      return .unread
    else
      if ← nextIs startsExpr then
        let _ ← row fuel
      return .unread

def row : Nat → Reading Expr
  | 0 => fail
  | fuel + 1 => do
    if ← nextIs (·.isName "yield") then yieldExpr fuel
    else
      let e ← plainElement fuel
      if ← sign "," then return .tuple (e :: (← rowRest fuel))
      else if isStarred e then fail
      else return e

def rowRest : Nat → Reading (List Expr)
  | 0 => fail
  | fuel + 1 => do
    if ← nextIs startsExpr then
      let e ← plainElement fuel
      if ← sign "," then return e :: (← rowRest fuel) else return [e]
    else return []

end

def isTarget : Expr → Bool
  | .name _ | .attr .. | .item .. | .slice .. => true
  | .starred e => isTarget e
  | .list xs | .tuple xs => all xs
  | _ => false
where
  all : List Expr → Bool
    | [] => true
    | e :: es => isTarget e && all es

def isSingleTarget : Expr → Bool
  | .name _ | .attr .. | .item .. | .slice .. => true
  | _ => false

/--
Where statements stand: inside a function, and inside a loop.
-/
structure Context where
  inFunction : Bool := false
  inLoop : Bool := false

def assignments : Nat → Expr → Reading (List Expr × Expr)
  | 0, _ => fail
  | fuel + 1, e => do
    if ← sign "=" then
      if isTarget e && !isStarred e then
        let next ← row fuel
        let (more, v) ← assignments fuel next
        return (e :: more, v)
      else fail
    else return ([], e)

def dotted : Nat → Reading String
  | 0 => fail
  | fuel + 1 => do
    let n ← identifier
    if ← sign "." then return n ++ "." ++ (← dotted fuel) else return n

def modules : Nat → Reading (List (String × String))
  | 0 => fail
  | fuel + 1 => do
    let n ← dotted fuel
    let as_ ← if ← word "as" then identifier else pure n
    if ← sign "," then return (n, as_) :: (← modules fuel) else return [(n, as_)]

def importedNames : Nat → Reading Unit
  | 0 => fail
  | fuel + 1 => do
    let _ ← identifier
    if ← word "as" then
      let _ ← identifier
    if ← sign "," then
      if ← nextIs (·.isSign ")") then return () else importedNames fuel

def identifiers : Nat → Reading Unit
  | 0 => fail
  | fuel + 1 => do
    let _ ← identifier
    if ← sign "," then identifiers fuel

def fromImport (fuel : Nat) : Reading Statement := do
  let dots ← takeDots fuel
  let n ← if dots && (← nextIs (·.isName "import")) then pure "" else dotted fuel
  expectWord "import"
  if ← sign "*" then pure ()
  else if ← sign "(" then do
    importedNames fuel
    expectSign ")"
  else importedNames fuel
  return .load [(n, "")]
where
  takeDots : Nat → Reading Bool
    | 0 => return false
    | fuel + 1 => do
      if ← takeIf fun t => t.isSign "." || t.isSign "..." then
        let _ ← takeDots fuel
        return true
      else return false

def simple (c : Context) (fuel : Nat) : Reading Statement := do
  if ← word "pass" then return .pass
  else if ← word "break" then if c.inLoop then return .stop else fail
  else if ← word "continue" then if c.inLoop then return .next else fail
  else if ← word "return" then
    if !c.inFunction then fail
    if ← nextIs startsExpr then
      let _ ← row fuel
    return .leave
  else if ← word "raise" then
    if ← nextIs startsExpr then
      let e ← expr fuel
      if ← word "from" then
        let _ ← expr fuel
      return .raise (some e)
    else return .raise none
  else if ← word "global" then
    identifiers fuel
    return .pass
  else if ← word "nonlocal" then
    if !c.inFunction then fail
    identifiers fuel
    return .pass
  else if ← word "del" then
    match ← row fuel with
    | .tuple es => if es.all isTarget then return .delete es else fail
    | e => if isTarget e then return .delete [e] else fail
  else if ← word "assert" then
    let e ← expr fuel
    if ← sign "," then return .assert e (some (← expr fuel)) else return .assert e none
  else if ← word "import" then return .load (← modules fuel)
  else if ← word "from" then fromImport fuel
  else
    if !c.inFunction && (← nextIs (·.isName "yield")) then fail
    let e ← row fuel
    match ← signOf? updates with
    | some op => if isSingleTarget e then return .update e op (← row fuel) else fail
    | none =>
      if ← sign ":" then
        if !isSingleTarget e then fail
        let note ← expr fuel
        if ← sign "=" then return .annotate e note (some (← row fuel))
        else return .annotate e note none
      else
        match ← assignments fuel e with
        | ([], e) => return .expr e
        | (targets, v) => return .assign targets v

mutual

def statements (c : Context) : Nat → Reading (List Statement)
  | 0 => fail
  | fuel + 1 => do
    match ← peek with
    | none => return []
    | some .dedent => return []
    | some .indent => fail
    | some .newLine =>
      skip
      statements c fuel
    | _ =>
      let s ← statement c fuel
      return s ++ (← statements c fuel)

def statement (c : Context) : Nat → Reading (List Statement)
  | 0 => fail
  | fuel + 1 => do
    if ← word "if" then return [← branch c [] fuel]
    else if ← word "while" then
      let test ← namedExpr fuel
      let body ← block { c with inLoop := true } fuel
      return [.repeat test body (← otherwise c fuel)]
    else if ← word "for" then
      let target ← targetRow fuel
      expectWord "in"
      let items ← row fuel
      let body ← block { c with inLoop := true } fuel
      return [.loop target items body (← otherwise c fuel)]
    else if ← word "try" then attempt c fuel
    else if ← word "with" then
      withItems fuel
      let body ← block c fuel
      return .expr .unread :: body
    else if ← sign "@" then
      let e ← namedExpr fuel
      if !(← takeIf isNewLine) then fail
      let _ ← word "async"
      if !(← nextIs fun t => t.isName "def" || t.isName "class" || t.isSign "@") then fail
      return .expr e :: (← statement c fuel)
    else if ← word "async" then
      if ← nextIs (·.isName "def") then statement c fuel
      else if c.inFunction && (← nextIs fun t => t.isName "for" || t.isName "with") then
        statement c fuel
      else fail
    else if ← word "def" then
      let n ← identifier
      expectSign "("
      let evaluated ← parameters ")" true fuel
      let result ← if ← sign "->" then do pure [← expr fuel] else pure []
      let _ ← block { inFunction := true } fuel
      return [.define n (evaluated ++ result)]
    else if ← word "class" then
      let n ← identifier
      let bases ← if ← sign "(" then do pure (← arguments false fuel).args else pure []
      return [.type n bases (← block {} fuel)]
    else simpleLine c fuel

def simpleLine (c : Context) : Nat → Reading (List Statement)
  | 0 => fail
  | fuel + 1 => do
    let s ← simple c fuel
    if ← sign ";" then
      if ← takeIf isNewLine then return [s] else return s :: (← simpleLine c fuel)
    else if ← takeIf isNewLine then return [s]
    else fail

def block (c : Context) : Nat → Reading (List Statement)
  | 0 => fail
  | fuel + 1 => do
    expectSign ":"
    if ← takeIf isNewLine then
      if ← takeIf isIndent then
        let body ← statements c fuel
        if ← takeIf isDedent then return body else fail
      else match (← get).getLast? with
        | some (.wrong .syntaxFault) => lack .syntaxFault
        | _ => lack .indentation
    else simpleLine c fuel

def branch (c : Context) (arms : List (Expr × List Statement)) : Nat → Reading Statement
  | 0 => fail
  | fuel + 1 => do
    let test ← namedExpr fuel
    let body ← block c fuel
    let arms := arms ++ [(test, body)]
    if ← word "elif" then branch c arms fuel else return .branch arms (← otherwise c fuel)

def otherwise (c : Context) : Nat → Reading (List Statement)
  | 0 => fail
  | fuel + 1 => do if ← word "else" then block c fuel else return []

def attempt (c : Context) : Nat → Reading (List Statement)
  | 0 => fail
  | fuel + 1 => do
    let body ← block c fuel
    let caught ← handlers c fuel
    let rest ← if caught.isEmpty then pure [] else otherwise c fuel
    let final ← if ← word "finally" then do pure (some (← block c fuel)) else pure none
    if caught.isEmpty && final.isNone then lack .syntaxFault
    return [.attempt body caught rest (final.getD [])]

def handlers (c : Context) :
    Nat → Reading (List (Option Expr × Option String × List Statement))
  | 0 => fail
  | fuel + 1 => do
    if ← word "except" then
      let _ ← sign "*"
      let kind ← if ← nextIs (·.isSign ":") then pure none else some <$> expr fuel
      let name ← if ← word "as" then some <$> identifier else pure none
      let body ← block c fuel
      return (kind, name, body) :: (← handlers c fuel)
    else return []

def withItems : Nat → Reading Unit
  | 0 => fail
  | fuel + 1 => do
    let _ ← expr fuel
    if ← word "as" then
      let _ ← targetOf fuel
    if ← sign "," then withItems fuel

end

def read (source : String) : Except Error (List Statement) :=
  let ts := tokens source
  match (statements {} (32 * ts.length + 64)).run ts with
  | .ok (body, []) => .ok body
  | .ok (_, t :: _) => .error (faultAt t)
  | .error e => .error e

end Polyglot.Program
