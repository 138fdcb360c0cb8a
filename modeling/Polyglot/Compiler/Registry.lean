import Polyglot.Language
import Polyglot.Table

/-!
The registry of compilers: one transpiler for each pair of languages, by output and then by input
language, and one interpreter for each language. What is registered last counts.
-/

namespace Polyglot

inductive RegistryError where
  | language (e : LanguageError)
  | notFunction
  deriving DecidableEq

def RegistryError.message : RegistryError → String
  | .language e => e.message
  | .notFunction => "the compiler parameter is not a function"

structure Registry (K : Type) where
  byOutput : Table String (Table String K) := {}
  interpreters : Table String K := {}

namespace Registry

variable {K : Type}

def languagePair (input output : Value) : Except RegistryError (String × String) := do
  let i ← (Language.ofValue "input_lang" input).mapError .language
  let o ← (Language.ofValue "output_lang" output).mapError .language
  return (i, o)

def language (lang : Value) : Except RegistryError String :=
  (Language.ofValue "lang" lang).mapError .language

def inputs (r : Registry K) (output : String) : Table String K :=
  (r.byOutput.get? output).getD {}

def transpiler? (r : Registry K) (input output : String) : Option K :=
  (r.inputs output).get? input

def setTranspiler (r : Registry K) (input output : String) (c : K) : Registry K :=
  { r with byOutput := r.byOutput.set output ((r.inputs output).set input c) }

/--
Takes a pair out. An output language that has no input language left goes with it.
-/
def eraseTranspiler (r : Registry K) (input output : String) : Registry K :=
  let left := (r.inputs output).erase input
  if left.isEmpty then { r with byOutput := r.byOutput.erase output }
  else { r with byOutput := r.byOutput.set output left }

/--
Registers a transpiler; what is no compiler is refused after the languages have been looked at.
-/
def registerTranspiler (r : Registry K) (input output : Value) (c : Option K) :
    Except RegistryError (Registry K) := do
  let (i, o) ← languagePair input output
  match c with
  | some c => .ok (r.setTranspiler i o c)
  | none => .error .notFunction

def removeTranspiler (r : Registry K) (input output : Value) :
    Except RegistryError (Registry K) := do
  let (i, o) ← languagePair input output
  return r.eraseTranspiler i o

def getTranspiler (r : Registry K) (input output : Value) : Except RegistryError (Option K) := do
  let (i, o) ← languagePair input output
  return r.transpiler? i o

def registerInterpreter (r : Registry K) (lang : Value) (c : Option K) :
    Except RegistryError (Registry K) := do
  let l ← language lang
  match c with
  | some c => .ok { r with interpreters := r.interpreters.set l c }
  | none => .error .notFunction

def removeInterpreter (r : Registry K) (lang : Value) : Except RegistryError (Registry K) := do
  let l ← language lang
  return { r with interpreters := r.interpreters.erase l }

def getInterpreter (r : Registry K) (lang : Value) : Except RegistryError (Option K) := do
  let l ← language lang
  return r.interpreters.get? l

/--
The transpilers as input language, output language and compiler, in the order of the output and
then of the input languages.
-/
def transpilers (r : Registry K) : List (String × String × K) :=
  r.byOutput.sorted.flatMap fun (o, inputs) => inputs.sorted.map fun (i, c) => (i, o, c)

def pairs (r : Registry K) : List (String × String) :=
  r.transpilers.map fun (i, o, _) => (i, o)

def sortedInterpreters (r : Registry K) : List (String × K) :=
  r.interpreters.sorted

/--
Another registry with the same compilers; no row is shared with the first one.
-/
def copy (r : Registry K) : Registry K where
  byOutput := .ofEntries (r.byOutput.entries.map fun (o, inputs) => (o, inputs.copy))
  interpreters := r.interpreters.copy

def size (r : Registry K) : Nat :=
  r.byOutput.entries.foldr (fun e n => e.2.size + n) r.interpreters.size

end Registry

end Polyglot
