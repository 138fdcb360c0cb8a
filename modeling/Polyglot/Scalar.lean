import Polyglot.Number.Reading
import Polyglot.Text.Character
import Polyglot.Value.Basic

/-!
Scalars: plain text read as an integer, a fraction or a truth value where it spells one. Codes that
start with a zero stay texts.
-/

namespace Polyglot.Scalar

def isCode (digits : List Char) : Bool :=
  1 < digits.length && digits.head? == some '0'

def isSign (c : Char) : Bool :=
  c == '-' || c == '+'

def integerDigits? (cs : List Char) : Option (List Char) :=
  let (_, digits) := Number.takeSign cs
  if !digits.isEmpty && digits.all Text.isDecimal then some digits else none

/--
The value of a plain text; none if it is an integer too long to be read.
-/
def read? (text : List Char) : Option Value :=
  let s := Text.trim text
  match integerDigits? s with
  | some digits =>
    if isCode (s.dropWhile isSign) then some (.str (String.ofList s))
    else if digits.length > Number.digitLimit then none
    else
      let n : Int := Text.ofDecimals digits
      some (.int (if (Number.takeSign s).1 then -n else n))
  | none =>
    match Number.fraction? s with
    | some f => some (.float f.toBinary64)
    | none =>
      match Text.lower (String.ofList s) with
      | "true" => some (.bool true)
      | "false" => some (.bool false)
      | _ => some (.str (String.ofList s))

end Polyglot.Scalar
