import Polyglot.Value.Basic

/-!
What a transpiler may hand back: a text that is not empty, and anything beside it. A torn text is kept mended.
-/

namespace Polyglot

structure Output where
  text : String
  diagnostics : Value

inductive OutputError where
  | shape (type : String)
  | text
  deriving DecidableEq

def OutputError.message : OutputError → String
  | .shape type => "transpilers must return a TranspileOutput or a mapping, got " ++ type
  | .text => "transpilers must return a non-empty string text with the transpiled code"

namespace Output

def ofParts (text diagnostics : Value) : Except OutputError Output :=
  match text with
  | .str s => if s.isEmpty then .error .text else .ok ⟨s, diagnostics⟩
  | .torn t => .ok ⟨t.mended, diagnostics⟩
  | _ => .error .text

/--
The output that a value stands for: an output as such, or a mapping with the same parts.
-/
def ofValue : Value → Except OutputError Output
  | .output text diagnostics => ofParts text diagnostics
  | .map entries =>
    ofParts ((Value.find? entries "text").getD .null)
      ((Value.find? entries "diagnostics").getD .null)
  | v => .error (.shape v.typeName)

end Output

end Polyglot
