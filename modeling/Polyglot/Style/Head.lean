/-!
Style heads: where the styles of components go, each text once and in order of first arrival.
-/

namespace Polyglot.Style

/--
A head: its styles in their order, and which texts have been seen, in no order that counts.
-/
structure Head where
  styles : List String := []
  seen : List String := []
  deriving DecidableEq

namespace Head

def append (h : Head) (css : String) : Head :=
  if css ∈ h.seen then h else ⟨h.styles ++ [css], css :: h.seen⟩

def appendAll (h : Head) (sheets : List String) : Head :=
  sheets.foldl append h

def clear (_ : Head) : Head := {}

def render (h : Head) : String :=
  String.join (h.styles.map fun css => "<style type='text/css'>" ++ css ++ "</style>")

end Head

end Polyglot.Style
