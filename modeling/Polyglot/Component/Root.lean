import Polyglot.Text.Character
import Polyglot.Text.Search

/-!
The root element of a template and the scope attribute in its opening tag.
-/

namespace Polyglot.Component

def isTagChar (c : Char) : Bool :=
  Text.isWord c || c == '-'

/--
The tag name that a text starts with, and what follows it. A name starts with an ASCII letter.
-/
def takeTagName? : List Char → Option (List Char × List Char)
  | [] => none
  | c :: cs =>
    if Text.isAsciiLetter c then some (c :: cs.takeWhile isTagChar, cs.dropWhile isTagChar)
    else none

/--
The name of the element that markup starts with behind blanks, and what follows the name.
-/
def rootTag? (markup : List Char) : Option (List Char × List Char) :=
  match Text.trimLeft markup with
  | '<' :: cs => takeTagName? cs
  | _ => none

def rootElement? (markup : List Char) : Option (List Char) :=
  (rootTag? markup).map (·.1)

def startsWithAttribute (id rest : List Char) : Bool :=
  (List.range (rest.takeWhile Text.isBlank).length).any fun k =>
    match Text.after? id (rest.drop (k + 1)) with
    | some tail => tail.head?.any fun c => Text.isBlank c || c == '/' || c == '>' || c == '='
    | none => false

/--
Markup without leading blanks, with the id as the first attribute of its root element.
-/
def injectScope? (id markup : List Char) : Option (List Char) :=
  (rootTag? markup).map fun (tag, rest) =>
    if startsWithAttribute id rest then Text.trimLeft markup
    else '<' :: tag ++ ' ' :: id ++ rest

end Polyglot.Component
