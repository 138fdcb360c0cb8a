import Polyglot.Location.Path
import Polyglot.Location.Url

/-!
References: the location of a region's source, found from the location of its document.
-/

namespace Polyglot.Component

/--
Where a document is: its location, and whether its text was read from there. The location of an
inline document starts with a mark and is no place that anything could be found from.
-/
structure Place where
  location : String
  fromLocation : Bool
  inlineStart : String

def Place.isInline (p : Place) : Bool :=
  !p.fromLocation && p.inlineStart.isPrefixOf p.location

/--
The location that a reference in a document stands for.
-/
def resolve (p : Place) (reference : String) : Except UrlError String :=
  if Url.isWeb reference then .ok reference
  else if Url.isWeb p.location then Url.find p.location reference
  else if p.isInline then .ok reference
  else
    .ok (String.ofList
      (Path.normalize (Path.join (Path.dirName p.location.toList) reference.toList)))

end Polyglot.Component
