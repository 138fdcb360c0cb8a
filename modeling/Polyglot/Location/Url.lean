import Polyglot.Text.Search
import Polyglot.Text.Character

/-!
Addresses on the web: taking them apart, and finding one from another.
-/

namespace Polyglot

structure Url where
  scheme : List Char := []
  host : List Char := []
  path : List Char := []
  params : List Char := []
  query : List Char := []
  fragment : List Char := []

inductive UrlError where
  | brackets
  | bracketedHost (host : String)
  | hostSigns (host : String)
  deriving DecidableEq

namespace Url

/--
Whether a location is an address of the web protocols, written in small letters.
-/
def isWeb (location : String) : Bool :=
  Text.startsWith "http://".toList location.toList ||
    Text.startsWith "https://".toList location.toList

def isSchemeChar (c : Char) : Bool :=
  Text.isAsciiLetter c || Text.isAsciiDigit c || c == '+' || c == '-' || c == '.'

/--
Signs whose plain form holds a sign that parts addresses; no host holds them.
-/
def hostBreakers : List Nat :=
  [0x2047, 0x2048, 0x2049, 0x2100, 0x2101, 0x2105, 0x2106, 0x2a74, 0xfe13, 0xfe16, 0xfe55, 0xfe56,
    0xfe5f, 0xfe6b, 0xff03, 0xff0f, 0xff1a, 0xff1f, 0xff20]

def isHexDigit (c : Char) : Bool :=
  Text.isAsciiDigit c || ('a' ≤ c && c ≤ 'f') || ('A' ≤ c && c ≤ 'F')

def isDottedQuad (cs : List Char) : Bool :=
  let parts := Text.pieces '.' cs
  parts.length == 4 && parts.all fun p =>
    !p.isEmpty && p.length ≤ 3 && p.all Text.isAsciiDigit && Text.ofDecimals p ≤ 255 &&
      (p.length == 1 || p.head? != some '0')

def isInternet6 (cs : List Char) : Bool :=
  let (address, zoneIsFine) := match Text.cut? ['%'] cs with
    | some (a, zone) => (a, !zone.isEmpty && !zone.contains '%')
    | none => (cs, true)
  let parts := Text.pieces ':' address
  let quad := (parts.getLastD []).contains '.'
  let parts := if quad then
      if isDottedQuad (parts.getLastD []) then parts.dropLast ++ [['0'], ['0']] else [['x']]
    else parts
  let inner := (parts.drop 1).dropLast
  let gaps := (inner.filter List.isEmpty).length
  let ends := (if parts.head? == some [] then 1 else 0) + if parts.getLast? == some [] then 1 else 0
  zoneIsFine && 3 ≤ parts.length && parts.length ≤ 9 &&
    (parts.all fun p => p.isEmpty || (p.length ≤ 4 && p.all isHexDigit)) &&
    if gaps == 0 then parts.length == 8 && ends == 0
    else
      let before := (parts.takeWhile (!·.isEmpty)).length
      let after := (parts.reverse.takeWhile (!·.isEmpty)).length
      gaps == 1 && before + after ≤ 7 && before + after + 1 + ends == parts.length

def isFutureHost (cs : List Char) : Bool :=
  match cs with
  | 'v' :: rest =>
    let digits := rest.takeWhile isHexDigit
    match rest.dropWhile isHexDigit with
    | '.' :: tail => !digits.isEmpty && !tail.isEmpty && !tail.contains '\n'
    | _ => false
  | _ => false

def checkHost (host : List Char) : Except UrlError Unit :=
  let opened := host.contains '['
  let closed := host.contains ']'
  if opened != closed then .error .brackets
  else
    let inside := ((host.dropWhile (· != '[')).drop 1).takeWhile (· != ']')
    let fine := if inside.head? == some 'v' then isFutureHost inside else isInternet6 inside
    if opened && !fine then .error (.bracketedHost (String.ofList inside))
    else if host.any fun c => hostBreakers.contains c.toNat then
      .error (.hostSigns (String.ofList host))
    else .ok ()

def splitAtSign (sign : Char) (cs : List Char) : List Char × List Char :=
  (cs.takeWhile (· != sign), (cs.dropWhile (· != sign)).drop 1)

/--
Takes an address apart. Blanks and controls in front are dropped, line ends and tabs everywhere. The
path keeps its parameters.
-/
def split (scheme text : List Char) : Except UrlError Url :=
  let cs := (text.dropWhile (·.toNat ≤ 32)).filter fun c => c != '\t' && c != '\r' && c != '\n'
  let name := cs.takeWhile (· != ':')
  let hasScheme := cs.contains ':' && name.head?.any Text.isAsciiLetter && name.all isSchemeChar
  let (scheme, cs) := if hasScheme then (name.map Char.toLower, (splitAtSign ':' cs).2)
    else (scheme, cs)
  let (host, cs) := match Text.after? ['/', '/'] cs with
    | some rest =>
      let inHost (c : Char) : Bool := c != '/' && c != '?' && c != '#'
      (rest.takeWhile inHost, rest.dropWhile inHost)
    | none => ([], cs)
  (checkHost host).map fun _ =>
    let (cs, fragment) := splitAtSign '#' cs
    let (path, query) := splitAtSign '?' cs
    { scheme, host, path, query, fragment }

def withPath : List String :=
  ["", "ftp", "http", "gopher", "nntp", "imap", "wais", "file", "https", "shttp", "mms", "prospero",
    "rtsp", "rtspu", "sftp", "svn", "svn+ssh", "ws", "wss"]

def withParams : List String :=
  ["", "ftp", "hdl", "prospero", "http", "imap", "https", "shttp", "rtsp", "rtspu", "sip", "sips",
    "mms", "sftp", "tel"]

/--
Splits the parameters of the last part off the path, where the scheme has parameters.
-/
def splitParams (u : Url) : Url :=
  if !withParams.contains (String.ofList u.scheme) then u
  else
    let last := (u.path.reverse.takeWhile (· != '/')).reverse
    if last.contains ';' then
      let (name, params) := splitAtSign ';' last
      { u with path := u.path.take (u.path.length - last.length) ++ name, params }
    else u

def text (u : Url) : List Char :=
  let path := if u.params.isEmpty then u.path else u.path ++ ';' :: u.params
  let named := !u.scheme.isEmpty && withPath.contains (String.ofList u.scheme) &&
    !Text.startsWith ['/', '/'] path
  let body := if !u.host.isEmpty || named then
      let path := if !path.isEmpty && path.head? != some '/' then '/' :: path else path
      '/' :: '/' :: u.host ++ path
    else path
  let body := if u.scheme.isEmpty then body else u.scheme ++ ':' :: body
  let body := if u.query.isEmpty then body else body ++ '?' :: u.query
  if u.fragment.isEmpty then body else body ++ '#' :: u.fragment

/--
Takes parts back to their parents; a path that ends in a dot part ends in a slash.
-/
def foldSegments (segments : List (List Char)) : List (List Char) :=
  let folded := segments.foldl (fun done s =>
    if s == ['.', '.'] then done.dropLast else if s == ['.'] then done else done ++ [s]) []
  let last := segments.getLastD []
  if last == ['.'] || last == ['.', '.'] then folded ++ [[]] else folded

def segmentsFrom (base path : List Char) : List (List Char) :=
  if path.head? == some '/' then Text.pieces '/' path
  else
    let parts := Text.pieces '/' base
    let parts := if parts.getLastD [] == [] then parts else parts.dropLast
    match parts ++ Text.pieces '/' path with
    | [] => []
    | first :: rest => first :: rest.dropLast.filter (!·.isEmpty) ++ rest.getLast?.toList

def find (base reference : String) : Except UrlError String :=
  if base.isEmpty then .ok reference
  else if reference.isEmpty then .ok base
  else do
    let b := splitParams (← split [] base.toList)
    let r := splitParams (← split b.scheme reference.toList)
    if r.scheme != b.scheme || !withPath.contains (String.ofList r.scheme) then return reference
    else if !r.host.isEmpty then return String.ofList r.text
    else if r.path.isEmpty && r.params.isEmpty then
      let query := if r.query.isEmpty then b.query else r.query
      return String.ofList
        { r with host := b.host, path := b.path, params := b.params, query }.text
    else
      let path := Text.join ['/'] (foldSegments (segmentsFrom b.path r.path))
      return String.ofList
        { r with host := b.host, path := if path.isEmpty then ['/'] else path }.text

end Url

end Polyglot
