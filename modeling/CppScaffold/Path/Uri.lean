import CppScaffold.Error
import CppScaffold.Path.Basic
import CppScaffold.Text.Utf8

/-!
# Addresses of documents

An address is `file://` and a path in which every byte but letters, digits, slashes and `_ . - ~` is escaped.
-/

namespace CppScaffold.Uri

open Text

def isSafeByte (b : UInt8) : Bool :=
  let c := Char.ofNat b.toNat
  b < 128 && (c.isAlphanum || c == '_' || c == '.' || c == '-' || c == '~' || c == '/')

def escapeByte (b : UInt8) : Text :=
  if isSafeByte b then [Char.ofNat b.toNat]
  else '%' :: (Text.hex 2 b.toNat).map Char.toUpper

/-- The address of the file whose absolute path has the given bytes, which need not encode a text. -/
def ofBytes (path : Bytes) : Text := "file://" ++ path.flatMap escapeByte

def ofPath (p : Text) : Text := ofBytes (Utf8.encode (Path.absolute p))

/-- The bytes of an ASCII text in which escapes are resolved; what is no escape stays. -/
def unescapeBytes : Text → Bytes
  | [] => []
  | '%' :: a :: b :: rest =>
    match hexDigit? a, hexDigit? b with
    | some x, some y => (x * 16 + y).toUInt8 :: unescapeBytes rest
    | _, _ => '%'.toNat.toUInt8 :: unescapeBytes (a :: b :: rest)
  | c :: rest => c.toNat.toUInt8 :: unescapeBytes rest

/-- Resolves escapes, each run of ASCII characters by itself; `run` is the current one, in reverse. -/
def unescapeFrom (run : Text) : Text → Text
  | [] => Utf8.decode (unescapeBytes run.reverse)
  | c :: rest =>
    if c.toNat < 128 then unescapeFrom (c :: run) rest
    else Utf8.decode (unescapeBytes run.reverse) ++ c :: unescapeFrom [] rest

def unescape (t : Text) : Text :=
  unescapeFrom [] t

/-! ## Hosts -/

def isIpv4 (t : Text) : Bool :=
  let numbers := splitAtChar '.' t
  numbers.length == 4 && numbers.all fun n =>
    !n.isEmpty && n.length ≤ 3 && n.all Char.isDigit && (n.length == 1 || n.head? != some '0')
      && digitsValue n < 256

def isHexGroup (t : Text) : Bool :=
  !t.isEmpty && t.length ≤ 4 && t.all fun c => (hexDigit? c).isSome

/-- Eight groups of digits in base sixteen, of which one run may be left out and the last two may be four numbers. -/
def isIpv6 (t : Text) : Bool :=
  let (address, zone) := (t.takeWhile (· != '%'), t.dropWhile (· != '%'))
  let zoneOk := zone.isEmpty || (zone.length > 1 && !(zone.drop 1).contains '%')
  let written := splitAtChar ':' address
  let lastPart := written.getLastD []
  let hasNumbers := lastPart.contains '.'
  let groups := if hasNumbers then written.dropLast ++ [['0'], ['0']] else written
  let inner := (groups.drop 1).dropLast
  let gaps := inner.filter List.isEmpty
  let okGroup (g : Text) := g.isEmpty || isHexGroup g
  zoneOk && written.length ≥ 3 && (!hasNumbers || isIpv4 lastPart) && groups.length ≤ 9
    && groups.all okGroup && gaps.length ≤ 1 &&
    if gaps.isEmpty then
      groups.length == 8 && groups.head? != some [] && groups.getLast? != some []
    else
      let before := inner.takeWhile (!·.isEmpty)
      let after := inner.drop (before.length + 1)
      let leadOk := groups.head? != some [] || before.isEmpty
      let tailOk := groups.getLast? != some [] || after.isEmpty
      let count := (groups.filter (!·.isEmpty)).length
      leadOk && tailOk && count < 8

def isFutureAddress (t : Text) : Bool :=
  match t with
  | 'v' :: rest =>
    let version := rest.takeWhile fun c => (hexDigit? c).isSome
    let tail := rest.drop version.length
    !version.isEmpty && tail.head? == some '.' && tail.length > 1 && !(tail.drop 1).contains '\n'
  | _ => false

/-- The characters that stand for a delimiter of addresses in another width or composition. -/
def disguisedDelimiters : List Nat :=
  [0x2047, 0x2048, 0x2049, 0x2100, 0x2101, 0x2105, 0x2106, 0x2a74, 0xfe13, 0xfe16, 0xfe55, 0xfe56,
    0xfe5f, 0xfe6b, 0xff03, 0xff0f, 0xff1a, 0xff1f, 0xff20]

/-- The host without user and port; around a name in brackets nothing else may stand. -/
def hostName (host : Text) : Except UriError Text :=
  let machine := (splitAtChar '@' host).getLastD []
  let before := machine.takeWhile (· != '[')
  if before.length = machine.length then .ok (machine.takeWhile (· != ':'))
  else
    let bracketed := machine.drop (before.length + 1)
    let name := bracketed.takeWhile (· != ']')
    let number := bracketed.drop (name.length + 1)
    if before.isEmpty && (number.isEmpty || number.head? == some ':') then .ok name
    else .error .unbalancedHost

def checkBrackets (host : Text) : Except UriError Unit :=
  let opens := host.contains '['
  let closes := host.contains ']'
  if opens != closes then .error .unbalancedHost
  else if !opens then .ok ()
  else do
    let name ← hostName host
    if name.head? == some 'v' then
      if isFutureAddress name then .ok () else .error .badFutureAddress
    else if isIpv4 name then .error .bracketedIpv4
    else if isIpv6 name then .ok ()
    else .error (.badAddress name)

def checkDelimiters (host : Text) : Except UriError Unit :=
  if host.any fun c => disguisedDelimiters.contains c.toNat then .error (.hostDelimiters host)
  else .ok ()

/-! ## Splitting -/

def isSchemeChar (c : Char) : Bool :=
  c.isAlphanum || c == '+' || c == '-' || c == '.'

/-- The scheme of an address, in lower case, and what follows its colon. -/
def splitScheme (t : Text) : Text × Text :=
  let scheme := t.takeWhile (· != ':')
  if scheme.length < t.length && (t.head?.any Char.isAlpha) && scheme.all isSchemeChar then
    (scheme.map Char.toLower, t.drop (scheme.length + 1))
  else ([], t)

def splitHost (t : Text) : Text × Text :=
  match t with
  | '/' :: '/' :: rest =>
    let host := rest.takeWhile fun c => c != '/' && c != '?' && c != '#'
    (host, rest.drop host.length)
  | _ => ([], t)

def schemeAndPath (uri : Text) : Except UriError (Text × Text) := do
  let t := (uri.dropWhile fun c => c.toNat ≤ 32).filter fun c => c != '\t' && c != '\r' && c != '\n'
  let (scheme, rest) := splitScheme t
  let (host, rest) := splitHost rest
  checkBrackets host
  checkDelimiters host
  let path := (rest.takeWhile (· != '#')).takeWhile (· != '?')
  return (scheme, path)

/-- The path of the file with the given address; an address of any other kind stays as it is. -/
def toPath (uri : Text) : Outcome Text :=
  match schemeAndPath uri with
  | .error e => .error (.uri e)
  | .ok (scheme, path) => .ok (if scheme == "file" then unescape path else uri)

end CppScaffold.Uri
