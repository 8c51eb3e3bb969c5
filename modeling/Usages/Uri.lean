/-
Uniform resource identifiers, as far as files need them. An identifier keeps its text; what
matters besides is its path, in which an escape `%XX` stands for a byte. Relative references count
as identifiers.
-/
import Usages.Path
import Usages.Text.Utf8

namespace Usages

structure Uri where
  text : String
  /-- The path as it is written. -/
  path : String
  deriving Repr, DecidableEq

namespace Uri

def isUnreserved (c : Char) : Bool :=
  c.isAlphanum || ['-', '.', '_', '~'].contains c

def isSubDelimiter (c : Char) : Bool :=
  ['!', '$', '&', '\x27', '(', ')', '*', '+', ',', ';', '='].contains c

def hexValue? (c : Char) : Option Nat :=
  if '0' ≤ c ∧ c ≤ '9' then some (c.toNat - '0'.toNat)
  else if 'a' ≤ c ∧ c ≤ 'f' then some (c.toNat - 'a'.toNat + 10)
  else if 'A' ≤ c ∧ c ≤ 'F' then some (c.toNat - 'A'.toNat + 10)
  else none

/-- The text is made of escapes and of characters that satisfy `p`. -/
def isMadeOf (p : Char → Bool) : List Char → Bool
  | [] => true
  | '%' :: a :: b :: rest => (hexValue? a).isSome && (hexValue? b).isSome && isMadeOf p rest
  | c :: rest => p c && isMadeOf p rest

def isNameChar (c : Char) : Bool :=
  isUnreserved c || isSubDelimiter c

def isPathChar (c : Char) : Bool :=
  isNameChar c || c == ':' || c == '@' || c == '/'

def isQueryChar (c : Char) : Bool :=
  isPathChar c || c == '?'

/-- The text before the first `c`, and the text behind it if there is one. -/
def cutAt (c : Char) (text : List Char) : List Char × Option (List Char) :=
  match text.dropWhile (· != c) with
  | [] => (text, none)
  | _ :: rest => (text.takeWhile (· != c), some rest)

def isScheme : List Char → Bool
  | [] => false
  | c :: rest => c.isAlpha && rest.all fun d => d.isAlphanum || ['+', '-', '.'].contains d

/-- A number from 0 to 255 without zeros in front. -/
def isByte (text : List Char) : Bool :=
  !text.isEmpty && text.length ≤ 3 && text.all Char.isDigit &&
    (text.head? != some '0' || text.length == 1) &&
    text.foldl (fun value c => value * 10 + (c.toNat - '0'.toNat)) 0 ≤ 255

/-- The pieces of a text between the separators. -/
def splitAt (separator : Char) : List Char → List (List Char)
  | [] => [[]]
  | c :: rest =>
    if c = separator then [] :: splitAt separator rest
    else
      match splitAt separator rest with
      | [] => [[c]]
      | piece :: others => (c :: piece) :: others

def isIpv4 (text : List Char) : Bool :=
  let pieces := splitAt '.' text
  pieces.length == 4 && pieces.all isByte

/-- One to four hexadecimal digits. -/
def isGroup (text : List Char) : Bool :=
  !text.isEmpty && text.length ≤ 4 && text.all fun c => (hexValue? c).isSome

/-- How many groups of sixteen bits the text has, if it is a list of them. At the end four bytes
may stand for two groups. -/
def groupCount? (allowIpv4 : Bool) (text : List Char) : Option Nat :=
  if text.isEmpty then some 0
  else
    let pieces := splitAt ':' text
    if pieces.all isGroup then some pieces.length
    else if allowIpv4 && pieces.dropLast.all isGroup && pieces.getLast?.any isIpv4 then
      some (pieces.length + 1)
    else none

/-- The text before and behind the first two colons in a row. -/
def cutAtDoubleColon : List Char → Option (List Char × List Char)
  | ':' :: ':' :: rest => some ([], rest)
  | c :: rest => (cutAtDoubleColon rest).map fun (before, after) => (c :: before, after)
  | [] => none

def isIpv6 (text : List Char) : Bool :=
  match cutAtDoubleColon text with
  | none => groupCount? true text == some 8
  | some (before, after) =>
    match groupCount? false before, groupCount? true after with
    | some m, some n => m + n ≤ 7
    | _, _ => false

/-- An address of a later version. -/
def isFutureAddress : List Char → Bool
  | v :: rest =>
    let (version, address) := cutAt '.' rest
    (v == 'v' || v == 'V') && !version.isEmpty && version.all (fun c => (hexValue? c).isSome) &&
      address.any fun address => !address.isEmpty && address.all fun c => isNameChar c || c == ':'
  | [] => false

/-- What may stand behind a host. -/
def isPort : List Char → Bool
  | [] => true
  | ':' :: digits => digits.all Char.isDigit
  | _ => false

/-- A host with an optional port. -/
def isHost (text : List Char) : Bool :=
  match text with
  | '[' :: rest =>
    match cutAt ']' rest with
    | (address, some port) => (isIpv6 address || isFutureAddress address) && isPort port
    | (_, none) => false
  | _ =>
    isMadeOf isNameChar (text.takeWhile (· != ':')) && isPort (text.dropWhile (· != ':'))

/-- Who and where, between two slashes and the path. -/
def isAuthority (text : List Char) : Bool :=
  match cutAt '@' text with
  | (user, some host) => isMadeOf (fun c => isNameChar c || c == ':') user && isHost host
  | (host, none) => isHost host

/-- The path of a text without query and fragment, if the text is well-formed. -/
def pathOf? (text : List Char) : Option (List Char) := do
  let first := text.takeWhile (· != '/')
  let rest ←
    if first.contains ':' then
      if isScheme (first.takeWhile (· != ':')) then
        some (text.drop ((first.takeWhile (· != ':')).length + 1))
      else none
    else some text
  let path ←
    match rest with
    | '/' :: '/' :: rest =>
      if isAuthority (rest.takeWhile (· != '/')) then some (rest.dropWhile (· != '/')) else none
    | rest => some rest
  if isMadeOf isPathChar path then some path else none

/-- Read an identifier. -/
def parse? (text : String) : Option Uri := do
  let (rest, fragment) := cutAt '#' text.toList
  let (rest, query) := cutAt '?' rest
  let path ← pathOf? rest
  if fragment.all (isMadeOf isQueryChar) && query.all (isMadeOf isQueryChar) then
    some ⟨text, String.ofList path⟩
  else none

/-- The bytes of a text with escapes. -/
def bytes : List Char → List Nat
  | [] => []
  | '%' :: a :: b :: rest =>
    match hexValue? a, hexValue? b with
    | some high, some low => (high * 16 + low) :: bytes rest
    | _, _ => Text.utf8Bytes '%' ++ bytes (a :: b :: rest)
  | c :: rest => Text.utf8Bytes c ++ bytes rest

/-- The file an identifier names; an empty path names none. -/
def file? (uri : Uri) : Option String :=
  match Text.decodeLossy (bytes uri.path.toList) with
  | [] => none
  | path => some (String.ofList path)

def upperHex (n : Nat) : Char :=
  "0123456789ABCDEF".toList.getD n '0'

/-- A character of a path: letters, digits, some marks and the slash as they are, all others byte
by byte. -/
def escape (c : Char) : List Char :=
  if isUnreserved c || c == '/' then [c]
  else (Text.utf8Bytes c).flatMap fun byte => ['%', upperHex (byte / 16), upperHex (byte % 16)]

/-- The identifier of a file with an absolute path. -/
def ofAbsolutePath (path : String) : Uri :=
  let escaped := String.ofList (path.toList.flatMap escape)
  ⟨"file://" ++ escaped, escaped⟩

end Uri

end Usages
