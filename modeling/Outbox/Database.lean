import Outbox.Config
import Outbox.Text.Decimal

/-! What can be said of a database without talking to its server: whether its URL can be used, and
that a closed pool gives no connection. -/
namespace Outbox

inductive DatabaseFault
  | closedPool
  /-- The URL does not start with a scheme. -/
  | relativeUrl
  | invalidPort
  deriving DecidableEq, Repr

namespace DatabaseFault

def message : DatabaseFault → String
  | closedPool => "attempted to acquire a connection on a closed pool"
  | relativeUrl => "error with configuration: relative URL without a base"
  | invalidPort => "error with configuration: invalid port number"

def toError (f : DatabaseFault) : ServiceError := .database f.message

end DatabaseFault

/-- A database behind a pool of connections, which has been closed or not, and the channel on which
it announces commits. -/
structure Database where
  channel : String := Config.defaultChannel
  isClosed : Bool := false
  deriving DecidableEq, Repr

namespace Database

def closed (channel : String) : Database := ⟨channel, true⟩

/-- Why the pool gives no connection, if it gives none. -/
def acquire (d : Database) : Except DatabaseFault Unit :=
  if d.isClosed then .error .closedPool else .ok ()

def begin (d : Database) : Except Error Unit :=
  d.acquire.mapError fun f => .persistence f.message

def listen (d : Database) : Except Error Unit :=
  d.acquire.mapError fun f => .notification s!"failed to connect listener: {f.message}"

def migrate (d : Database) : Except ServiceError Unit := d.acquire.mapError DatabaseFault.toError

def isSchemeChar (c : Char) : Bool := c.isAlphanum || c == '+' || c == '-' || c == '.'

def isMargin (c : Char) : Bool := c.toNat ≤ 0x20

def isBreak (c : Char) : Bool := c == '\t' || c == '\n' || c == '\r'

def cleanUrl (cs : List Char) : List Char :=
  ((cs.dropWhile isMargin).reverse.dropWhile isMargin).reverse.filter (!isBreak ·)

/-- The scheme of a URL in lower case, and what follows its colon. -/
def scheme? (cs : List Char) : Option (String × List Char) :=
  match cs with
  | [] => none
  | c :: _ =>
    if c.isAlpha then
      match cs.dropWhile isSchemeChar with
      | ':' :: rest =>
        some (String.ofList ((cs.takeWhile isSchemeChar).map Char.toLower), rest)
      | _ => none
    else none

inductive SchemeKind
  /-- With a host after any number of slashes; backslashes count as slashes. -/
  | web
  | file
  /-- With a host, if there are two slashes. -/
  | other
  deriving DecidableEq, Repr

def SchemeKind.ofName (scheme : String) : SchemeKind :=
  if ["http", "https", "ws", "wss", "ftp"].contains scheme then web
  else if scheme = "file" then file
  else other

def SchemeKind.isSlash (k : SchemeKind) (c : Char) : Bool := c == '/' || (k == web && c == '\\')

def authority (k : SchemeKind) (cs : List Char) : List Char :=
  let untilEnd (cs : List Char) : List Char :=
    cs.takeWhile fun c => !(k.isSlash c || c == '?' || c == '#')
  match k, cs with
  | .web, cs => untilEnd (cs.dropWhile k.isSlash)
  | .other, '/' :: '/' :: rest => untilEnd rest
  | _, _ => []

def afterUser (cs : List Char) : List Char :=
  (cs.reverse.takeWhile (· != '@')).reverse

/-- What follows the host: nothing, or a colon and its number. Brackets in a host may hold colons;
the first argument says whether one is open. -/
def afterHost : Bool → List Char → List Char
  | _, [] => []
  | inBrackets, c :: cs =>
    if c == ':' && !inBrackets then c :: cs
    else afterHost (c == '[' || (inBrackets && c != ']')) cs

/-- Whether the number of a host may be written so: not at all, or as one below `2 ^ 16`. -/
def isHostNumber (cs : List Char) : Bool :=
  cs.all Char.isDigit && Nat.ofDigitChars 10 cs 0 < Nat.pow 2 16

/-- The number of a host; a backslash ends it. -/
def hostNumber (k : SchemeKind) (cs : List Char) : List Char :=
  ((afterHost false (afterUser (authority k cs))).drop 1).takeWhile (· != '\\')

def checkUrl (url : String) : Except DatabaseFault Unit :=
  match scheme? (cleanUrl url.toList) with
  | none => .error .relativeUrl
  | some (scheme, rest) =>
    if isHostNumber (hostNumber (.ofName scheme) rest) then .ok () else .error .invalidPort

def connect (c : Config) : Except ServiceError Unit :=
  (checkUrl c.databaseUrl).mapError DatabaseFault.toError

end Database
end Outbox
