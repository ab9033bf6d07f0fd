import Outbox.Double.Signed
import Outbox.Text.Alphanumeric
import Outbox.Text.Blank
import Outbox.Text.Decimal
import Outbox.Text.Pattern

/-! Directives on what is shown of the report: from which level on, for entries of a target, within
a span, where a field is of a value, or for all entries. -/
namespace Outbox

inductive Threshold
  | off
  | error
  | warn
  | info
  | debug
  | trace
  deriving DecidableEq, Repr

namespace Threshold

def name : Threshold → String
  | off => "off"
  | error => "error"
  | warn => "warn"
  | info => "info"
  | debug => "debug"
  | trace => "trace"

/-- All thresholds; the place of each is its number. -/
def all : List Threshold := [off, error, warn, info, debug, trace]

def read? (cs : List Char) : Option Threshold :=
  match Text.readInteger .unsigned64 cs with
  | .ok n => all[n.toNat]?
  | .error _ => all.find? fun t => t.name.toList == cs.map Char.toLower

theorem read?_name (t : Threshold) : read? t.name.toList = some t := by cases t <;> decide

end Threshold

inductive WantedValue
  | truth (b : Bool)
  | real (x : SignedDouble)
  | unsigned (n : Int)
  | signed (i : Int)
  | pattern (s : String)
  deriving DecidableEq, Repr

namespace WantedValue

/-- Reads a value as the first kind that it can be; what is nothing else has to be a pattern. -/
def read? (cs : List Char) : Option WantedValue :=
  if cs = "true".toList then some (truth true)
  else if cs = "false".toList then some (truth false)
  else
    match Text.readInteger .unsigned64 cs, Text.readInteger .signed64 cs, SignedDouble.read? cs with
    | .ok n, _, _ => some (unsigned n)
    | _, .ok i, _ => some (signed i)
    | _, _, some x => some (real x)
    | _, _, none => if Text.isPattern cs then some (pattern (String.ofList cs)) else none

def text : WantedValue → String
  | truth b => if b then "true" else "false"
  | real x => x.text
  | unsigned n => String.ofList (Text.decimal n)
  | signed i => String.ofList (Text.decimal i)
  | pattern s => s

def rank : WantedValue → Nat
  | truth _ => 0
  | real .undefined => 2
  | real _ => 1
  | unsigned _ => 3
  | signed _ => 4
  | pattern _ => 5

def key : WantedValue → Int
  | truth b => if b then 1 else 0
  | real x => x.key
  | unsigned n => n
  | signed i => i
  | pattern _ => 0

def letters : WantedValue → String
  | pattern s => s
  | _ => ""

instance : Ord WantedValue where
  compare v w :=
    ((compare v.rank w.rank).then (compare v.key w.key)).then (compare v.letters w.letters)

end WantedValue

/-- A field that an entry or a span is wanted to have, with any value or a certain one. -/
structure WantedField where
  name : String
  value : Option WantedValue
  deriving DecidableEq, Repr

namespace WantedField

def read? (cs : List Char) : Option WantedField :=
  match cs.splitOn '=' with
  | name :: value :: _ => (WantedValue.read? value).map fun v => ⟨String.ofList name, some v⟩
  | _ => some ⟨String.ofList cs, none⟩

def text (f : WantedField) : String :=
  match f.value with
  | none => f.name
  | some v => s!"{f.name}={v.text}"

instance : Ord WantedField where
  compare f g :=
    ((compare f.value.isSome g.value.isSome).then (compare f.name g.name)).then
      (compare f.value g.value)

end WantedField

/-- From which level on entries are shown: those of a target, within a span, with a field, as far as
these are given. -/
structure Directive where
  target : Option String
  span : Option String := none
  field : Option WantedField := none
  threshold : Threshold
  deriving DecidableEq, Repr

namespace Directive

def text (d : Directive) : String :=
  let context := if d.span.isNone && d.field.isNone then ""
    else
      let field := (d.field.map fun f => "\x7b" ++ f.text ++ "\x7d").getD ""
      "[" ++ d.span.getD "" ++ field ++ "]"
  let subject := d.target.getD "" ++ context
  if d.target.isNone && context.isEmpty then d.threshold.name
  else subject ++ "=" ++ d.threshold.name

def startsWith (c : Char) : Bool := c == '-' || c == ':' || c == '_' || Text.isAlphanumeric c

/-- A directive of one word: a threshold for all entries, or a target to be shown entirely. -/
def ofWord (cs : List Char) : Directive :=
  match Threshold.read? cs with
  | some threshold => { target := none, threshold }
  | none => { target := some (String.ofList cs), threshold := .trace }

/-- What follows so many bytes of a text, where a character ends there. -/
def dropBytes? : Nat → List Char → Option (List Char)
  | 0, cs => some cs
  | _ + 1, [] => none
  | n + 1, c :: cs => if c.utf8Size ≤ n + 1 then dropBytes? (n + 1 - c.utf8Size) cs else none

def cut? (cs : List Char) (start stop : Nat) : Option (List Char) := do
  let fromStart ← dropBytes? start cs
  let rest ← dropBytes? stop cs
  return fromStart.take (fromStart.length - rest.length)

def size (cs : List Char) : Nat := (cs.map Char.utf8Size).foldr (· + ·) 0

/-- Reads the threshold from a place on; none at all means all entries. -/
def threshold? (cs : List Char) (place : Nat) : Option Threshold := do
  match ← dropBytes? place cs with
  | [] => return .trace
  | level => Threshold.read? level

/-- Reads the threshold after an equals sign, if there is one; `rest` follows the place. -/
def withThreshold? (cs : List Char) (d : Directive) (place : Nat) (rest : List Char) :
    Option Directive :=
  match rest with
  | [] => some { d with threshold := .trace }
  | '=' :: _ => (threshold? cs (place + 1)).map fun threshold => { d with threshold }
  | _ => none

/-- Reads a field, its brackets and what follows them; `rest` follows the place. -/
def withField? (cs : List Char) (d : Directive) (place : Nat) (rest : List Char) :
    Option Directive := do
  let inner := rest.takeWhile (· != '\x7d')
  match rest.drop inner.length with
  | '\x7d' :: ']' :: rest =>
    let stop := place + size inner
    let written ← cut? cs place stop
    if written.isEmpty then none
    else withThreshold? cs { d with field := some (← WantedField.read? written) } (stop + 2) rest
  | _ => none

/-- Reads the span, a field, the bracket and what follows it; `rest` follows the place. -/
def withSpan? (cs : List Char) (d : Directive) (place : Nat) (rest : List Char) :
    Option Directive := do
  let inner := rest.takeWhile fun c => c != ']' && c != '\x7b'
  let stop := place + size inner
  let written ← cut? cs place stop
  match rest.drop inner.length with
  | ']' :: rest =>
    withThreshold? cs { d with span := some (String.ofList written) } (stop + 1) rest
  | '\x7b' :: rest =>
    let span := if written.isEmpty then none else some (String.ofList written)
    withField? cs { d with span } (stop + 1) rest
  | _ => none

/-- Reads a directive. Where its marks are, is counted without the blanks at both ends, but its
parts are cut from the whole text; one without marks is a word, which is the whole text. -/
def read? (cs : List Char) : Option Directive :=
  match Text.trim cs with
  | [] => none
  | '[' :: rest => withSpan? cs { target := none, threshold := .trace } 1 rest
  | c :: rest =>
    if startsWith c then do
      let subject := (c :: rest).takeWhile fun c => c != '=' && c != '['
      let place := size subject
      match (c :: rest).drop subject.length with
      | [] => return ofWord cs
      | mark :: rest =>
        let target ← cut? cs 0 place
        let d : Directive := { target := some (String.ofList target), threshold := .trace }
        if mark = '[' then withSpan? cs d (place + 1) rest
        else withThreshold? cs d place (mark :: rest)
    else none

/-- The greater a directive is, the more it wants of an entry: first a target, a long one above all,
then a span, then a field. -/
instance : Ord Directive where
  compare d e :=
    [compare (d.target.map String.utf8ByteSize) (e.target.map String.utf8ByteSize),
      compare d.span.isSome e.span.isSome, compare d.field.isSome e.field.isSome,
      compare d.target e.target, compare d.span e.span, compare d.field e.field].foldl
      Ordering.then .eq

/-- Whether a directive looks beyond the target of an entry. -/
def isContextual (d : Directive) : Bool := d.span.isSome || d.field.isSome

/-- Whether a directive can be about an entry outside of all spans: it asks for no span and for no
value of a field. -/
def isGeneral (d : Directive) : Bool :=
  d.span.isNone && (d.field.all fun f => f.value.isNone)

end Directive
end Outbox
