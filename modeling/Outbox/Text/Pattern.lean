import Outbox.Text.Alphabetic
import Outbox.Text.Blank
import Outbox.Text.Hexadecimal
import Outbox.Text.Pattern.Nesting
import Outbox.Text.Pattern.Settings

/-! Which texts are patterns: regular expressions without counted repetition and without what tables
of characters would be needed for. A text is gone through once, character by character, with a look
at what follows. -/
namespace Outbox.Text
namespace Pattern

inductive Mode
  /-- A part outside of sets. -/
  | outside
  /-- The same, or that a repetition takes as few as it can. -/
  | repeated
  /-- What follows the opening of a group. -/
  | opened
  /-- What follows the question mark after the opening of a group. -/
  | header
  /-- The mark of a name after that. -/
  | naming
  /-- The name of a group, of which these letters were read, the last first. -/
  | name (letters : List Char)
  /-- Flags, of which these were read, the last first. -/
  | flags (written : List Char)
  /-- What follows a backslash. -/
  | escape
  /-- The digits of the number of a character or a byte, of which so many are missing, and the value
  of the others. -/
  | number (isByte : Bool) (missing value : Nat)
  /-- What follows the opening of a set, with a caret or without. -/
  | setOpened (isNegated : Bool)
  /-- What follows minus signs at the front of a set. -/
  | dashes
  /-- Something in a set. -/
  | inside
  /-- The same, or a minus sign after a character, which is the first of a range then; no range can
  start with a class. -/
  | item (first : Option Char)
  /-- The last character of a range. -/
  | range
  /-- The second character of an operator. -/
  | operator
  /-- The name of a class in a set, up to its bracket. -/
  | named
  deriving DecidableEq, Repr

def Mode.allowsBlanks : Mode → Bool
  | outside | repeated | opened | number .. | setOpened _ | dashes | inside | item _ | range => true
  | header | naming | name _ | flags _ | escape | operator | named => false

/-- The pattern as a whole or a group that is open: what was read since the last bar, the last
first, and the heights of what was read between the bars before. -/
structure Level where
  settings : Settings := {}
  parts : List Part := []
  branches : List Nat := []
  deriving DecidableEq, Repr

namespace Level

def add (l : Level) (p : Part) : Level := { l with parts := p :: l.parts }

def branchHeight (l : Level) : Nat := heightOf (l.parts.map (·.height))

def branch (l : Level) : Level :=
  { l with parts := [], branches := l.branchHeight :: l.branches }

def height (l : Level) : Nat :=
  if l.branches.isEmpty then l.branchHeight else heightAround (l.branchHeight :: l.branches)

def repeatLast? (l : Level) : Option Level :=
  match l.parts with
  | p :: ps =>
    if p.isRepeatable then
      some { l with parts := { p with height := heightAround [p.height] } :: ps }
    else none
  | [] => none

end Level

structure State where
  level : Level := {}
  /-- The levels around that, the innermost first. -/
  outer : List Level := []
  names : List (List Char) := []
  /-- The sets that are open, the innermost first. -/
  sets : List OpenSet := []
  /-- The first character of a range whose last is to come. -/
  low : Option Char := none
  mode : Mode := .outside
  isComment : Bool := false
  deriving DecidableEq, Repr

/-- What the letters after a backslash stand for. -/
def controls : List (Char × Char) :=
  [('a', '\x07'), ('f', '\x0c'), ('t', '\t'), ('n', '\n'), ('r', '\r'), ('v', '\x0b')]

def classNames : List String :=
  ["alnum", "alpha", "ascii", "blank", "cntrl", "digit", "graph", "lower", "print", "punct",
    "space", "upper", "word", "xdigit"]

/-- Whether the name of a class follows a bracket in a set, between colons and before a bracket; if
so, whether the class of all other characters is meant. -/
def namedClass? (rest : List Char) : Option Bool :=
  match rest with
  | ':' :: rest =>
    let isNegated := rest.head? == some '^'
    let rest := if isNegated then rest.drop 1 else rest
    let name := rest.takeWhile (· != ':')
    if classNames.contains (String.ofList name) &&
        (rest.drop name.length).take 2 == [':', ']'] then some isNegated
    else none
  | _ => none

/-- What stands after blanks; the first number sign counts as one of them. -/
def afterBlanks : Bool → List Char → Option Char
  | _, [] => none
  | seen, c :: cs =>
    if isBlank c then afterBlanks seen cs
    else if c = '#' ∧ !seen then afterBlanks true cs
    else some c

def isOperator (c : Char) : Bool := c == '&' || c == '-' || c == '~'

def isNameStart (c : Char) : Bool := c == '_' || isAlphabetic c

def isNamePart (c : Char) : Bool := "_.[]".toList.contains c || isAlphanumeric c

namespace State

def settings (s : State) : Settings := s.level.settings

def addPart (s : State) (p : Part) : State := { s with level := s.level.add p, mode := .outside }

def addItem (s : State) (height : Nat) (mode : Mode) : State :=
  match s.sets with
  | [] => s
  | t :: ts => { s with sets := t.add height :: ts, mode }

def letter (s : State) (c : Char) (isByte : Bool) : Option State :=
  if s.sets.isEmpty then
    if s.settings.admitsLetters && (s.settings.isUnicode || !isByte || c.toNat < 0x80) then
      some (s.addPart {})
    else none
  else if s.settings.admitsInSet c then
    match s.low with
    | none => some (s.addItem 0 (.item (some c)))
    | some low => if low ≤ c then some { s with low := none, mode := .inside } else none
  else none

def boundary (s : State) : Option State := if s.sets.isEmpty then some (s.addPart {}) else none

def classLetter (s : State) : Option State :=
  if s.settings.isUnicode || s.low.isSome then none
  else some (if s.sets.isEmpty then s.addPart {} else s.addItem 0 (.item none))

def escaped (s : State) (c : Char) : Option State :=
  if c = 'x' then some { s with mode := .number true 2 0 }
  else if c = 'u' then some { s with mode := .number false 4 0 }
  else if c = 'U' then some { s with mode := .number false 8 0 }
  else if c = 'd' ∨ c = 's' ∨ c = 'w' then s.classLetter
  else if c = 'A' ∨ c = 'z' then s.boundary
  else if "bB<>".toList.contains c then if s.settings.isUnicode then none else s.boundary
  else
    match controls.lookup c with
    | some control => s.letter control false
    | none => if 0x80 ≤ c.toNat ∨ c.isAlphanum then none else s.letter c false

def digit (s : State) (isByte : Bool) (missing value : Nat) (c : Char) : Option State := do
  let value := 16 * value + (← hexValue? c)
  if 1 < missing then some { s with mode := .number isByte (missing - 1) value }
  else if value.isValidChar then s.letter (Char.ofNat value) isByte
  else none

def openSet (s : State) : State := { s with sets := {} :: s.sets, mode := .setOpened false }

def closeSet (s : State) : State :=
  match s.sets with
  | [] => s
  | [t] => { s with sets := [] }.addPart { height := heightAround [t.height] }
  | t :: ts => { s with sets := ts }.addItem (heightAround [t.height]) .inside

/-- The innermost group ends, if one is open. -/
def closeGroup? (s : State) : Option State :=
  match s.outer with
  | [] => none
  | l :: ls =>
    some ({ s with level := l, outer := ls }.addPart { height := heightAround [s.level.height] })

def openGroup (s : State) (settings : Settings) : State :=
  { s with level := { settings }, outer := s.level :: s.outer, mode := .outside }

def outside (s : State) (c : Char) : Option State :=
  if c = '(' then some { s with mode := .opened }
  else if c = ')' then s.closeGroup?
  else if c = '|' then some { s with level := s.level.branch, mode := .outside }
  else if c = '*' ∨ c = '+' ∨ c = '?' then
    s.level.repeatLast?.map fun level => { s with level, mode := .repeated }
  else if c = '\x7b' then none
  else if c = '[' then some s.openSet
  else if c = '\\' then some { s with mode := .escape }
  else if c = '^' ∨ c = '$' then s.boundary
  else if c = '.' then if s.settings.isUnicode then some (s.addPart {}) else none
  else s.letter c false

def single (s : State) (c : Char) : Option State :=
  if c = '\\' then some { s with mode := .escape } else s.letter c false

def inside (s : State) (c : Char) (rest : List Char) : Option State :=
  if c = ']' then some s.closeSet
  else if c = '[' then
    match namedClass? rest with
    | none => some s.openSet
    | some isNegated =>
      if s.settings.admitsClass isNegated then some (s.addItem 0 .named) else none
  else if isOperator c && rest.head? == some c then
    match s.sets with
    | [] => none
    | t :: ts => some { s with sets := t.operate :: ts, mode := .operator }
  else s.single c

def front (s : State) (c : Char) (mode : Mode) : Option State :=
  if s.settings.admitsInSet c then some (s.addItem 0 mode) else none

/-- Whether a minus sign before the rest is that of a range. -/
def startsRange (s : State) (rest : List Char) : Bool :=
  let next := if s.settings.isVerbose then afterBlanks false rest else rest.head?
  next != some ']' && next != some '-'

def flag (s : State) (written : List Char) (c : Char) : Option State :=
  let settings := s.settings.apply written.reverse
  if c = ':' then if written.head? = some '-' then none else some (s.openGroup settings)
  else if c = ')' then
    if written.isEmpty ∨ written.head? = some '-' then none
    else some ({ s with level := { s.level with settings } }.addPart { isRepeatable := false })
  else if (c = '-' ∨ Settings.flags.contains c) ∧ !written.contains c then
    some { s with mode := .flags (c :: written) }
  else none

/-- A character of the name of a group, or the end of it; no two groups have one name. -/
def nameLetter (s : State) (letters : List Char) (c : Char) : Option State :=
  if c = '>' then
    if letters.isEmpty ∨ s.names.contains letters then none
    else some ({ s with names := letters :: s.names }.openGroup s.settings)
  else if if letters.isEmpty then isNameStart c else isNamePart c then
    some { s with mode := .name (c :: letters) }
  else none

/-- Reads a character that is no blank, with a look at the rest. -/
def read (s : State) (c : Char) (rest : List Char) : Option State :=
  match s.mode with
  | .outside => s.outside c
  | .repeated => if c = '?' then some { s with mode := .outside } else s.outside c
  | .opened =>
    if c = '?' then some { s with mode := .header } else (s.openGroup s.settings).outside c
  | .header =>
    if c = 'P' then some { s with mode := .naming }
    else if c = '<' then some { s with mode := .name [] }
    else s.flag [] c
  | .naming => if c = '<' then some { s with mode := .name [] } else none
  | .name letters => s.nameLetter letters c
  | .flags written => s.flag written c
  | .escape => s.escaped c
  | .number isByte missing value => s.digit isByte missing value c
  | .setOpened isNegated =>
    if c = '^' && !isNegated then
      if s.settings.isUnicode then some { s with mode := .setOpened true } else none
    else if c = '-' then s.front c .dashes
    else if c = ']' then s.front c .inside
    else s.inside c rest
  | .dashes => if c = '-' then s.front c .dashes else s.inside c rest
  | .inside => s.inside c rest
  | .item first =>
    if c = '-' && s.startsRange rest then
      first.map fun low => { s with low := some low, mode := .range }
    else s.inside c rest
  | .range => s.single c
  | .operator => some { s with mode := .inside }
  | .named => some (if c = ']' then { s with mode := .inside } else s)

/-- Reads a character, with a look at the rest. -/
def step (s : State) (c : Char) (rest : List Char) : Option State :=
  if s.isComment then some { s with isComment := c != '\n' }
  else if s.settings.isVerbose && s.mode.allowsBlanks && (isBlank c || c == '#') then
    let mode := if s.mode = .repeated then .outside else s.mode
    some { s with mode, isComment := c == '#' }
  else s.read c rest

def isFinal (s : State) : Bool :=
  (s.mode == .outside || s.mode == .repeated) && s.outer.isEmpty && s.sets.isEmpty &&
    s.level.height ≤ deepest

def run (s : State) : List Char → Option State
  | [] => some s
  | c :: cs => (s.step c cs).bind fun s => run s cs

end State
end Pattern

def isPattern (cs : List Char) : Bool := ((Pattern.State.run {} cs).map (·.isFinal)).getD false

end Outbox.Text
