import Outbox.Overflow
import Outbox.User
import Outbox.World

/-! Users as the program counts: versions in 64 bits with a sign, sign-ins in 32 bits without. -/
namespace Outbox.Overflow

open Text.IntegerKind (signed64 unsigned32)

def apply (o : Overflow) (u : User) (e : Event UserEvent) : Except Halt User :=
  match e.payload with
  | .userAuthenticated device =>
    match o.add unsigned32 u.loginCount 1 with
    | none => .error .panic
    | some n => .ok { u with loginCount := n.toNat, lastDevice := some device }
  | _ => (u.apply e).mapError .error

/-- What becomes of an event or a snapshot that carries a wrong version: to tell of that, the right
one is counted. -/
def refusal (o : Overflow) (a : Aggregate User) (actual : Int) : Halt :=
  match o.add signed64 a.version 1 with
  | none => .panic
  | some expected => .error (.invalidVersion a.id expected actual)

def replay (o : Overflow) (a : Aggregate User) (e : EventOf User) :
    Except Halt (Aggregate User) :=
  if e.version ≤ a.version then .error (o.refusal a e.version)
  else
    match o.apply a.state e with
    | .error h => .error h
    | .ok state => .ok { a with state, version := e.version, baseVersion := e.version }

def restore (o : Overflow) (a : Aggregate User) (version : Int) (s : UserSnapshot) :
    Except Halt (Aggregate User) :=
  if version ≤ a.version then .error (o.refusal a version)
  else (a.restore version s).mapError .error

def advance (o : Overflow) (a : Aggregate User) (e : EventOf User) :
    Except Halt (Aggregate User) :=
  if o.add signed64 a.version 1 = some e.version then
    match o.apply a.state e with
    | .error h => .error h
    | .ok state => .ok { a with state, version := e.version, changes := a.changes ++ [e] }
  else .error (o.refusal a e.version)

def build (o : Overflow) (a : Aggregate User) (es : List (EventOf User)) :
    Aggregate User × Except Halt Unit :=
  a.feed o.replay es

def advanceAll (o : Overflow) (a : Aggregate User) (es : List (EventOf User)) :
    Aggregate User × Except Halt Unit :=
  a.feed o.advance es

def announce (o : Overflow) :
    Aggregate User → List (EventOf User) → Aggregate User × Except Halt (List (IntegrationOf User))
  | a, [] => (a, .ok [])
  | a, e :: es =>
    match o.advance a e with
    | .error h => (a, .error h)
    | .ok b =>
      match b.integrationEvent e.eventType with
      | .error x => (b, .error (.error x))
      | .ok i =>
        match announce o b es with
        | (c, .error h) => (c, .error h)
        | (c, .ok is) => (c, .ok (i :: is))

def publishEvents (o : Overflow) (peers : Peers User) (w : World User) (a : Aggregate User)
    (es : List (EventOf User)) : World User × Aggregate User × Except Halt Nat :=
  match o.announce a es with
  | (a, .error h) => (w, a, .error h)
  | (a, .ok []) => (w, a, .ok 0)
  | (a, .ok batch) =>
    match w.publish peers batch with
    | (.error x, w) => (w, a, .error (.error x))
    | (.ok (), w) => (w.say (.publishedEvents a.id batch.length), a, .ok batch.length)

end Outbox.Overflow
