import Outbox.Command

/-! Aggregates in memory. The version counts every event applied; the base version is the one last
loaded from the store, so the changes lie between the two. -/
namespace Outbox

/-- An aggregate; every `cap` versions it is due for a snapshot, if `cap` is positive. -/
structure Aggregate (σ : Type) [Model σ] where
  id : Uuid
  cap : Int
  version : Int := 0
  baseVersion : Int := 0
  changes : List (EventOf σ) := []
  state : σ := Model.initial

namespace Aggregate
variable {σ : Type} [Model σ]

def new (id : Uuid) (cap : Int) : Aggregate σ := { id, cap }

def invalidVersion (a : Aggregate σ) (actual : Int) : Error :=
  .invalidVersion a.id (a.version + 1) actual

/-- Takes a stored event over, which must be newer than what is there. -/
def replay (a : Aggregate σ) (e : EventOf σ) : Except Error (Aggregate σ) :=
  if e.version ≤ a.version then .error (a.invalidVersion e.version)
  else
    match Model.apply a.state e with
    | .error x => .error x
    | .ok state => .ok { a with state, version := e.version, baseVersion := e.version }

/-- Takes a snapshot over, which must be newer than what is there. -/
def restore (a : Aggregate σ) (version : Int) (s : Model.Snapshot σ) :
    Except Error (Aggregate σ) :=
  if version ≤ a.version then .error (a.invalidVersion version)
  else
    match Model.restore a.state s with
    | .error x => .error x
    | .ok state => .ok { a with state, version, baseVersion := version }

def resume (a : Aggregate σ) : Option (SnapshotOf σ) → Except Error (Aggregate σ)
  | none => .ok a
  | some s => a.restore s.version s.payload

/-- Lets a new event happen, which must carry the next version. -/
def advance (a : Aggregate σ) (e : EventOf σ) : Except Error (Aggregate σ) :=
  if e.version = a.version + 1 then
    match Model.apply a.state e with
    | .error x => .error x
    | .ok state => .ok { a with state, version := e.version, changes := a.changes ++ [e] }
  else .error (a.invalidVersion e.version)

/-- Lets events act one after another until one is refused; what was accepted before it stays. -/
def feed {ε : Type} (act : Aggregate σ → EventOf σ → Except ε (Aggregate σ)) :
    Aggregate σ → List (EventOf σ) → Aggregate σ × Except ε Unit
  | a, [] => (a, .ok ())
  | a, e :: es =>
    match act a e with
    | .error x => (a, .error x)
    | .ok b => feed act b es

def build (a : Aggregate σ) (es : List (EventOf σ)) : Aggregate σ × Except Error Unit :=
  feed replay a es

def advanceAll (a : Aggregate σ) (es : List (EventOf σ)) : Aggregate σ × Except Error Unit :=
  feed advance a es

/-- Whether a multiple of the cap lies between the base version and the version. -/
def snapshotDue (a : Aggregate σ) : Bool :=
  0 < a.cap && a.baseVersion.tdiv a.cap < a.version.tdiv a.cap

def snapshot (a : Aggregate σ) : Model.Snapshot σ := Model.snapshot a.state

def projection (a : Aggregate σ) : Model.Projection σ := Model.projection a.state a.id a.version

/-- What other systems are told of an event of a type that led here. -/
def integrationEvent (a : Aggregate σ) (eventType : String) : Except Error (IntegrationOf σ) :=
  match Model.integration a.state eventType with
  | .error x => .error x
  | .ok payload => .ok ⟨a.id, eventType, payload⟩

/-- Lets events happen and collects what other systems are told of each, right after it; the first
event that is refused or cannot be told ends it. -/
def announce : Aggregate σ → List (EventOf σ) → Aggregate σ × Except Error (List (IntegrationOf σ))
  | a, [] => (a, .ok [])
  | a, e :: es =>
    match a.advance e with
    | .error x => (a, .error x)
    | .ok b =>
      match b.integrationEvent e.eventType with
      | .error x => (b, .error x)
      | .ok i =>
        match announce b es with
        | (c, .error x) => (c, .error x)
        | (c, .ok is) => (c, .ok (i :: is))

end Aggregate
end Outbox
