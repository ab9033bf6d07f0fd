import Outbox.Aggregate

/-! Users: they register an address, confirm it, and sign in from devices. -/
namespace Outbox

inductive UserEvent
  | credentialsCreated (email : String)
  | emailConfirmed
  | userAuthenticated (device : String)
  deriving DecidableEq, Repr

structure UserSnapshot where
  email : Option String
  confirmed : Bool
  loginCount : Nat
  lastDevice : Option String
  deriving DecidableEq, Repr

structure UserProjection where
  id : Uuid
  version : Int
  email : Option String
  confirmed : Bool
  loginCount : Nat
  deriving DecidableEq

structure UserIntegration where
  email : String
  confirmed : Bool
  lastDevice : Option String
  deriving DecidableEq, Repr

structure User where
  email : Option String := none
  confirmed : Bool := false
  loginCount : Nat := 0
  lastDevice : Option String := none
  deriving DecidableEq, Repr

namespace UserEvent

def eventType : UserEvent → String
  | credentialsCreated _ => "user.credentials_created"
  | emailConfirmed => "user.email_confirmed"
  | userAuthenticated _ => "user.authenticated"

/-- The types of events that other systems are told of. -/
def isKnownType (t : String) : Bool :=
  t == "user.credentials_created" || t == "user.email_confirmed" || t == "user.authenticated"

theorem isKnownType_eventType (e : UserEvent) : isKnownType e.eventType = true := by
  cases e <;> rfl

end UserEvent

namespace User

def neverRegistered (id : Uuid) : Error :=
  .conversion s!"user {id} confirmed an email it never registered"

def unregistered (eventType : String) : Error :=
  .conversion s!"{eventType} has no integration form for an unregistered user"

def unknownType (eventType : String) : Error :=
  .conversion s!"unknown user event type {eventType}"

def apply (u : User) (e : Event UserEvent) : Except Error User :=
  match e.payload with
  | .credentialsCreated email => .ok { u with email := some email }
  | .emailConfirmed =>
    if u.email.isNone then .error (neverRegistered e.aggregateId)
    else .ok { u with confirmed := true }
  | .userAuthenticated device =>
    .ok { u with loginCount := u.loginCount + 1, lastDevice := some device }

def restore (_ : User) (s : UserSnapshot) : Except Error User :=
  .ok ⟨s.email, s.confirmed, s.loginCount, s.lastDevice⟩

def snapshot (u : User) : UserSnapshot := ⟨u.email, u.confirmed, u.loginCount, u.lastDevice⟩

@[simp] theorem restore_snapshot (u v : User) : u.restore v.snapshot = .ok v := rfl

def projection (u : User) (id : Uuid) (version : Int) : UserProjection :=
  ⟨id, version, u.email, u.confirmed, u.loginCount⟩

/-- What an event of a known type tells about a registered user. -/
def integration (u : User) (eventType : String) : Except Error UserIntegration :=
  if UserEvent.isKnownType eventType then
    match u.email with
    | some email => .ok ⟨email, u.confirmed, u.lastDevice⟩
    | none => .error (unregistered eventType)
  else .error (unknownType eventType)

instance : Model User where
  Payload := UserEvent
  Snapshot := UserSnapshot
  Projection := UserProjection
  Integration := UserIntegration
  initial := {}
  eventType := UserEvent.eventType
  apply := apply
  restore := restore
  snapshot := snapshot
  projection := projection
  integration := integration

/-- Users are due for a snapshot every so many versions. -/
def snapshotCap : Int := 5

def new (id : Uuid) : Aggregate User := Aggregate.new id snapshotCap

/-- The wish to sign up: an address, confirmed at once. -/
def signUp (email : String) : Command UserEvent :=
  Command.ofPayloads User "user.sign_up" [.credentialsCreated email, .emailConfirmed]

def signIn (device : String) : Command UserEvent :=
  Command.ofPayloads User "user.sign_in" [.userAuthenticated device]

def fixedTime : Timestamp := ⟨⟨2026, 1, 15⟩, ⟨10, 0, 0, 0⟩, by decide, by decide⟩

def fixture (aggregateId transactionId : Uuid) (version : Int) (payload : UserEvent) :
    Event UserEvent :=
  { aggregateId, transactionId, commandType := "user.fixture", version,
    eventType := payload.eventType, payload, createdAt := fixedTime }

end User
end Outbox
