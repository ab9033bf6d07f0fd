import Outbox.Environment
import Outbox.ServiceError
import Outbox.Text.Blank
import Outbox.Text.Quoted

/-! The settings of the relay service and the variables they are read from. -/
namespace Outbox

structure Config where
  databaseUrl : String
  /-- The channel on which commits are announced. -/
  channel : String
  /-- Every so many versions an aggregate is due for a snapshot. -/
  snapshotCap : Nat
  /-- For how many seconds a shutdown waits for the round on its way. -/
  shutdownSeconds : Nat
  maxConnections : Nat
  deriving DecidableEq, Repr

namespace Config

def defaultChannel : String := "es_transactions"
def defaultSnapshotCap : Nat := 50
def defaultShutdownSeconds : Nat := 5
def defaultMaxConnections : Nat := 10

def shutdownTimeout (c : Config) : Duration := .ofSeconds c.shutdownSeconds

inductive Variable
  | databaseUrl
  | channel
  | snapshotCap
  | shutdownSeconds
  | maxConnections
  deriving DecidableEq, Repr

def Variable.name : Variable → String
  | databaseUrl => "DATABASE_URL"
  | channel => "EVENTRELAY_NOTIFY_CHANNEL"
  | snapshotCap => "EVENTRELAY_SNAPSHOT_CAP"
  | shutdownSeconds => "EVENTRELAY_SHUTDOWN_TIMEOUT_SECS"
  | maxConnections => "EVENTRELAY_MAX_CONNECTIONS"

def Variable.all : List Variable :=
  [databaseUrl, channel, snapshotCap, shutdownSeconds, maxConnections]

inductive Fault
  | noDatabaseUrl
  /-- The value of a variable is no integer of the kind it has to be. -/
  | invalid (v : Variable) (value : String) (fault : Text.NumeralFault)
  | capNotPositive (cap : Int)
  | noConnections
  deriving DecidableEq, Repr

namespace Fault

def blames : Fault → Variable
  | noDatabaseUrl => .databaseUrl
  | invalid v .. => v
  | capNotPositive _ => .snapshotCap
  | noConnections => .maxConnections

def message : Fault → String
  | noDatabaseUrl => s!"{Variable.databaseUrl.name} must be set"
  | invalid v value fault => s!"{v.name} is invalid ({Text.quoted value}): {fault.message}"
  | capNotPositive cap => s!"{Variable.snapshotCap.name} must be positive, got {cap}"
  | noConnections => s!"{Variable.maxConnections.name} must be at least 1"

def toError (f : Fault) : ServiceError := .configuration f.message

end Fault

def nonBlank? (value : Option String) : Option String :=
  value.filter fun s => !Text.allBlank s.toList

/-- The integer in a variable, apart from blanks around it, or a default where there is none. -/
def integer (lookup : String → Option String) (v : Variable) (kind : Text.IntegerKind)
    (default : Nat) : Except Fault Int :=
  match lookup v.name with
  | none => .ok default
  | some value =>
    match Text.readInteger kind (Text.trim value.toList) with
    | .error fault => .error (.invalid v value fault)
    | .ok i => .ok i

/-- Reads the settings; the first variable at fault is told of. -/
def read (lookup : String → Option String) : Except Fault Config :=
  match nonBlank? (lookup Variable.databaseUrl.name) with
  | none => .error .noDatabaseUrl
  | some databaseUrl =>
    match integer lookup .snapshotCap .signed64 defaultSnapshotCap with
    | .error f => .error f
    | .ok cap =>
      if cap ≤ 0 then .error (.capNotPositive cap)
      else
        match integer lookup .shutdownSeconds .unsigned64 defaultShutdownSeconds with
        | .error f => .error f
        | .ok seconds =>
          match integer lookup .maxConnections .unsigned32 defaultMaxConnections with
          | .error f => .error f
          | .ok connections =>
            if connections = 0 then .error .noConnections
            else
              .ok {
                databaseUrl
                channel := (nonBlank? (lookup Variable.channel.name)).getD defaultChannel
                snapshotCap := cap.toNat
                shutdownSeconds := seconds.toNat
                maxConnections := connections.toNat }

def ofEnvironment (e : Environment) : Except Fault Config := read e.get?

def value (c : Config) : Variable → String
  | .databaseUrl => c.databaseUrl
  | .channel => c.channel
  | .snapshotCap => String.ofList (Text.decimal c.snapshotCap)
  | .shutdownSeconds => String.ofList (Text.decimal c.shutdownSeconds)
  | .maxConnections => String.ofList (Text.decimal c.maxConnections)

def write (c : Config) (name : String) : Option String :=
  (Variable.all.find? fun v => v.name == name).map c.value

end Config
end Outbox
