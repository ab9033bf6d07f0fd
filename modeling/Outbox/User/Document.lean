import Outbox.Json.Document
import Outbox.Transaction
import Outbox.User

/-! The JSON forms of what is stored and sent. -/
namespace Outbox

open Json

namespace UserEvent

def toJson : UserEvent → Json
  | credentialsCreated email =>
    record [("type", ofString "credentials_created"), ("data", record [("email", ofString email)])]
  | emailConfirmed => record [("type", ofString "email_confirmed")]
  | userAuthenticated device =>
    record [("type", ofString "user_authenticated"), ("data", record [("device", ofString device)])]

def onlyString? (name : String) (data : Json) : Option String :=
  match data.members? [name] with
  | some [some j] => j.string?
  | _ => none

def ofData? (type : String) (data : Option Json) : Option UserEvent :=
  match type, data with
  | "credentials_created", some j => (onlyString? "email" j).map credentialsCreated
  | "email_confirmed", none => some emailConfirmed
  | "email_confirmed", some .null => some emailConfirmed
  | "user_authenticated", some j => (onlyString? "device" j).map userAuthenticated
  | _, _ => none

def dataFirst : List (Option String × Json) → Bool
  | [] => false
  | (k, _) :: ms =>
    if k = some "data" then true else if k = some "type" then false else dataFirst ms

/-- The name of a type: a text, or the name of the only member of an object, which is null. -/
def typeName? : Json → Option String
  | .object [(name, .null)] => name
  | j => j.string?

/-- Reads an event: its type and its data, in any order. Data that stand before the type are kept
until the type is known; `around` arrays and objects stand around the event. In an array the type
is always a text. -/
def ofJson? (around : Nat) : Json → Option UserEvent
  | .object members =>
    if distinct ["type", "data"] members then
      match (member? members "type").bind typeName?, member? members "data" with
      | some type, some data =>
        if dataFirst members && !isWhole (deepest - (around + 1)) data then none
        else ofData? type (some data)
      | some type, none => ofData? type none
      | none, _ => none
    else none
  | .array [type, data] => type.string?.bind fun t => ofData? t (some data)
  | _ => none

instance : Document UserEvent := ⟨toJson, ofJson?⟩

end UserEvent

namespace UserSnapshot

def fieldNames : List String := ["email", "confirmed", "login_count", "last_device"]

def toJson (s : UserSnapshot) : Json :=
  record [("email", ofString? s.email), ("confirmed", .bool s.confirmed),
    ("login_count", ofInt s.loginCount), ("last_device", ofString? s.lastDevice)]

/-- The text in a field that an object may lack. -/
def optional? : Option Json → Option (Option String)
  | none => some none
  | some j => j.stringOrNull?

def ofJson? (j : Json) : Option UserSnapshot :=
  match j.fields? fieldNames with
  | some [email, some confirmed, some loginCount, lastDevice] => do
    return ⟨← optional? email, ← confirmed.bool?, (← loginCount.integer? .unsigned32).toNat,
      ← optional? lastDevice⟩
  | _ => none

instance : Document UserSnapshot := ⟨toJson, fun _ => ofJson?⟩

end UserSnapshot

namespace Event
variable {P : Type} [Document P]

def fieldNames : List String :=
  ["aggregate_id", "transaction_id", "command_type", "version", "event_type", "payload",
    "created_at"]

def toJson (e : Event P) : Json :=
  record [("aggregate_id", ofUuid e.aggregateId), ("transaction_id", ofUuid e.transactionId),
    ("command_type", ofString e.commandType), ("version", ofInt e.version),
    ("event_type", ofString e.eventType), ("payload", Document.toJson e.payload),
    ("created_at", ofTimestamp e.createdAt)]

def ofJson? (around : Nat) (j : Json) : Option (Event P) :=
  match j.fields? fieldNames with
  | some [some aggregateId, some transactionId, some commandType, some version, some eventType,
      some payload, some createdAt] => do
    return ⟨← aggregateId.uuid?, ← transactionId.uuid?, ← commandType.string?,
      ← version.integer? .signed64, ← eventType.string?,
      ← Document.ofJson? (around + 1) payload, ← createdAt.timestamp?⟩
  | _ => none

instance : Document (Event P) := ⟨toJson, ofJson?⟩

end Event

namespace IntegrationEvent
variable {I : Type} [Document I]

def fieldNames : List String := ["id", "type", "payload"]

def toJson (e : IntegrationEvent I) : Json :=
  record [("id", ofUuid e.id), ("type", ofString e.eventType),
    ("payload", Document.toJson e.payload)]

def ofJson? (around : Nat) (j : Json) : Option (IntegrationEvent I) :=
  match j.fields? fieldNames with
  | some [some id, some eventType, some payload] => do
    return ⟨← id.uuid?, ← eventType.string?, ← Document.ofJson? (around + 1) payload⟩
  | _ => none

instance : Document (IntegrationEvent I) := ⟨toJson, ofJson?⟩

end IntegrationEvent

namespace Snapshot
variable {S : Type} [Document S]

def fieldNames : List String := ["aggregate_id", "version", "payload"]

def toJson (s : Snapshot S) : Json :=
  record [("aggregate_id", ofUuid s.aggregateId), ("version", ofInt s.version),
    ("payload", Document.toJson s.payload)]

def ofJson? (around : Nat) (j : Json) : Option (Snapshot S) :=
  match j.fields? fieldNames with
  | some [some aggregateId, some version, some payload] => do
    return ⟨← aggregateId.uuid?, ← version.integer? .signed64,
      ← Document.ofJson? (around + 1) payload⟩
  | _ => none

instance : Document (Snapshot S) := ⟨toJson, ofJson?⟩

end Snapshot

namespace Transaction

def fieldNames : List String := ["id", "aggregate_id", "sequence_id"]

def toJson (t : Transaction) : Json :=
  record [("id", ofUuid t.id), ("aggregate_id", ofUuid t.aggregateId),
    ("sequence_id", ofInt t.sequence)]

def ofJson? (j : Json) : Option Transaction :=
  match j.fields? fieldNames with
  | some [some id, some aggregateId, some sequence] => do
    return ⟨← id.uuid?, ← aggregateId.uuid?, ← sequence.integer? .signed64⟩
  | _ => none

instance : Document Transaction := ⟨toJson, fun _ => ofJson?⟩

end Transaction

namespace Checkpoint

def fieldNames : List String := ["last_sequence_id"]

def toJson (c : Checkpoint) : Json := record [("last_sequence_id", ofInt c.last)]

def ofJson? (j : Json) : Option Checkpoint :=
  match j.fields? fieldNames with
  | some [some last] => (last.integer? .signed64).map Checkpoint.mk
  | _ => none

instance : Document Checkpoint := ⟨toJson, fun _ => ofJson?⟩

end Checkpoint
end Outbox
