import Outbox.Json.Document
import Outbox.Notification.Check
import Outbox.Text.Quoted
import Outbox.Transaction
import Outbox.Error

/-! What is sent when a transaction is committed. The place in the log travels as text, so that no
reader of JSON numbers rounds it. -/
namespace Outbox

structure Notification where
  id : Uuid
  aggregateId : Uuid
  sequence : String
  deriving DecidableEq

namespace Notification

open Json

def fieldNames : List String := ["id", "aggregate_id", "sequence_id"]

def toJson (n : Notification) : Json :=
  record [("id", ofUuid n.id), ("aggregate_id", ofUuid n.aggregateId),
    ("sequence_id", ofString n.sequence)]

def ofJson? (j : Json) : Option Notification :=
  match j.fields? fieldNames with
  | some [some id, some aggregateId, some sequence] => do
    return ⟨← id.uuid?, ← aggregateId.uuid?, ← sequence.string?⟩
  | _ => none

instance : Document Notification := ⟨toJson, fun _ => ofJson?⟩

def ofTransaction (t : Transaction) : Notification :=
  ⟨t.id, t.aggregateId, String.ofList (Text.decimal t.sequence)⟩

def encode (n : Notification) : String := Document.encode n

def malformed (payload : String) : Error :=
  .notification ("malformed payload: " ++ (Check.fault? payload).getD "")

def invalidSequence (sequence : String) (fault : Text.NumeralFault) : Error :=
  .notification s!"invalid sequence id {Text.quoted sequence}: {fault.message}"

def decode (payload : String) : Except Error Transaction :=
  match (Document.decode? payload : Option Notification) with
  | none => .error (malformed payload)
  | some n =>
    match Text.readInteger .signed64 n.sequence.toList with
    | .error fault => .error (invalidSequence n.sequence fault)
    | .ok sequence => .ok ⟨n.id, n.aggregateId, sequence⟩

end Notification
end Outbox
