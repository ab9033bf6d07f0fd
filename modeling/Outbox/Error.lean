import Outbox.Uuid

/-! What can go wrong between a command and the publication of its events. -/
namespace Outbox

inductive Error
  /-- An event or a snapshot does not continue the version its aggregate has. -/
  | invalidVersion (aggregate : Uuid) (expected actual : Int)
  /-- The stored version of an aggregate is not, or no longer, the one that was loaded. -/
  | conflict (aggregate : Uuid) (expected : Int)
  | persistence (detail : String)
  | conversion (detail : String)
  | publish (detail : String)
  | notification (detail : String)
  /-- An operation failed, and so did undoing it. -/
  | rollbackFailed (cause rollback : Error)
  deriving DecidableEq

namespace Error

def message : Error → String
  | invalidVersion aggregate expected actual =>
    s!"invalid version on aggregate {aggregate}: expected {expected}, got {actual}"
  | conflict aggregate expected =>
    s!"concurrency conflict on aggregate {aggregate}: expected stored version {expected}"
  | persistence detail => s!"persistence error: {detail}"
  | conversion detail => s!"conversion error: {detail}"
  | publish detail => s!"publish error: {detail}"
  | notification detail => s!"notification error: {detail}"
  | rollbackFailed cause rollback =>
    s!"rollback failed: {message rollback} (original error: {message cause})"

/-- Whether the first thing that went wrong was a conflict. -/
def isConflict : Error → Bool
  | conflict _ _ => true
  | rollbackFailed cause _ => isConflict cause
  | _ => false

end Error
end Outbox
