import Outbox.Transaction

/-! What relaying comes to: the outcome of a round, and the counts of a run of rounds. -/
namespace Outbox

inductive RoundOutcome
  /-- So many events were published, and the checkpoint moved. -/
  | relayed (published : Nat) (checkpoint : Int)
  /-- The checkpoint was that far already. -/
  | alreadyRelayed (checkpoint : Int)
  /-- Another round held the checkpoint. -/
  | checkpointLocked
  deriving DecidableEq, Repr

namespace RoundOutcome

def advanced : RoundOutcome → Bool
  | relayed _ _ => true
  | _ => false

def text : RoundOutcome → String
  | relayed published checkpoint =>
    s!"Relayed \x7b published: {published}, checkpoint: {checkpoint} \x7d"
  | alreadyRelayed checkpoint => s!"AlreadyRelayed \x7b checkpoint: {checkpoint} \x7d"
  | checkpointLocked => "CheckpointLocked"

end RoundOutcome

structure Report where
  relayed : Nat := 0
  skipped : Nat := 0
  failed : Nat := 0
  deriving DecidableEq, Repr

namespace Report

def total (r : Report) : Nat := r.relayed + r.skipped + r.failed

def count (r : Report) : Option RoundOutcome → Report
  | none => { r with failed := r.failed + 1 }
  | some o =>
    if o.advanced then { r with relayed := r.relayed + 1 } else { r with skipped := r.skipped + 1 }

@[simp] theorem total_count (r : Report) (o : Option RoundOutcome) :
    (r.count o).total = r.total + 1 := by
  cases o with
  | none => simp [count, total]; omega
  | some o => simp only [count]; split <;> simp only [total] <;> omega

end Report
end Outbox
