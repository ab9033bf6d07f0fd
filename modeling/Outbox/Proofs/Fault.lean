import Outbox.Proofs.Move

/-! What goes wrong while a command is handled, and what is reported of it: the first operation that
fails is the last one but the undoing of the others, and its error is what the handling ends with,
together with that of the undoing if this fails as well. -/
namespace Outbox
variable {σ : Type} [Model σ]

def Error.of? {α : Type} : Except Error α → Option Error
  | .ok _ => none
  | .error x => some x

namespace Handling

def Stage.refusal : Stage σ → Option Error
  | sawSnapshot _ (.error x) => some x
  | sawEvents _ (.error x) => some x
  | staged _ (.error x) => some x
  | saved _ (.error x) => some x
  | _ => none

/-- The error of the first operation of a step that fails. -/
def fault (peers : Peers σ) (w : World σ) (h : Handling σ) : Option Error :=
  match h.stage with
  | .waiting => Error.of? w.store.begin
  | .opened _ => Error.of? (w.store.readSnapshot h.aggregate.id none)
  | .sawSnapshot _ (.ok found) =>
    match h.aggregate.resume found with
    | .error x => some x
    | .ok a => Error.of? (w.store.readEvents a.id (a.version + 1) none)
  | .sawEvents u (.ok es) =>
    match h.aggregate.build es with
    | (_, .error x) => some x
    | (a, .ok ()) =>
      match a.advanceAll (h.newEvents a.version) with
      | (_, .error x) => some x
      | (a, .ok ()) => Error.of? (w.store.stage u h.transactionId a a.snapshot).1
  | .staged _ (.ok ()) => Error.of? (w.save peers h.aggregate.projection).1
  | .saved u (.ok ()) => Error.of? (w.store.commit u).1
  | _ => none

def faults (peers : Peers σ) (w : World σ) (h : Handling σ) : List Error :=
  h.stage.refusal.toList ++ (h.fault peers w).toList

/-- What a handling ends with if something goes wrong: where there is nothing to undo, because it
could not begin, or nothing any more, because it could not commit, just that. -/
def verdict (s : Store σ) (h : Handling σ) (x : Error) : Error :=
  match h.stage with
  | .waiting => x
  | .saved _ (.ok _) => x
  | _ => s.undoing x

/-- How a handling may go on after these faults: it ends with the only one, or with none, or it has
been told of all of them. -/
def Reports (s : Store σ) (h : Handling σ) (faults : List Error) : Stage σ → Prop
  | .ended (.ok _) => faults = []
  | .ended (.error y) => ∃ x, faults = [x] ∧ y = h.verdict s x
  | stage => faults = stage.refusal.toList

theorem fault_of_rank_eq_zero {peers : Peers σ} {w : World σ} {h : Handling σ}
    (ended : h.stage.rank = 0) : h.fault peers w = none := by
  cases hs : h.stage <;> simp_all [Stage.rank, fault]

theorem conclude_error_stage (w : World σ) (h : Handling σ) (u : UnitOfWork σ) (x : Error) :
    (h.conclude w u (.error x)).2.stage = .ended (.error (w.store.undoing x)) := by
  simp only [conclude, Store.conclude_error]

theorem step_reports (peers : Peers σ) (w : World σ) (h : Handling σ) (going : h.stage.rank ≠ 0) :
    h.Reports w.store (h.faults peers w) (h.step peers w).2.stage := by
  -- a step that undoes what went before reports the fault that made it do so
  have hu {x : Error} {stage : Stage σ} (hf : h.faults peers w = [x])
      (hv : h.verdict w.store x = w.store.undoing x)
      (he : stage = .ended (.error (w.store.undoing x))) :
      h.Reports w.store (h.faults peers w) stage := by
    rw [he]
    exact ⟨x, hf, hv.symm⟩
  cases hs : h.stage with
  | waiting =>
    cases hb : w.store.begin <;>
      simp [step, faults, fault, Reports, verdict, Stage.refusal, Error.of?, hs, hb]
  | opened u =>
    cases hr : w.store.readSnapshot h.aggregate.id none <;>
      simp [step, faults, fault, Reports, Stage.refusal, Error.of?, hs, hr]
  | sawSnapshot u found =>
    have hv (x : Error) : h.verdict w.store x = w.store.undoing x := by simp [verdict, hs]
    cases found with
    | error x =>
      refine hu (x := x) ?_ (hv x) ?_
      · simp [faults, fault, Stage.refusal, hs]
      · simp only [step, hs, conclude_error_stage]
    | ok found =>
      cases ha : h.aggregate.resume found with
      | error x =>
        refine hu (x := x) ?_ (hv x) ?_
        · simp [faults, fault, Stage.refusal, hs, ha]
        · simp only [step, hs, ha, conclude_error_stage]
      | ok a =>
        cases hr : w.store.readEvents a.id (a.version + 1) none <;>
          simp [step, faults, fault, Reports, Stage.refusal, Error.of?, hs, ha, hr]
  | sawEvents u found =>
    have hv (x : Error) : h.verdict w.store x = w.store.undoing x := by simp [verdict, hs]
    cases found with
    | error x =>
      refine hu (x := x) ?_ (hv x) ?_
      · simp [faults, fault, Stage.refusal, hs]
      · simp only [step, hs, conclude_error_stage]
    | ok es =>
      rcases ha : h.aggregate.build es with ⟨a, x | _⟩
      · refine hu (x := x) ?_ (hv x) ?_
        · simp [faults, fault, Stage.refusal, hs, ha]
        · simp only [step, hs, ha, conclude_error_stage]
      · rcases hb : a.advanceAll (h.newEvents a.version) with ⟨b, x | _⟩
        · refine hu (x := x) ?_ (hv x) ?_
          · simp [faults, fault, Stage.refusal, hs, ha, hb]
          · simp only [step, hs, ha, hb, conclude_error_stage, World.say_store]
        · rcases hr : w.store.stage u h.transactionId b b.snapshot with ⟨_ | _, v, s⟩ <;>
            simp [step, faults, fault, Reports, Stage.refusal, Error.of?, hs, ha, hb, hr]
  | staged u result =>
    have hv (x : Error) : h.verdict w.store x = w.store.undoing x := by simp [verdict, hs]
    cases result with
    | error x =>
      refine hu (x := x) ?_ (hv x) ?_
      · simp [faults, fault, Stage.refusal, hs]
      · simp only [step, hs, conclude_error_stage]
    | ok _ =>
      rcases hp : w.save peers h.aggregate.projection with ⟨_ | _, v⟩ <;>
        simp [step, faults, fault, Reports, Stage.refusal, Error.of?, hs, hp]
  | saved u result =>
    cases result with
    | error x =>
      refine hu (x := x) ?_ (by simp [verdict, hs]) ?_
      · simp [faults, fault, Stage.refusal, hs]
      · simp only [step, hs, conclude_error_stage]
    | ok _ =>
      rcases hc : w.store.commit u with ⟨_ | _, s⟩ <;>
        simp [step, faults, fault, Reports, Stage.refusal, Error.of?, verdict, conclude,
          Store.conclude, hs, hc]
  | ended result => simp [hs, Stage.rank] at going
  | cancelled => simp [hs, Stage.rank] at going

end Handling
end Outbox
