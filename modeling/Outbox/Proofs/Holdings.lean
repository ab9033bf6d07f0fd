import Outbox.Proofs.Move
import Outbox.Proofs.Run

/-! What those at work hold: claims on aggregates and the lock on the checkpoint. Whoever goes on by
a step opens a unit of work, keeps what it holds, gets one claim or the lock, or lets go of all. -/
namespace Outbox
variable {σ : Type} [Model σ]

def Consumer.unit? (k : Consumer σ) : Option (UnitOfWork σ) :=
  match k.stage with
  | .relaying r => r.stage.unit?
  | _ => none

def Agent.unit? : Agent σ → Option (UnitOfWork σ)
  | task (.handling h) => h.stage.unit?
  | task (.round r) => r.stage.unit?
  | consumer k => k.unit?

/-- What becomes of what is held, in the store and by whoever goes on from one unit of work to
another. -/
inductive Store.Trades (s : Store σ) :
    Option (UnitOfWork σ) → Store σ → Option (UnitOfWork σ) → Prop
  | opens {s' : Store σ} {u' : Option (UnitOfWork σ)} (claimed : s'.claimed = s.claimed)
    (held : s'.checkpointHeld = s.checkpointHeld)
    (bare : ∀ v ∈ u', v.claims = [] ∧ v.holdsCheckpoint = false) : Trades s none s' u'
  | keeps {s' : Store σ} {u v : UnitOfWork σ} (claimed : s'.claimed = s.claimed)
    (held : s'.checkpointHeld = s.checkpointHeld) (claims : v.claims = u.claims)
    (holds : v.holdsCheckpoint = u.holdsCheckpoint) : Trades s (some u) s' (some v)
  | claims {s' : Store σ} {u v : UnitOfWork σ} (id : Uuid) (free : id ∉ s.claimed)
    (claimed : s'.claimed = id :: s.claimed) (held : s'.checkpointHeld = s.checkpointHeld)
    (claims : v.claims = u.claims ++ [id]) (holds : v.holdsCheckpoint = u.holdsCheckpoint) :
    Trades s (some u) s' (some v)
  | locks {s' : Store σ} {u v : UnitOfWork σ} (free : s.checkpointHeld = false)
    (claimed : s'.claimed = s.claimed) (held : s'.checkpointHeld = true)
    (claims : v.claims = u.claims) (holds : v.holdsCheckpoint = true) :
    Trades s (some u) s' (some v)
  | releases {s' : Store σ} {u : UnitOfWork σ} (claimed : s'.claimed = (s.release u).claimed)
    (held : s'.checkpointHeld = (s.release u).checkpointHeld) : Trades s (some u) s' none

namespace Store

theorem trades_refl (s : Store σ) (u : Option (UnitOfWork σ)) : s.Trades u s u := by
  cases u with
  | none => exact .opens rfl rfl (by simp)
  | some u => exact .keeps rfl rfl rfl rfl

theorem trades_stage (s : Store σ) (u : UnitOfWork σ) (t : Uuid) (a : Aggregate σ)
    (x : Model.Snapshot σ) :
    s.Trades (some u) (s.stage u t a x).2.2 (some (s.stage u t a x).2.1) := by
  cases hc : s.check .stage with
  | error y => simpa only [stage, hc] using s.trades_refl (some u)
  | ok _ =>
    cases ha : s.admits u a.id a.baseVersion with
    | false => simpa [stage, hc, ha] using s.trades_refl (some u)
    | true =>
      cases hu : u.claims.contains a.id with
      | true =>
        simp only [stage, hc, ha, hu, if_true]
        exact .keeps rfl rfl rfl rfl
      | false =>
        have hf : a.id ∉ s.claimed := by
          simp only [admits, hu, Bool.false_or, Bool.and_eq_true, Bool.not_eq_true'] at ha
          simpa using ha.2
        simp only [stage, hc, ha, hu, if_true, Bool.false_eq_true, if_false]
        exact .claims a.id hf rfl rfl rfl rfl

theorem trades_readCheckpoint (s : Store σ) (u : UnitOfWork σ) :
    s.Trades (some u) (s.readCheckpoint u).2.2 (some (s.readCheckpoint u).2.1) := by
  cases hc : s.check .readCheckpoint with
  | error y => simpa only [readCheckpoint, hc] using s.trades_refl (some u)
  | ok _ =>
    cases hu : u.holdsCheckpoint with
    | true => simpa [readCheckpoint, hc, hu] using s.trades_refl (some u)
    | false =>
      cases hs : s.checkpointHeld with
      | true => simpa [readCheckpoint, hc, hu, hs] using s.trades_refl (some u)
      | false =>
        simp only [readCheckpoint, hc, hu, hs, Bool.false_eq_true, if_false]
        exact .locks hs rfl rfl rfl rfl

theorem trades_moveCheckpoint (s : Store σ) (u : UnitOfWork σ) (c : Checkpoint) :
    s.Trades (some u) (s.moveCheckpoint u c).2.2 (some (s.moveCheckpoint u c).2.1) := by
  cases hc : s.check .moveCheckpoint with
  | error y => simpa only [moveCheckpoint, hc] using s.trades_refl (some u)
  | ok _ =>
    cases hu : u.holdsCheckpoint with
    | true =>
      simp only [moveCheckpoint, hc, hu, if_true]
      exact .keeps rfl rfl rfl hu.symm
    | false =>
      cases hs : s.checkpointHeld with
      | true => simpa [moveCheckpoint, hc, hu, hs] using s.trades_refl (some u)
      | false =>
        simp only [moveCheckpoint, hc, hu, hs, Bool.false_eq_true, if_false]
        exact .locks hs rfl rfl rfl rfl

end Store

namespace Handling

theorem Move.trades {peers : Peers σ} {w w' : World σ} {h h' : Handling σ}
    (hm : Move peers w h w' h') : w.store.Trades h.stage.unit? w'.store h'.stage.unit? := by
  cases hm with
  | idle => exact w.store.trades_refl _
  | refused x here =>
    rw [here]
    exact .opens rfl rfl (by simp [Stage.unit?])
  | opens here =>
    rw [here]
    exact .opens rfl rfl (by simp [Stage.unit?])
  | looks u here =>
    rw [here]
    exact .keeps rfl rfl rfl rfl
  | resumes u found a here =>
    rw [here]
    exact .keeps rfl rfl rfl rfl
  | stages u es a b n here =>
    rw [here]
    exact w.store.trades_stage u h.transactionId b b.snapshot
  | saves u here =>
    rw [here, World.save_store]
    exact .keeps rfl rfl rfl rfl
  | commits u n here =>
    rw [here]
    exact .releases rfl rfl
  | fails u a x ns here =>
    rw [here]
    exact .releases rfl rfl

theorem trades_cancel (w : World σ) (h : Handling σ) :
    w.store.Trades h.stage.unit? (h.cancel w).1.store (h.cancel w).2.stage.unit? := by
  rcases h.cancel_cases w with ⟨-, he⟩ | ⟨hn, he⟩ | ⟨u, hu, he⟩
  · rw [he]
    exact w.store.trades_refl _
  · rw [he, hn]
    exact .opens rfl rfl (by simp [Stage.unit?])
  · rw [he, hu]
    exact .releases rfl rfl

end Handling

namespace Round

theorem Move.trades {peers : Peers σ} {w w' : World σ} {r r' : Round σ}
    (hm : Move peers w r w' r') : w.store.Trades r.stage.unit? w'.store r'.stage.unit? := by
  cases hm with
  | idle => exact w.store.trades_refl _
  | refused x n here =>
    rw [here]
    exact .opens rfl rfl (by simp [Stage.unit?])
  | opens here =>
    rw [here]
    exact .opens rfl rfl (by simp [Stage.unit?])
  | locks u here =>
    rw [here]
    exact w.store.trades_readCheckpoint u
  | collects u c here =>
    rw [here]
    exact .keeps rfl rfl rfl rfl
  | seeks u e es here =>
    rw [here]
    exact .keeps rfl rfl rfl rfl
  | recalls u es first a b found here =>
    rw [here]
    exact .keeps rfl rfl rfl rfl
  | announces u es first a b c found batch n here =>
    rw [here]
    exact .keeps rfl rfl rfl rfl
  | replays u es hs a b c batch n here =>
    rw [here]
    exact .keeps rfl rfl rfl rfl
  | publishes u a batch here =>
    rw [here, World.publish_store]
    exact .keeps rfl rfl rfl rfl
  | moves u published ns here =>
    have hu : r.stage.unit? = some u := by
      rcases here with ⟨here, _⟩ | ⟨a, here⟩ <;> rw [here] <;> rfl
    rw [hu]
    exact w.store.trades_moveCheckpoint u ⟨r.transaction.sequence⟩
  | commits u published n here =>
    rw [here]
    exact .releases rfl rfl
  | leaves u result ns here =>
    rw [here]
    exact .releases rfl rfl

theorem unit?_cancel (w : World σ) (r : Round σ) : (r.cancel w).2.stage.unit? = none := by
  rcases r.cancel_cases w with ⟨hr, he⟩ | ⟨-, he⟩ | ⟨u, -, he⟩
  · rw [he]
    cases hs : r.stage <;> simp_all [Stage.rank, Stage.unit?]
  · rw [he]
    rfl
  · rw [he]
    rfl

theorem trades_cancel (w : World σ) (r : Round σ) :
    w.store.Trades r.stage.unit? (r.cancel w).1.store (r.cancel w).2.stage.unit? := by
  rcases r.cancel_cases w with ⟨-, he⟩ | ⟨hn, he⟩ | ⟨u, hu, he⟩
  · rw [he]
    exact w.store.trades_refl _
  · rw [he, hn]
    exact .opens rfl rfl (by simp [Stage.unit?])
  · rw [he, hu]
    exact .releases rfl rfl

end Round

namespace Consumer

theorem unit?_relaying {k : Consumer σ} {r : Round σ} (h : k.stage = .relaying r) :
    k.unit? = r.stage.unit? := by
  rw [unit?, h]

theorem unit?_eq_none {k : Consumer σ} (h : ∀ r, k.stage ≠ .relaying r) : k.unit? = none := by
  cases hs : k.stage <;> simp_all [unit?]

theorem Move.trades {peers : Peers σ} {w w' : World σ} {k k' : Consumer σ}
    (hm : Move peers w k w' k') : w.store.Trades k.unit? w'.store k'.unit? := by
  cases hm with
  | rests ns k' here there =>
    rw [unit?_eq_none here, unit?_eq_none there]
    exact .opens rfl rfl (by simp)
  | takes x xs t here =>
    rw [unit?_eq_none (by simp [here])]
    exact .opens rfl rfl (by simp [unit?, Round.Stage.unit?])
  | relays r here =>
    rw [unit?_relaying here]
    exact (r.step_move peers w).trades
  | accounts r result ns report here ended =>
    have ht := (r.step_move peers w).trades
    rw [ended] at ht
    rw [unit?_relaying here]
    exact ht

theorem trades_abort (w : World σ) (k : Consumer σ) :
    w.store.Trades k.unit? (k.abort w).1.store (k.abort w).2.unit? := by
  cases hs : k.stage with
  | relaying r =>
    have he : k.abort w = ((r.cancel w).1, { k with stage := .crashed }) := by simp [abort, hs]
    have ht := r.trades_cancel w
    rw [Round.unit?_cancel] at ht
    rw [he, unit?_relaying hs]
    exact ht
  | polling => simpa [abort, hs, unit?] using w.store.trades_refl none
  | stopped => simpa [abort, hs, unit?] using w.store.trades_refl none
  | crashed => simpa [abort, hs, unit?] using w.store.trades_refl none

end Consumer

namespace Agent

theorem trades_step (peers : Peers σ) (told : Bool) (w : World σ) (a : Agent σ) :
    w.store.Trades a.unit? (a.step peers told w).1.store (a.step peers told w).2.unit? := by
  cases a with
  | task t =>
    cases t with
    | handling h => exact (h.step_move peers w).trades
    | round r => exact (r.step_move peers w).trades
  | consumer k => exact (k.step_move peers told w).trades

theorem trades_cancel (w : World σ) (a : Agent σ) :
    w.store.Trades a.unit? (a.cancel w).1.store (a.cancel w).2.unit? := by
  cases a with
  | task t =>
    cases t with
    | handling h => exact h.trades_cancel w
    | round r => exact r.trades_cancel w
  | consumer k => exact k.trades_abort w

@[simp] theorem unit?_notify (t : Transaction) (a : Agent σ) : (a.notify t).unit? = a.unit? := by
  cases a <;> rfl

end Agent
end Outbox
