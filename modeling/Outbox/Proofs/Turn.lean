import Outbox.Proofs.Move
import Outbox.Proofs.Run

/-! One agent among others: which actions are its own, and how many of them it takes at most until
it is over, whatever goes on beside it. -/
namespace Outbox
variable {σ : Type} [Model σ]

namespace Action
variable {ι : Type} [DecidableEq ι]

def isStepOf (i : ι) : Action ι σ → Bool
  | .step j _ _ => j = i
  | _ => false

def isBy (i : ι) : Action ι σ → Bool
  | .step j _ _ => j = i
  | .cancel j => j = i
  | _ => false

end Action

namespace Handling

theorem Move.rank_le {peers : Peers σ} {w w' : World σ} {h h' : Handling σ}
    (hm : Move peers w h w' h') : h'.stage.rank ≤ h.stage.rank - 1 := by
  cases hm with
  | idle ended => omega
  | refused | commits | fails => exact Nat.zero_le _
  | opens here | looks u here | resumes u found a here | stages u es a b n here | saves u here =>
    rw [here]
    exact Nat.le_refl _

theorem receipt?_of_rank_ne_zero {h : Handling σ} (going : h.stage.rank ≠ 0) :
    h.receipt? = none := by
  cases hs : h.stage <;> simp_all [receipt?, Stage.rank]

/-- A move that is no commit leaves what is durable alone, and gives no receipt. -/
theorem Move.durable {peers : Peers σ} {w w' : World σ} {h h' : Handling σ}
    (hm : Move peers w h w' h') :
    (w'.store.ledger = w.store.ledger ∧ h'.receipt? = h.receipt?) ∨
      ∃ u, h.stage = .saved u (.ok ()) ∧ w.store.ledger.outdated u = none ∧
        w'.store.ledger = w.store.ledger.absorb u ∧ h.receipt? = none ∧
        h'.receipt? = some h.intended := by
  by_cases ended : h.stage.rank = 0
  · cases hm with
    | idle => exact .inl ⟨rfl, rfl⟩
    | fails u a x ns here => cases hs : h.stage <;> simp_all [Stage.rank, Stage.unit?]
    | _ => simp_all [Stage.rank]
  · have hn := receipt?_of_rank_ne_zero ended
    cases hm with
    | idle still => exact absurd still ended
    | saves u here => exact .inl ⟨by rw [World.save_store], hn.symm⟩
    | stages u => exact .inl ⟨w.store.stage_ledger u .., hn.symm⟩
    | commits u n here fresh => exact .inr ⟨u, here, fresh, rfl, hn, rfl⟩
    | _ => exact .inl ⟨rfl, hn.symm⟩

theorem steps_of_rank_eq_zero {h : Handling σ} (ended : h.stage.rank = 0) (peers : Peers σ) (n : Nat)
    (w : World σ) : h.steps peers n w = (w, h) := by
  induction n with
  | zero => rfl
  | succ n ih => simpa [steps, step_of_rank_eq_zero ended] using ih

/-- Steps beyond the end do nothing. -/
theorem steps_of_rank_le {h : Handling σ} {n : Nat} (hn : h.stage.rank ≤ n) (peers : Peers σ)
    (w : World σ) : h.steps peers n w = h.complete peers w := by
  induction n using Nat.strongRecOn generalizing h w with
  | _ n ih =>
    cases hr : h.stage.rank with
    | zero => simp [complete, steps_of_rank_eq_zero hr]
    | succ m =>
      obtain ⟨n, rfl⟩ : ∃ k, n = k + 1 := ⟨n - 1, by omega⟩
      have hm := (h.step_move peers w).rank_le
      simp only [complete, hr, steps]
      rw [ih n (Nat.lt_succ_self n) (by omega), ih m (by omega) (by omega)]

theorem complete_of_step {peers : Peers σ} {w w' : World σ} {h h' : Handling σ}
    (hs : h.step peers w = (w', h')) : h.complete peers w = h'.complete peers w' := by
  have hm : h'.stage.rank ≤ h.stage.rank - 1 := by
    have hle := (h.step_move peers w).rank_le
    rwa [hs] at hle
  cases hr : h.stage.rank with
  | zero =>
    rw [step_of_rank_eq_zero hr] at hs
    cases hs
    rfl
  | succ m =>
    simp only [complete, hr, steps, hs]
    exact steps_of_rank_le (by omega) peers w'

theorem complete_of_rank_eq_zero {h : Handling σ} (ended : h.stage.rank = 0) (peers : Peers σ)
    (w : World σ) : h.complete peers w = (w, h) := by
  rw [complete, ended, steps]

theorem rank_cancel (w : World σ) (h : Handling σ) : (h.cancel w).2.stage.rank = 0 := by
  rcases h.cancel_cases w with ⟨ended, he⟩ | ⟨-, he⟩ | ⟨u, -, he⟩
  · rwa [he]
  · rw [he]
    rfl
  · rw [he]
    rfl

end Handling

namespace Round

theorem Move.rank_le {peers : Peers σ} {w w' : World σ} {r r' : Round σ}
    (hm : Move peers w r w' r') : r'.stage.rank ≤ r.stage.rank - 1 := by
  cases hm with
  | idle ended => omega
  | refused | commits | leaves => exact Nat.zero_le _
  | opens here | locks u here | collects u c here | seeks u e es here
  | recalls u es first a b found here | replays u es hs a b c batch n here
  | publishes u a batch here =>
    rw [here]
    exact Nat.le_refl _
  | announces u es first a b c found batch n here =>
    rw [here]
    exact Nat.le_succ 3
  | moves u published ns here =>
    rcases here with ⟨here, -⟩ | ⟨a, here⟩
    · rw [here]
      exact Nat.succ_le_succ (Nat.zero_le 4)
    · rw [here]
      exact Nat.le_refl 1

theorem steps_of_rank_eq_zero {r : Round σ} (ended : r.stage.rank = 0) (peers : Peers σ) (n : Nat)
    (w : World σ) : r.steps peers n w = (w, r) := by
  induction n with
  | zero => rfl
  | succ n ih => simpa [steps, step_of_rank_eq_zero ended] using ih

theorem steps_of_rank_le {r : Round σ} {n : Nat} (hn : r.stage.rank ≤ n) (peers : Peers σ)
    (w : World σ) : r.steps peers n w = r.complete peers w := by
  induction n using Nat.strongRecOn generalizing r w with
  | _ n ih =>
    cases hr : r.stage.rank with
    | zero => simp [complete, steps_of_rank_eq_zero hr]
    | succ m =>
      obtain ⟨n, rfl⟩ : ∃ k, n = k + 1 := ⟨n - 1, by omega⟩
      have hm := (r.step_move peers w).rank_le
      simp only [complete, hr, steps]
      rw [ih n (Nat.lt_succ_self n) (by omega), ih m (by omega) (by omega)]

theorem complete_of_step {peers : Peers σ} {w w' : World σ} {r r' : Round σ}
    (hs : r.step peers w = (w', r')) : r.complete peers w = r'.complete peers w' := by
  have hm : r'.stage.rank ≤ r.stage.rank - 1 := by
    have hle := (r.step_move peers w).rank_le
    rwa [hs] at hle
  cases hr : r.stage.rank with
  | zero =>
    rw [step_of_rank_eq_zero hr] at hs
    cases hs
    rfl
  | succ m =>
    simp only [complete, hr, steps, hs]
    exact steps_of_rank_le (by omega) peers w'

theorem complete_of_rank_eq_zero {r : Round σ} (ended : r.stage.rank = 0) (peers : Peers σ)
    (w : World σ) : r.complete peers w = (w, r) := by
  rw [complete, ended, steps]

theorem rank_cancel (w : World σ) (r : Round σ) : (r.cancel w).2.stage.rank = 0 := by
  rcases r.cancel_cases w with ⟨ended, he⟩ | ⟨-, he⟩ | ⟨u, -, he⟩
  · rwa [he]
  · rw [he]
    rfl
  · rw [he]
    rfl

end Round

namespace Task

theorem rank_step (peers : Peers σ) (w : World σ) (t : Task σ) :
    (t.step peers w).2.rank ≤ t.rank - 1 := by
  cases t with
  | handling h => exact (h.step_move peers w).rank_le
  | round r => exact (r.step_move peers w).rank_le

theorem rank_cancel (w : World σ) (t : Task σ) : (t.cancel w).2.rank = 0 := by
  cases t with
  | handling h => exact h.rank_cancel w
  | round r => exact r.rank_cancel w

end Task

namespace Pool
variable {ι : Type} [DecidableEq ι] {p : Pool ι σ} {i : ι} {t : Task σ}

theorem agents_step_task (hi : p.agents i = .task t) (peers : Peers σ) (told : Bool) :
    (p.act (.step i peers told)).agents i = .task (t.step peers p.world).2 := by
  simp only [act, hi, Function.update_self]
  rfl

theorem agents_cancel_task (hi : p.agents i = .task t) :
    (p.act (.cancel i)).agents i = .task (t.cancel p.world).2 := by
  simp only [act, hi, Function.update_self]
  rfl

theorem world_step_task (hi : p.agents i = .task t) (peers : Peers σ) (told : Bool) :
    (p.act (.step i peers told)).world = (t.step peers p.world).1 := by
  simp only [act, hi]
  rfl

theorem world_cancel_task (hi : p.agents i = .task t) :
    (p.act (.cancel i)).world = (t.cancel p.world).1 := by
  simp only [act, hi]
  rfl

/-- What others do leaves a task where it is. -/
theorem agents_act_of_not_isBy (hi : p.agents i = .task t) {x : Action ι σ}
    (hx : x.isBy i = false) : (p.act x).agents i = .task t := by
  cases x with
  | step j peers told =>
    have hj : i ≠ j := by simpa [Action.isBy, eq_comm] using hx
    simpa only [act, Function.update_of_ne hj] using hi
  | cancel j =>
    have hj : i ≠ j := by simpa [Action.isBy, eq_comm] using hx
    simpa only [act, Function.update_of_ne hj] using hi
  | notify j place =>
    cases ht : p.ledger.log[place]? with
    | none => simpa only [act, ht] using hi
    | some s =>
      by_cases hj : i = j
      · simp only [act, ht, ← hj, Function.update_self, hi, Agent.notify]
      · simpa only [act, ht, Function.update_of_ne hj] using hi
  | fail operations => exact hi

/-- What is true of a task at first, and stays true while others act, as it takes a step and as it
is given up, is true of it after every run. -/
theorem task_run {P : List (Action ι σ) → Task σ → Prop} (hi : p.agents i = .task t) (nil : P [] t)
    (other : ∀ acts t x, (p.run acts).agents i = .task t → P acts t → x.isBy i = false →
      P (acts ++ [x]) t)
    (step : ∀ acts t peers told, (p.run acts).agents i = .task t → P acts t →
      P (acts ++ [.step i peers told]) (t.step peers (p.run acts).world).2)
    (cancel : ∀ acts t, (p.run acts).agents i = .task t → P acts t →
      P (acts ++ [.cancel i]) (t.cancel (p.run acts).world).2)
    (acts : List (Action ι σ)) : ∃ t, (p.run acts).agents i = .task t ∧ P acts t := by
  induction acts using List.reverseRecOn with
  | nil => exact ⟨t, hi, nil⟩
  | append_singleton acts x ih =>
    obtain ⟨t, here, ht⟩ := ih
    rw [run_append]
    cases hx : x.isBy i with
    | false => exact ⟨t, agents_act_of_not_isBy here hx, other acts t x here ht hx⟩
    | true =>
      cases x with
      | step j peers told =>
        obtain rfl : j = i := by simpa [Action.isBy] using hx
        exact ⟨_, agents_step_task here peers told, step acts t peers told here ht⟩
      | cancel j =>
        obtain rfl : j = i := by simpa [Action.isBy] using hx
        exact ⟨_, agents_cancel_task here, cancel acts t here ht⟩
      | notify j place => cases hx
      | fail operations => cases hx

theorem handling_run {P : List (Action ι σ) → Handling σ → Prop} {h : Handling σ}
    (hi : p.agents i = .task (.handling h)) (nil : P [] h)
    (other : ∀ acts h x, (p.run acts).agents i = .task (.handling h) → P acts h →
      x.isBy i = false → P (acts ++ [x]) h)
    (step : ∀ acts h peers told, (p.run acts).agents i = .task (.handling h) → P acts h →
      P (acts ++ [.step i peers told]) (h.step peers (p.run acts).world).2)
    (cancel : ∀ acts h, (p.run acts).agents i = .task (.handling h) → P acts h →
      P (acts ++ [.cancel i]) (h.cancel (p.run acts).world).2)
    (acts : List (Action ι σ)) :
    ∃ h, (p.run acts).agents i = .task (.handling h) ∧ P acts h := by
  have hq : ∃ t, (p.run acts).agents i = .task t ∧ ∃ h, t = .handling h ∧ P acts h := by
    refine task_run (P := fun acts t => ∃ h, t = .handling h ∧ P acts h) hi ⟨h, rfl, nil⟩ ?_ ?_ ?_
      acts
    · rintro acts t x here ⟨h, rfl, hp⟩ hx
      exact ⟨h, rfl, other acts h x here hp hx⟩
    · rintro acts t peers told here ⟨h, rfl, hp⟩
      exact ⟨_, rfl, step acts h peers told here hp⟩
    · rintro acts t here ⟨h, rfl, hp⟩
      exact ⟨_, rfl, cancel acts h here hp⟩
  obtain ⟨t, ht, h, rfl, hp⟩ := hq
  exact ⟨h, ht, hp⟩

/-- Every step that a task takes leaves it fewer, however many others go on beside it. -/
theorem rank_run (hi : p.agents i = .task t) (acts : List (Action ι σ)) :
    ∃ t', (p.run acts).agents i = .task t' ∧
      t'.rank ≤ t.rank - acts.countP (Action.isStepOf i) := by
  refine task_run (P := fun acts t' => t'.rank ≤ t.rank - acts.countP (Action.isStepOf i)) hi
    (Nat.le_refl _) (fun acts t' x _ hr hx => ?_) (fun acts t' peers told _ hr => ?_)
    (fun acts t' _ hr => ?_) acts
  · have hs : Action.isStepOf i x = false := by cases x <;> simp_all [Action.isBy, Action.isStepOf]
    simpa [hs] using hr
  · have hle := t'.rank_step peers (p.run acts).world
    have hs : Action.isStepOf i (.step i peers told : Action ι σ) = true := by
      simp [Action.isStepOf]
    rw [List.countP_append, List.countP_singleton, hs, if_pos rfl]
    omega
  · simp [Task.rank_cancel]

end Pool
end Outbox
