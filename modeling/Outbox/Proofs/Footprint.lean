import Outbox.Proofs.Lock
import Outbox.Proofs.Turn

/-! What a round of the relay touches: the checkpoint, once it ends having relayed, and the lock on
it until then; nothing else that is durable. This holds whatever the store contains and fails at,
and whatever others do to it between two steps of the round. -/
namespace Outbox
variable {σ : Type} [Model σ]

structure Sending (ι σ : Type) [Model σ] where
  sender : ι
  batch : List (IntegrationOf σ)

namespace Round

/-- Whether the round has had nothing published so far, and never will have if it is over. -/
def Stage.silent : Stage σ → Bool
  | ended (.ok o) => !o.advanced
  | ended (.error _) => false
  | cancelled => false
  | stage => !stage.accepted

/-- What a round stages: nothing but the place of its transaction as the checkpoint, and that only
while it holds the lock. -/
structure Carries (r : Round σ) : Prop where
  reads : r.Reads
  staged : ∀ u n, r.stage = .moved u n (.ok ()) →
    u.holdsCheckpoint = true ∧ u.checkpoint = some ⟨r.transaction.sequence⟩

theorem carries_of_stage {r : Round σ} (reads : r.Reads)
    (there : ∀ u n result, r.stage ≠ .moved u n result) : r.Carries :=
  ⟨reads, fun u n hm => absurd hm (there u n _)⟩

theorem Carries.move {peers : Peers σ} {w w' : World σ} {r r' : Round σ} (h : r.Carries)
    (hm : Move peers w r w' r') : r'.Carries := by
  have hr := (h.reads.move hm).2
  cases hm with
  | idle => exact h
  | moves u published ns here =>
    refine ⟨hr, fun v n hv => ?_⟩
    rcases w.store.moveCheckpoint_cases u ⟨r.transaction.sequence⟩ with ⟨x, -, he⟩ | ⟨held, he⟩
    · simp [he] at hv
    · simp only [he, Stage.moved.injEq] at hv
      obtain ⟨rfl, -, -⟩ := hv
      exact ⟨rfl, rfl⟩
  | refused | opens | locks | collects | seeks | recalls | announces | replays | publishes
  | commits | leaves => exact carries_of_stage hr (by simp)

theorem Carries.cancel {r : Round σ} (h : r.Carries) (w : World σ) : (r.cancel w).2.Carries := by
  rcases r.cancel_cases w with ⟨-, he⟩ | ⟨-, he⟩ | ⟨u, -, he⟩
  · rwa [he]
  · rw [he]
    exact carries_of_stage (reads_of_rank_eq_zero rfl) (by simp)
  · rw [he]
    exact carries_of_stage (reads_of_rank_eq_zero rfl) (by simp)

/-- What a step of a round makes durable: nothing, unless it is its last one and it has relayed. -/
theorem Carries.ledger {peers : Peers σ} {w w' : World σ} {r r' : Round σ} (h : r.Carries)
    (hm : Move peers w r w' r') :
    (w'.store.ledger = w.store.ledger ∧
      ∀ n c, r'.stage = .ended (.ok (.relayed n c)) → r'.stage = r.stage) ∨
    ∃ n, r.stage.rank ≠ 0 ∧ r'.stage = .ended (.ok (.relayed n r.transaction.sequence)) ∧
      w'.store.ledger = { w.store.ledger with checkpoint := ⟨r.transaction.sequence⟩ } := by
  cases hm with
  | idle => exact .inl ⟨rfl, fun _ _ _ => rfl⟩
  | locks u here =>
    rcases w.store.readCheckpoint_cases u with ⟨found, -, he⟩ | ⟨held, he⟩ <;>
      exact .inl ⟨by rw [he], by simp⟩
  | publishes u a batch here => exact .inl ⟨by rw [World.publish_store], by simp⟩
  | moves u published ns here =>
    rcases w.store.moveCheckpoint_cases u ⟨r.transaction.sequence⟩ with ⟨x, -, he⟩ | ⟨held, he⟩ <;>
      exact .inl ⟨by rw [he], by simp⟩
  | commits u published n here =>
    obtain ⟨hu, hc⟩ := h.staged u published here
    have hr : u.ReadOnly := h.reads u (by rw [here]; rfl)
    refine .inr ⟨published, by rw [here]; exact Nat.succ_ne_zero 0, rfl, ?_⟩
    change w.store.ledger.absorb u = _
    rw [Ledger.absorb_readOnly _ hr, hu, hc]
    rfl
  | leaves u result ns here still =>
    refine .inl ⟨rfl, fun n c hr => ?_⟩
    cases hr
    exact absurd (still _ rfl) (by simp [RoundOutcome.advanced])
  | refused | opens | collects | seeks | recalls | announces | replays =>
    exact .inl ⟨rfl, by simp⟩

theorem Move.silent {peers : Peers σ} {w w' : World σ} {r r' : Round σ}
    (hm : Move peers w r w' r') (hs : r'.stage.silent = true) :
    r.stage.silent = true ∧ w'.batches = w.batches := by
  cases hm with
  | idle => exact ⟨hs, rfl⟩
  | refused | moves | commits => simp [Stage.silent, Stage.accepted, RoundOutcome.advanced] at hs
  | opens here | locks u here | collects u c here | seeks u e es here
  | recalls u es first a b found here | announces u es first a b c found batch n here
  | replays u es hs a b c batch n here =>
    rw [here]
    exact ⟨rfl, rfl⟩
  | publishes u a batch here =>
    rw [here]
    refine ⟨rfl, ?_⟩
    cases hp : peers.publish batch with
    | error x => simp [World.publish, hp]
    | ok _ => simp [World.publish, hp, Stage.silent, Stage.accepted] at hs
  | leaves u result ns here still excuse unsent =>
    cases result with
    | error x => cases hs
    | ok o =>
      have ha := unsent o rfl
      refine ⟨?_, rfl⟩
      cases ht : r.stage <;> simp_all [Stage.unit?, Stage.silent]

theorem silent_cancel {w : World σ} {r : Round σ} (hs : (r.cancel w).2.stage.silent = true) :
    r.stage.silent = true := by
  rcases r.cancel_cases w with ⟨-, he⟩ | ⟨-, he⟩ | ⟨u, -, he⟩
  · rwa [he] at hs
  · rw [he] at hs
    cases hs
  · rw [he] at hs
    cases hs

theorem cancel_ledger (w : World σ) (r : Round σ) :
    (r.cancel w).1.store.ledger = w.store.ledger := by
  rcases r.cancel_cases w with ⟨-, he⟩ | ⟨-, he⟩ | ⟨u, -, he⟩ <;> rw [he]
  exact Store.release_ledger ..

end Round

namespace Pool
variable {ι : Type} [DecidableEq ι]

def sends (p : Pool ι σ) : Action ι σ → List (Sending ι σ)
  | .step i peers told =>
    ((p.act (.step i peers told)).world.batches.drop p.world.batches.length).map (⟨i, ·⟩)
  | _ => []

theorem sends_eq_nil {p : Pool ι σ} {x : Action ι σ}
    (h : (p.act x).world.batches = p.world.batches) : p.sends x = [] := by
  cases x with
  | step i peers told => simp [sends, h]
  | _ => rfl

theorem sender_of_mem_sends {p : Pool ι σ} {x : Action ι σ} {i : ι} (hx : x.isBy i = false)
    {s : Sending ι σ} (hs : s ∈ p.sends x) : s.sender ≠ i := by
  cases x with
  | step j peers told =>
    obtain ⟨b, -, rfl⟩ := List.mem_map.mp hs
    simpa [Action.isBy] using hx
  | _ => cases hs

/-- A round that was called for a transaction, after a run. -/
structure Rounds (p₀ : Pool ι σ) (i : ι) (t : Transaction) (acts : List (Action ι σ))
    (r : Round σ) : Prop where
  here : (p₀.run acts).agents i = .task (.round r)
  transaction : r.transaction = t
  carries : r.Carries
  silent : r.stage.silent = true → ∀ s ∈ record sends p₀ acts, s.sender ≠ i

section
variable {p₀ : Pool ι σ} {i : ι} {t : Transaction}

theorem rounds_nil {provider : Uuid → Aggregate σ}
    (called : p₀.agents i = (Call.relay t provider).agent) :
    Rounds p₀ i t [] { transaction := t, provider } where
  here := called
  transaction := rfl
  carries := Round.carries_of_stage (Round.reads_of_waiting rfl) (by simp)
  silent _ s hs := nomatch hs

theorem Rounds.other {acts : List (Action ι σ)} {r : Round σ} (h : Rounds p₀ i t acts r)
    {x : Action ι σ} (hx : x.isBy i = false) : Rounds p₀ i t (acts ++ [x]) r where
  here := by
    rw [run_append]
    exact agents_act_of_not_isBy h.here hx
  transaction := h.transaction
  carries := h.carries
  silent hs s hm := by
    rw [record_concat] at hm
    rcases List.mem_append.mp hm with hm | hm
    · exact h.silent hs s hm
    · exact sender_of_mem_sends hx hm

theorem Rounds.step {acts : List (Action ι σ)} {r : Round σ} (h : Rounds p₀ i t acts r)
    (peers : Peers σ) (told : Bool) :
    Rounds p₀ i t (acts ++ [.step i peers told]) (r.step peers (p₀.run acts).world).2 := by
  have hm := r.step_move peers (p₀.run acts).world
  have hw := world_step_task h.here peers told
  refine ⟨?_, hm.transaction.trans h.transaction, h.carries.move hm, fun hs s hs' => ?_⟩
  · rw [run_append]
    exact agents_step_task h.here peers told
  · obtain ⟨hq, hb⟩ := hm.silent hs
    have hn : ((p₀.run acts).act (.step i peers told)).world.batches =
        (p₀.run acts).world.batches := by
      rw [hw]
      exact hb
    rw [record_concat, sends_eq_nil hn, List.append_nil] at hs'
    exact h.silent hq s hs'

theorem Rounds.cancel {acts : List (Action ι σ)} {r : Round σ} (h : Rounds p₀ i t acts r) :
    Rounds p₀ i t (acts ++ [.cancel i]) (r.cancel (p₀.run acts).world).2 := by
  refine ⟨?_, ?_, h.carries.cancel _, fun hs s hs' => ?_⟩
  · rw [run_append]
    exact agents_cancel_task h.here
  · rw [Round.transaction_cancel, h.transaction]
  · have hn : (p₀.run acts).sends (.cancel i) = [] := rfl
    rw [record_concat, hn, List.append_nil] at hs'
    exact h.silent (Round.silent_cancel hs) s hs'

theorem Rounds.run {provider : Uuid → Aggregate σ}
    (called : p₀.agents i = (Call.relay t provider).agent) (acts : List (Action ι σ)) :
    ∃ r, Rounds p₀ i t acts r := by
  have hq : ∃ t', (p₀.run acts).agents i = .task t' ∧ ∃ r, t' = .round r ∧ Rounds p₀ i t acts r := by
    refine task_run (P := fun acts t' => ∃ r, t' = .round r ∧ Rounds p₀ i t acts r) called
      ⟨_, rfl, rounds_nil called⟩ ?_ ?_ ?_ acts
    · rintro acts t' x - ⟨r, rfl, h⟩ hx
      exact ⟨r, rfl, h.other hx⟩
    · rintro acts t' peers told - ⟨r, rfl, h⟩
      exact ⟨_, rfl, h.step peers told⟩
    · rintro acts t' - ⟨r, rfl, h⟩
      exact ⟨_, rfl, h.cancel⟩
  obtain ⟨-, -, r, -, h⟩ := hq
  exact ⟨r, h⟩

end

/-- Whatever the store holds and fails at, whatever others do beside it and wherever it is given up:
of all that is durable a round changes the checkpoint only, and that only when it ends having
relayed, to the place of its transaction; it locks the checkpoint only while that is free, and
however it ends, the checkpoint is not locked any more, if the round had locked it, and as locked as
it was, if not; if it ends with the checkpoint that far already, or locked by another, it has had
nothing published; and it ends within nine steps. -/
theorem footprint_of_round {p : Pool ι σ} {i : ι} {t : Transaction} {provider : Uuid → Aggregate σ}
    (called : p.agents i = (Call.relay t provider).agent) (acts : List (Action ι σ))
    {x : Action ι σ} (own : x.isBy i = true) :
    let before := p.run acts
    let after := p.run (acts ++ [x])
    ∃ r r', before.agents i = .task (.round r) ∧ after.agents i = .task (.round r') ∧
      ((after.ledger = before.ledger ∧
          ∀ n c, r'.stage = .ended (.ok (.relayed n c)) → r'.stage = r.stage) ∨
        ∃ n, r.stage.rank ≠ 0 ∧ r'.stage = .ended (.ok (.relayed n t.sequence)) ∧
          after.ledger = { before.ledger with checkpoint := ⟨t.sequence⟩ }) ∧
      before.world.store.Hands (UnitOfWork.holds r.stage.unit?) after.world.store
        (UnitOfWork.holds r'.stage.unit?) ∧
      (r'.stage.unit? = none →
        after.world.store.checkpointHeld =
          (before.world.store.checkpointHeld && !UnitOfWork.holds r.stage.unit?)) ∧
      (∀ o, r'.stage = .ended (.ok o) → o.advanced = false →
        ∀ s ∈ record sends p (acts ++ [x]), s.sender ≠ i) ∧
      (9 ≤ acts.countP (Action.isStepOf i) → r.stage.rank = 0) := by
  intro before after
  obtain ⟨r, h⟩ := Rounds.run called acts
  have hend : 9 ≤ acts.countP (Action.isStepOf i) → r.stage.rank = 0 := by
    intro hn
    obtain ⟨t', ht, hr⟩ := rank_run called acts
    cases h.here.symm.trans ht
    have hk : (Task.round { transaction := t, provider } : Task σ).rank = 9 := rfl
    have hz : (Task.round r).rank = 0 := by omega
    exact hz
  cases x with
  | step j peers told =>
    obtain rfl : j = i := by simpa [Action.isBy] using own
    have hs := h.step peers told
    have hm := r.step_move peers before.world
    have hw : after.world = (r.step peers before.world).1 :=
      (congrArg world (run_append ..)).trans (world_step_task h.here peers told)
    refine ⟨r, _, h.here, hs.here, ?_, ?_, fun hu => ?_, fun o ho ha => hs.silent ?_, hend⟩
    · simpa only [ledger, hw, h.transaction] using h.carries.ledger hm
    · rw [hw]
      exact hm.trades.hands
    · rw [hw]
      exact hm.trades.lock_of_ended hu
    · rw [ho, Round.Stage.silent, ha]
      rfl
  | cancel j =>
    obtain rfl : j = i := by simpa [Action.isBy] using own
    have hs := h.cancel
    have hw : after.world = (r.cancel before.world).1 :=
      (congrArg world (run_append ..)).trans (world_cancel_task h.here)
    refine ⟨r, _, h.here, hs.here, .inl ⟨?_, fun n c he => ?_⟩, ?_, fun hu => ?_,
      fun o ho ha => hs.silent ?_, hend⟩
    · rw [ledger, hw, Round.cancel_ledger]
      rfl
    · rcases r.cancel_cases before.world with ⟨-, hc⟩ | ⟨-, hc⟩ | ⟨u, -, hc⟩
      · rw [hc]
      · rw [hc] at he
        cases he
      · rw [hc] at he
        cases he
    · rw [hw]
      exact (r.trades_cancel before.world).hands
    · rw [hw]
      exact (r.trades_cancel before.world).lock_of_ended hu
    · rw [ho, Round.Stage.silent, ha]
      rfl
  | notify j place => cases own
  | fail operations => cases own

def passingOn : Pool Unit User :=
  start signedUp.world fun _ => .relay ⟨.ofNat 1, .ofNat 1, 1⟩ User.new

/-- The eighth step of that round moves the checkpoint, and does nothing else to the store that
lasts. -/
theorem footprint_of_round_passingOn :
    passingOn.agents () = (Call.relay ⟨.ofNat 1, .ofNat 1, 1⟩ User.new).agent ∧
    (Action.go () : Action Unit User).isBy () = true ∧
    (passingOn.run (List.replicate 8 (.go ()))).ledger =
      { (passingOn.run (List.replicate 7 (.go ()))).ledger with checkpoint := ⟨1⟩ } ∧
    (passingOn.run (List.replicate 8 (.go ()))).world.store.checkpointHeld = false := by
  have called : passingOn.agents () = (Call.relay ⟨.ofNat 1, .ofNat 1, 1⟩ User.new).agent := rfl
  obtain ⟨r, r', hr, hr', hl, -, hh, -⟩ :=
    footprint_of_round called (List.replicate 7 (.go ())) (x := .go ()) rfl
  have hq : ∃ q, (passingOn.run (List.replicate 7 (.go ()))).agents () = .task (.round q) ∧
      q.stage.rank = 1 ∧ UnitOfWork.holds q.stage.unit? = true := ⟨_, rfl, rfl, rfl⟩
  have hq' : ∃ q, (passingOn.run (List.replicate 7 (.go ()) ++ [.go ()])).agents () =
      .task (.round q) ∧ q.stage = .ended (.ok (.relayed 2 1)) := ⟨_, rfl, rfl⟩
  obtain ⟨q, hq, hrank, hholds⟩ := hq
  obtain ⟨q', hq', hstage⟩ := hq'
  cases hr.symm.trans hq
  cases hr'.symm.trans hq'
  refine ⟨called, rfl, ?_, ?_⟩
  · rcases hl with ⟨-, still⟩ | ⟨n, -, -, moved⟩
    · have he := still 2 1 hstage
      rw [← he, hstage] at hrank
      cases hrank
    · exact moved
  · have hf := hh (by rw [hstage]; rfl)
    rw [hholds, Bool.not_true, Bool.and_false] at hf
    exact hf

end Pool
end Outbox
