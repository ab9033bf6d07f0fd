import Outbox.Proofs.Alone

/-! Snapshots only save work. What is done one after another, on two stores that differ in their
snapshots, with a snapshot taken as often as one likes on either, has the same answers and leaves
the same behind, but for the snapshots. -/
namespace Outbox
variable {σ : Type} [Model σ]

inductive Errand (σ : Type) [Model σ]
  | handle (r : Request σ)
  | relay (t : Transaction)

inductive Answer
  | handled (result : Except Error Receipt)
  | relayed (result : Except Error RoundOutcome)

namespace Task

def complete (peers : Peers σ) (w : World σ) : Task σ → World σ × Task σ
  | handling h => match h.complete peers w with | (w, h) => (w, handling h)
  | round r => match r.complete peers w with | (w, r) => (w, round r)

theorem complete_handling (peers : Peers σ) (w : World σ) (h : Handling σ) :
    complete peers w (handling h) =
      ((h.complete peers w).1, handling (h.complete peers w).2) := rfl

theorem complete_round (peers : Peers σ) (w : World σ) (r : Round σ) :
    complete peers w (round r) = ((r.complete peers w).1, round (r.complete peers w).2) := rfl

def answer? : Task σ → Option Answer
  | handling h => match h.stage with | .ended result => some (.handled result) | _ => none
  | round r => match r.stage with | .ended result => some (.relayed result) | _ => none

end Task

namespace Errand

/-- The task that does an errand, with the cap that aggregates are given, whatever cap a request
came with. -/
def task (cap : Uuid → Int) : Errand σ → Task σ
  | handle r => .handling { r with cap := cap r.aggregateId }.handling
  | relay t => .round { transaction := t, provider := fun id => .new id (cap id) }

/-- Does one errand after another, each with its own peers and caps, by its number. -/
def doAll (peers : Nat → Peers σ) (cap : Nat → Uuid → Int) :
    World σ → List (Errand σ) → World σ × List (Option Answer)
  | w, [] => (w, [])
  | w, e :: es =>
    let one := (e.task (cap 0)).complete (peers 0) w
    let rest := doAll (fun n => peers (n + 1)) (fun n => cap (n + 1)) one.1 es
    (rest.1, one.2.answer? :: rest.2)

end Errand

/-- Nothing is held or made to fail, and what is durable is as it should be. -/
structure World.Idle (w : World σ) : Prop where
  calm : w.store.failing = []
  unclaimed : w.store.claimed = []
  unlocked : w.store.checkpointHeld = false
  sound : w.store.ledger.Sound
  faithful : w.store.ledger.Faithful
  replayable : w.store.ledger.Replayable

/-- All that is durable is the same but the snapshots, and so is all that was published or saved. -/
structure World.Alike (w w' : World σ) : Prop where
  versions : w'.store.ledger.versions = w.store.ledger.versions
  events : w'.store.ledger.events = w.store.ledger.events
  log : w'.store.ledger.log = w.store.ledger.log
  checkpoint : w'.store.ledger.checkpoint = w.store.ledger.checkpoint
  batches : w'.batches = w.batches
  saved : w'.saved = w.saved

namespace Ledger

theorem step_relayed (l : Ledger σ) (result : Except Error RoundOutcome) :
    l.Step (l.relayed result) := by
  unfold relayed
  split
  · next n last =>
    have hs : l.Step (l.absorb { holdsCheckpoint := true, checkpoint := some ⟨last⟩ }) :=
      .relayed _ ⟨rfl, rfl, rfl, rfl⟩
    rwa [absorb_readOnly l ⟨rfl, rfl, rfl, rfl⟩] at hs
  · exact .still

end Ledger

namespace World

theorem idle_empty : ({} : World σ).Idle :=
  ⟨rfl, rfl, rfl, .empty, .empty, .empty⟩

theorem Idle.step [LawfulModel σ] {w w' : World σ} (h : w.Idle) {m : Ledger σ}
    (hm : w.store.ledger.Step m) (hs : w'.store = { w.store with ledger := m }) : w'.Idle := by
  constructor <;> rw [hs]
  · exact h.calm
  · exact h.unclaimed
  · exact h.unlocked
  · exact hm.sound h.sound
  · exact hm.faithful h.sound h.faithful
  · exact hm.replayable h.sound h.faithful h.replayable

theorem Alike.ledger {w w' : World σ} (h : w.Alike w') :
    w'.store.ledger = { w.store.ledger with snapshots := w'.store.ledger.snapshots } := by
  obtain ⟨hv, he, hl, hc, -, -⟩ := h
  cases hl' : w'.store.ledger
  simp_all

theorem Alike.of_ledger {w w' : World σ} {xs : List (SnapshotOf σ)}
    (hl : w'.store.ledger = { w.store.ledger with snapshots := xs }) (hb : w'.batches = w.batches)
    (hs : w'.saved = w.saved) : w.Alike w' := by
  constructor <;> simp [hl, hb, hs]

end World

namespace Errand

/-- Two tasks have come to the same, and nothing is left of them but that. -/
structure Agree (one other : World σ × Task σ) : Prop where
  idle : one.1.Idle
  idle' : other.1.Idle
  alike : one.1.Alike other.1
  answer : ∃ a, one.2.answer? = some a ∧ other.2.answer? = some a

theorem answer?_of_ended {result : Except Error RoundOutcome} {next : World σ × Round σ}
    (h : next.2.stage = .ended result) :
    (Task.round next.2).answer? = some (.relayed result) := by
  simp only [Task.answer?, h]

theorem answer?_of_handled {result : Except Error Receipt} {next : World σ × Handling σ}
    (h : next.2.stage = .ended result) :
    (Task.handling next.2).answer? = some (.handled result) := by
  simp only [Task.answer?, h]

section
variable [LawfulModel σ] {w w' : World σ} (h : w.Alike w') (hw : w.Idle) (hw' : w'.Idle)
  (peers : Peers σ)
include h hw hw'

theorem agree_handle (r : Request σ) (cap cap' : Uuid → Int) :
    Agree (((handle r).task cap).complete peers w) (((handle r).task cap').complete peers w') := by
  have h₁ := Request.ends_complete { r with cap := cap r.aggregateId } peers hw.calm hw.unclaimed
    hw.sound hw.faithful hw.replayable
  have h₂ := Request.ends_complete { r with cap := cap' r.aggregateId } peers hw'.calm
    hw'.unclaimed hw'.sound hw'.faithful hw'.replayable
  have hi := hw.step (Ledger.step_handle hw.sound peers _) h₁.store
  have hi' := hw'.step (Ledger.step_handle hw'.sound peers _) h₂.store
  obtain ⟨xs, hr⟩ := w.store.ledger.handle_cap peers { r with cap := cap r.aggregateId }
    w'.store.ledger.snapshots (cap' r.aggregateId)
  rw [← h.ledger] at hr
  rw [hr] at h₂
  simp only [task, Task.complete_handling] at h₁ h₂ hi hi' ⊢
  generalize Handling.complete peers w _ = one at h₁ hi ⊢
  generalize Handling.complete peers w' _ = other at h₂ hi' ⊢
  have hl : other.1.store.ledger = { one.1.store.ledger with snapshots := xs } := by
    rw [h₁.store, h₂.store]
  have hb : other.1.batches = one.1.batches := by rw [h₁.batches, h₂.batches, h.batches]
  have hs : other.1.saved = one.1.saved := by rw [h₁.saved, h₂.saved, h.saved]
  exact ⟨hi, hi', .of_ledger hl hb hs, .handled _, answer?_of_handled h₁.stage,
    answer?_of_handled h₂.stage⟩

theorem agree_relay (t : Transaction) (cap cap' : Uuid → Int) :
    Agree (((relay t).task cap).complete peers w) (((relay t).task cap').complete peers w') := by
  have h₁ := Round.ends_complete (t := t) cap peers hw.calm hw.unlocked hw.sound hw.faithful
    hw.replayable
  have h₂ := Round.ends_complete (t := t) cap' peers hw'.calm hw'.unlocked hw'.sound hw'.faithful
    hw'.replayable
  have hr : w'.store.ledger.relay peers t = w.store.ledger.relay peers t := by
    rw [h.ledger]
    rfl
  rw [hr] at h₂
  have ht (c : Uuid → Int) : (relay t : Errand σ).task c =
      .round (Round.stands t (fun id => .new id (c id)) .waiting) := rfl
  rw [ht cap, ht cap', Task.complete_round, Task.complete_round]
  generalize Round.complete peers w (Round.stands t (fun id => .new id (cap id)) .waiting) = one
    at h₁ ⊢
  generalize Round.complete peers w' (Round.stands t (fun id => .new id (cap' id)) .waiting) = other
    at h₂ ⊢
  have hl : other.1.store.ledger =
      { one.1.store.ledger with snapshots := w'.store.ledger.snapshots } := by
    rw [h₁.store, h₂.store, h.ledger]
    rcases (w.store.ledger.relay peers t).1 with x | _ | _ | _ <;> rfl
  have hb : other.1.batches = one.1.batches := by rw [h₁.batches, h₂.batches, h.batches]
  have hs : other.1.saved = one.1.saved := by rw [h₁.saved, h₂.saved, h.saved]
  exact ⟨hw.step (w.store.ledger.step_relayed _) h₁.store,
    hw'.step (w'.store.ledger.step_relayed _) h₂.store, .of_ledger hl hb hs,
    .relayed (w.store.ledger.relay peers t).1, answer?_of_ended h₁.stage,
    answer?_of_ended h₂.stage⟩

/-- An errand comes to the same in two worlds that are alike, whatever caps are chosen. -/
theorem agree_task (e : Errand σ) (cap cap' : Uuid → Int) :
    Agree ((e.task cap).complete peers w) ((e.task cap').complete peers w') := by
  cases e with
  | handle r => exact agree_handle h hw hw' peers r cap cap'
  | relay t => exact agree_relay h hw hw' peers t cap cap'

end

theorem alike_doAll [LawfulModel σ] {w w' : World σ} (h : w.Alike w') (hw : w.Idle)
    (hw' : w'.Idle) (peers : Nat → Peers σ) (cap cap' : Nat → Uuid → Int) (es : List (Errand σ)) :
    (doAll peers cap w es).2 = (doAll peers cap' w' es).2 ∧
      (∀ a ∈ (doAll peers cap w es).2, a.isSome) ∧
      (doAll peers cap w es).1.Alike (doAll peers cap' w' es).1 := by
  induction es generalizing w w' peers cap cap' with
  | nil => exact ⟨rfl, by simp [doAll], h⟩
  | cons e es ih =>
    obtain ⟨hi, hi', ha, a, h₁, h₂⟩ := agree_task h hw hw' (peers 0) e (cap 0) (cap' 0)
    obtain ⟨hr, hn, hd⟩ := ih ha hi hi' (fun n => peers (n + 1)) (fun n => cap (n + 1))
      (fun n => cap' (n + 1))
    simp only [doAll, h₁, h₂, hr]
    refine ⟨trivial, fun b hb => ?_, hd⟩
    rcases List.mem_cons.mp hb with rfl | hb
    · rfl
    · exact hn b (hr ▸ hb)

/-- Whatever is done one after another, beginning with nothing, and whatever caps are chosen for it:
the answers are the same, each in its place, and so is all that is durable but the snapshots, and
all that was published and saved. -/
theorem alike_doAll_empty [LawfulModel σ] (peers : Nat → Peers σ) (cap cap' : Nat → Uuid → Int)
    (es : List (Errand σ)) :
    (doAll peers cap {} es).2 = (doAll peers cap' {} es).2 ∧
      (∀ a ∈ (doAll peers cap {} es).2, a.isSome) ∧
      (doAll peers cap {} es).1.Alike (doAll peers cap' {} es).1 :=
  alike_doAll ⟨rfl, rfl, rfl, rfl, rfl, rfl⟩ World.idle_empty World.idle_empty peers cap cap' es

/-- A user signs up and in, and both are relayed. -/
def signUpAndIn : List (Errand User) :=
  [.handle (.ofUser 1 1 (User.signUp "a@example.com")), .handle (.ofUser 1 2 (User.signIn "phone")),
    .relay ⟨.ofNat 2, .ofNat 1, 2⟩]

theorem alike_doAll_empty_signUpAndIn :
    let often := doAll (fun _ => .accepting) (fun _ _ => 1) {} signUpAndIn
    let never := doAll (fun _ => .accepting) (fun _ _ => 0) {} signUpAndIn
    often.1.store.ledger.snapshots.map Snapshot.version = [2, 3] ∧
      never.1.store.ledger.snapshots.map Snapshot.version = [] ∧
      often.1.published.length = 3 ∧ often.2 = never.2 ∧ often.1.Alike never.1 := by
  intro often never
  obtain ⟨ha, -, hl⟩ := alike_doAll_empty (fun _ => .accepting) (fun _ _ => 1) (fun _ _ => 0)
    signUpAndIn
  exact ⟨by decide +kernel, by decide +kernel, by decide +kernel, ha, hl⟩

end Errand
end Outbox
