import Outbox.Proofs.Caps
import Outbox.Proofs.Lock
import Outbox.Proofs.Places

/-! Writing and relaying keep out of each other's way: a request and a round for a transaction that
is in the log already come to the same in either order, and leave the same behind. -/
namespace Outbox
variable {σ : Type} [Model σ]

namespace Ledger

/-- What is told of events does not change, whatever is committed after those before them. -/
theorem Grows.told {l m : Ledger σ} (h : l.Grows m) {id : Uuid} {first : Int}
    (hfirst : first - 1 ≤ (l.stream id).length) (es : List (EventOf σ)) :
    m.told id first es = l.told id first es := by
  rw [Ledger.told, Ledger.told, h.stateAt (by omega)]

/-- What is committed after a transaction makes no difference to the round for it. -/
theorem Later.relay {l m : Ledger σ} (h : l.Later m) (hl : l.Dense) {t : Transaction}
    (ht : t.sequence ≤ l.log.length) (peers : Peers σ) : m.relay peers t = l.relay peers t := by
  unfold Ledger.relay
  rw [h.checkpoint, h.due ht]
  cases hd : l.due t with
  | nil => rfl
  | cons e es =>
    have he : e ∈ l.stream t.aggregateId := (mem_due.mp (hd ▸ List.mem_cons_self)).1
    have hb := ((hl.numbered t.aggregateId).bounds he).2
    have hfirst : e.version - 1 ≤ (l.stream t.aggregateId).length := by omega
    simp only [h.told hfirst]

theorem later_handle {l : Ledger σ} (hl : l.Sound) (hg : l.Logged) (peers : Peers σ) {r : Request σ}
    (fresh : ∀ t ∈ l.log, t.id ≠ r.transactionId) : l.Later (l.handle peers r).2.1 := by
  cases h : l.verdict peers r with
  | error x =>
    rw [handle_of_error h]
    exact .refl l
  | ok s =>
    rw [handle_of_ok h]
    exact later_absorb_unit hl hg fresh

/-- Where the checkpoint stands makes no difference to a request. -/
theorem handle_relayed (l : Ledger σ) (peers : Peers σ) (r : Request σ)
    (result : Except Error RoundOutcome) :
    (l.relayed result).handle peers r =
      ((l.handle peers r).1, (l.handle peers r).2.1.relayed result, (l.handle peers r).2.2) := by
  have hv : (l.relayed result).verdict peers r = l.verdict peers r := by
    rcases result with x | _ | _ | _ <;> rfl
  cases h : l.verdict peers r with
  | error x => rw [handle_of_error h, handle_of_error (hv.trans h)]
  | ok s =>
    rw [handle_of_ok h, handle_of_ok (hv.trans h)]
    rcases result with x | _ | _ | _ <;> rfl

end Ledger

namespace Pool
variable {ι : Type} [DecidableEq ι]

def healed (calls : ι → Call σ) (acts : List (Action ι σ)) : World σ :=
  ((start {} calls).run (acts ++ [.fail []])).world

theorem logged_run (calls : ι → Call σ) (acts : List (Action ι σ)) :
    ((start {} calls).run acts).ledger.Logged := by
  induction acts using List.reverseRecOn with
  | nil =>
    intro e he
    cases he
  | append_singleton acts x ih =>
    rw [run_append]
    exact ((start_run_sound calls acts).act x).1.logged ih

theorem idle_healed [LawfulModel σ] {calls : ι → Call σ} {acts : List (Action ι σ)}
    (rest : ∀ i, (((start {} calls).run acts).agents i).unit? = none) :
    (healed calls acts).Idle where
  calm := by simp only [healed, run_append, run_cons, run_nil, act]
  unclaimed := by
    have he := (claimed_run calls acts).eq_nil rest
    simpa only [healed, run_append, run_cons, run_nil, act] using he
  unlocked := by
    have he : ((start {} calls).run acts).world.store.checkpointHeld = false := by
      refine Bool.eq_false_iff.mpr fun held => ?_
      obtain ⟨i, hi⟩ := ((guarded_start calls).run acts).someone held
      rw [Agent.holdsCheckpoint, rest i] at hi
      cases hi
    simpa only [healed, run_append, run_cons, run_nil, act] using he
  sound := sound_run calls _
  faithful := faithful_run calls _
  replayable := replayable_run calls _

/-- Whatever has happened before, once nothing is on its way or made to fail: a request under a new
transaction id and a round for a transaction that is in the log already come each to the same end,
whichever of them goes first, be it an error or not; and what is durable in the end, what has been
published and what has been saved are the same. -/
theorem commute_of_run [LawfulModel σ] {calls : ι → Call σ} {acts : List (Action ι σ)}
    (rest : ∀ i, (((start {} calls).run acts).agents i).unit? = none) (peers : Peers σ)
    (cap : Uuid → Int) {r : Request σ} {t : Transaction}
    (logged : t ∈ (healed calls acts).store.ledger.log)
    (fresh : ∀ s ∈ (healed calls acts).store.ledger.log, s.id ≠ r.transactionId) :
    let round : Round σ := { transaction := t, provider := fun id => .new id (cap id) }
    let handled := r.handling.complete peers (healed calls acts)
    let thenRelayed := round.complete peers handled.1
    let relayed := round.complete peers (healed calls acts)
    let thenHandled := r.handling.complete peers relayed.1
    (∃ result, handled.2.stage = .ended result ∧ thenHandled.2.stage = .ended result) ∧
      (∃ result, relayed.2.stage = .ended result ∧ thenRelayed.2.stage = .ended result) ∧
      thenRelayed.1.store = thenHandled.1.store ∧
      thenRelayed.1.batches = thenHandled.1.batches ∧
      thenRelayed.1.saved = thenHandled.1.saved := by
  intro round handled thenRelayed relayed thenHandled
  have hw : (healed calls acts).Idle := idle_healed rest
  have hlater := Ledger.later_handle hw.sound (logged_run calls _) peers fresh
  have ends_request {w : World σ} (h : w.Idle) :
      Handling.Ends w (w.store.ledger.handle peers r) (r.handling.complete peers w) :=
    Request.ends_complete r peers h.calm h.unclaimed h.sound h.faithful h.replayable
  have ends_round {w : World σ} (h : w.Idle) :
      Round.Ends w (w.store.ledger.relay peers t).1 (w.batches ++ (w.store.ledger.relay peers t).2)
        (round.complete peers w) :=
    Round.ends_complete cap peers h.calm h.unlocked h.sound h.faithful h.replayable
  have h₁ : Handling.Ends _ _ handled := ends_request hw
  have h₂ : Round.Ends _ _ _ thenRelayed :=
    ends_round (hw.step (Ledger.step_handle hw.sound peers r) h₁.store)
  have h₃ : Round.Ends _ _ _ relayed := ends_round hw
  have h₄ : Handling.Ends _ _ thenHandled :=
    ends_request (hw.step (Ledger.step_relayed _ _) h₃.store)
  clear_value thenRelayed thenHandled handled relayed
  have hround : handled.1.store.ledger.relay peers t =
      (healed calls acts).store.ledger.relay peers t := by
    rw [h₁.store]
    exact hlater.relay hw.sound.toDense (hw.sound.sequence_mem logged).2 peers
  rw [hround] at h₂
  rw [h₃.store, Ledger.handle_relayed] at h₄
  refine ⟨⟨_, h₁.stage, h₄.stage⟩, ⟨_, h₃.stage, h₂.stage⟩, ?_, ?_, ?_⟩
  · rw [h₂.store, h₁.store, h₄.store, h₃.store]
  · rw [h₂.batches, h₁.batches, h₄.batches, h₃.batches]
  · rw [h₂.saved, h₁.saved, h₄.saved, h₃.saved]

/-- The user who has signed up signs in, with a snapshot of every version. -/
def signingIn : Request User := { Request.ofUser 1 2 (User.signIn "phone") with cap := 1 }

/-- Signing in and passing on what happened when the user signed up come to the same in either
order: three versions, and two integration events that the snapshot has nothing to do with. -/
theorem commute_of_run_signingIn :
    let calls : Unit → Call User := fun _ => .request (.ofUser 1 1 (User.signUp "a@example.com"))
    let acts : List (Action Unit User) := List.replicate 6 (.go ())
    let w := healed calls acts
    let t : Transaction := ⟨.ofNat 1, .ofNat 1, 1⟩
    let round : Round User := { transaction := t, provider := fun id => .new id User.snapshotCap }
    let thenRelayed := (round.complete .accepting (signingIn.handling.complete .accepting w).1).1
    let thenHandled := (signingIn.handling.complete .accepting (round.complete .accepting w).1).1
    (∀ i, (((start {} calls).run acts).agents i).unit? = none) ∧ t ∈ w.store.ledger.log ∧
      (∀ s ∈ w.store.ledger.log, s.id ≠ signingIn.transactionId) ∧
      thenRelayed.store = thenHandled.store ∧ thenRelayed.batches = thenHandled.batches ∧
      thenHandled.store.ledger.version (.ofNat 1) = 3 ∧
      thenHandled.store.ledger.checkpoint = ⟨1⟩ ∧ thenHandled.published.length = 2 := by
  intro calls acts w t round thenRelayed thenHandled
  have rest : ∀ i, (((start {} calls).run acts).agents i).unit? = none := by
    rintro ⟨⟩
    decide
  have logged : t ∈ w.store.ledger.log := by decide +kernel
  have fresh : ∀ s ∈ w.store.ledger.log, s.id ≠ signingIn.transactionId := by decide +kernel
  obtain ⟨-, -, store, batches, -⟩ :=
    commute_of_run rest .accepting (fun _ => User.snapshotCap) logged fresh
  simp only [thenRelayed, thenHandled, round, w]
  exact ⟨rest, logged, fresh, store, batches, by decide +kernel, by decide +kernel,
    by decide +kernel⟩

end Pool
end Outbox
