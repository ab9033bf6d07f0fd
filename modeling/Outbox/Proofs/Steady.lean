import Outbox.Proofs.Lock
import Outbox.Proofs.Range
import Outbox.Proofs.Turn

/-! A round beside others of its kind: what it holds and has found stays true because nobody else
moves the checkpoint while it is locked. -/
namespace Outbox
variable {σ : Type} [Model σ]

namespace Round

structure Steady (l : Ledger σ) (r : Round σ) : Prop where
  fresh : r.Fresh
  logged : ∀ u, r.stage.unit? = some u → r.transaction.sequence ≤ l.log.length
  holds : Holds l r.transaction r.stage
  /-- The lock is kept even if the checkpoint cannot be moved. -/
  grips : ∀ u n x, r.stage = .moved u n (.error x) → u.holdsCheckpoint = true

theorem unit?_of_rank_eq_zero {stage : Stage σ} (h : stage.rank = 0) : stage.unit? = none := by
  cases stage <;> first | rfl | cases h

def holdsCheckpoint (r : Round σ) : Bool := UnitOfWork.holds r.stage.unit?

theorem steady_of_unit?_eq_none {r : Round σ} (fresh : r.Fresh) (h : r.stage.unit? = none)
    (l : Ledger σ) : r.Steady l := by
  refine ⟨fresh, fun u hu => ?_, ?_, fun u n x hs => ?_⟩
  · rw [h] at hu
    cases hu
  · cases hs : r.stage <;> first | trivial | simp [hs, Stage.unit?] at h
  · simp [hs, Stage.unit?] at h

namespace Steady
variable {l m : Ledger σ} {r : Round σ}

theorem mono (h : r.Steady l) (hm : l.Later m) (hl : l.Dense) (hd : m.Dense) : r.Steady m := by
  cases hu : r.stage.unit? with
  | none => exact steady_of_unit?_eq_none h.fresh hu m
  | some u =>
    have hn : (l.log.length : Int) ≤ m.log.length := Int.ofNat_le.mpr hm.log.length_le
    have hs := h.logged u hu
    exact ⟨h.fresh, fun _ _ => Int.le_trans hs hn, h.holds.mono hm hl hd hs, h.grips⟩

theorem relay (h : r.Steady l) (apart : r.holdsCheckpoint = false) (c : Checkpoint) :
    r.Steady { l with checkpoint := c } := by
  refine ⟨h.fresh, h.logged, ?_, h.grips⟩
  have hh := h.holds
  have hg := h.grips
  unfold holdsCheckpoint at apart
  have hk {u : UnitOfWork σ} {es : List (EventOf σ)} (hk : Locked l r.transaction u es) :
      UnitOfWork.holds (some u) = true := by
    rw [hk.unit]
    rfl
  cases hs : r.stage with
  | waiting | ended | cancelled => trivial
  | opened u =>
    rw [hs] at hh
    exact hh
  | sawCheckpoint u found =>
    rw [hs] at hh apart
    intro c hc
    rw [(hh c hc).1] at apart
    cases apart
  | sawUnhandled u found =>
    rw [hs] at hh apart
    rw [hh.1] at apart
    cases apart
  | sawSnapshot u es first a found =>
    rw [hs] at hh apart
    exact absurd (hk hh.1) (ne_true_of_eq_false apart)
  | sawHistory u es a found =>
    rw [hs] at hh apart
    exact absurd (hk hh.1) (ne_true_of_eq_false apart)
  | publishing u a batch =>
    rw [hs] at hh apart
    exact absurd (hk hh.1) (ne_true_of_eq_false apart)
  | published u a n result =>
    rw [hs] at hh apart
    exact absurd (hk hh.1) (ne_true_of_eq_false apart)
  | moved u n result =>
    rw [hs] at hh apart
    cases result with
    | ok _ =>
      rw [hh.2.2 rfl] at apart
      cases apart
    | error x => exact absurd (hg u n x hs) (ne_true_of_eq_false apart)

/-- A round has had nothing published before it has locked the checkpoint. -/
theorem holds_of_accepted (h : r.Steady l) (ha : r.stage.accepted = true) :
    r.holdsCheckpoint = true := by
  have hh := h.holds
  cases hs : r.stage with
  | published u a n result =>
    rw [hs] at hh
    rw [holdsCheckpoint, hs, Stage.unit?, hh.1.unit]
    rfl
  | moved u n result =>
    rw [hs] at hh
    rw [holdsCheckpoint, hs]
    cases result with
    | ok _ =>
      rw [Stage.unit?, hh.2.2 rfl]
      rfl
    | error x => exact h.grips u n x hs
  | _ => simp [hs, Stage.accepted] at ha

theorem sent_eq_nil (h : r.Steady l) (apart : r.holdsCheckpoint = false) :
    Round.sent l r.transaction r.stage = [] := by
  refine if_neg fun ha => ?_
  rw [h.holds_of_accepted ha] at apart
  cases apart

theorem sent_eq (h : r.Steady l) (hm : l.Later m) :
    Round.sent m r.transaction r.stage = Round.sent l r.transaction r.stage := by
  cases ha : r.stage.accepted with
  | false => simp only [Round.sent, ha, if_neg (Bool.false_ne_true)]
  | true =>
    have hu : ∃ u, r.stage.unit? = some u := by
      cases hs : r.stage <;> simp_all [Stage.accepted, Stage.unit?]
    obtain ⟨u, hu⟩ := hu
    simp only [Round.sent, hm.parcels (h.logged u hu)]

theorem mem_events_of_mem_sent {es : List (EventOf σ)} {e : EventOf σ}
    (hs : es ∈ Round.sent l r.transaction r.stage) (he : e ∈ es) : e ∈ l.events := by
  unfold Round.sent at hs
  split at hs
  · exact (Ledger.mem_batch.mp (List.mem_flatten.mpr ⟨es, hs, he⟩)).1
  · cases hs

end Steady

theorem Holds.grips {peers : Peers σ} {w w' : World σ} {r r' : Round σ}
    (h : Holds w.store.ledger r.transaction r.stage)
    (hg : ∀ u n x, r.stage = .moved u n (.error x) → u.holdsCheckpoint = true)
    (hm : Move peers w r w' r') (u : UnitOfWork σ) (n : Nat) (x : Error)
    (there : r'.stage = .moved u n (.error x)) : u.holdsCheckpoint = true := by
  cases hm with
  | idle => exact hg u n x there
  | moves v published ns here =>
    obtain ⟨rfl, -⟩ := h.of_moves here
    rcases w.store.moveCheckpoint_cases .locking ⟨r.transaction.sequence⟩ with
      ⟨y, -, he⟩ | ⟨held, he⟩
    · rw [he] at there
      cases there
      rfl
    · rw [he] at there
      cases there
  | refused | opens | locks | collects | seeks | recalls | announces | replays | publishes
  | commits | leaves => cases there

theorem Steady.step [LawfulModel σ] {peers : Peers σ} {w w' : World σ} {r r' : Round σ}
    (h : r.Steady w.store.ledger) (hl : w.store.ledger.Sound) (hf : w.store.ledger.Faithful)
    (heard : r.transaction.sequence ≤ w.store.ledger.log.length) (hm : Move peers w r w' r') :
    Effect w r w' r' ∧ r'.Steady w'.store.ledger := by
  have ht := hm.transaction
  have hfr := hm.fresh h.fresh
  have hh := h.holds
  have hg := hh.grips h.grips hm
  have he := hh.effect hl hf h.fresh hm
  refine ⟨he, ?_⟩
  cases he with
  | idles ended world round =>
    subst world round
    exact h
  | ends ended => exact steady_of_unit?_eq_none hfr (unit?_of_rank_eq_zero ended) _
  | goes further holds ledger =>
    rw [ledger]
    exact ⟨hfr, fun _ _ => ht ▸ heard, ht ▸ holds, hg⟩
  | publishes u a batch here ledger batches there =>
    rw [here] at hh
    obtain ⟨hk, hb⟩ := hh
    have hn : batch.length = a.changes.length := by simpa using congrArg List.length hb
    rw [ledger]
    refine ⟨hfr, fun _ _ => ht ▸ heard, ?_, hg⟩
    rw [there, ht]
    exact ⟨hk, hn⟩
  | moves n here ledger batches there =>
    exact steady_of_unit?_eq_none hfr (by rw [there]; rfl) _

end Round
end Outbox
