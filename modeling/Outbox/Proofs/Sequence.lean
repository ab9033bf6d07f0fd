import Outbox.Proofs.Places
import Outbox.Proofs.Serial

/-! The log numbers what has been committed from 1 on, one transaction for each request that went
well, and orders every stream: what a range of the log holds of an aggregate are the events of
consecutive versions. -/
namespace Outbox
variable {σ : Type} [Model σ]

namespace Ledger

/-- How many committed events of an aggregate lie up to a place of the log. -/
def reached (l : Ledger σ) (id : Uuid) (place : Int) : Nat :=
  (l.stream id).countP (l.place · ≤ place)

theorem reached_le (l : Ledger σ) (id : Uuid) (place : Int) :
    l.reached id place ≤ (l.stream id).length := List.countP_le_length

theorem reached_mono (l : Ledger σ) (id : Uuid) {a u : Int} (h : a ≤ u) :
    l.reached id a ≤ l.reached id u := by
  refine List.countP_mono_left fun e _ he => ?_
  rw [decide_eq_true_eq] at he ⊢
  exact Int.le_trans he h

/-- What a range of the log holds of an aggregate lies, in its stream, between what lies up to the
start of the range and what lies up to its end. -/
theorem Ordered.within_eq {l : Ledger σ} (h : l.Ordered) (id : Uuid) (a u : Int) :
    l.within id ⟨a, u⟩ = ((l.stream id).take (l.reached id u)).drop (l.reached id a) := by
  have hsorted := h.pairwise_stream id
  have hrange : l.within id ⟨a, u⟩ =
      ((l.stream id).filter (l.place · ≤ u)).filter (a < l.place ·) := by
    rw [within, List.filter_filter]
    refine List.filter_congr fun e he => ?_
    rw [Bool.eq_iff_iff, h.isInRange_iff (mem_stream.mp he).1]
    simp
  by_cases hau : a ≤ u
  · have hcount : ((l.stream id).filter (l.place · ≤ u)).countP (l.place · ≤ a) =
        l.reached id a := by
      rw [List.countP_filter]
      refine List.countP_congr fun e _ => ?_
      simp only [Bool.and_eq_true, decide_eq_true_eq]
      exact ⟨And.left, fun ha => ⟨ha, Int.le_trans ha hau⟩⟩
    rw [hrange, filter_lt_of_pairwise (hsorted.filter _), hcount, filter_le_of_pairwise hsorted]
    rfl
  · have hle := l.reached_mono id (a := u) (u := a) (by omega)
    rw [List.drop_of_length_le (by rw [List.length_take]; omega), hrange, List.filter_filter]
    refine List.filter_eq_nil_iff.mpr fun e _ => ?_
    simp only [Bool.and_eq_true, decide_eq_true_eq]
    omega

theorem Ordered.eventsIn {l : Ledger σ} (h : l.Ordered) (hd : l.Dense) (id : Uuid) (a u : Int) :
    l.eventsIn id ⟨a, u⟩ = l.eventsBetween id (l.reached id a + 1) (some (l.reached id u)) ∧
      (l.eventsIn id ⟨a, u⟩).map Event.version =
        (List.range (l.reached id u - l.reached id a)).map fun k : Nat =>
          (l.reached id a : Int) + k + 1 := by
  have hin : l.eventsIn id ⟨a, u⟩ =
      ((l.stream id).take (l.reached id u)).drop (l.reached id a) :=
    (hd.eventsIn id ⟨a, u⟩).trans (h.within_eq id a u)
  refine ⟨hin.trans (hd.eventsBetween_upTo id _ _).symm, ?_⟩
  have hlen : ((l.stream id).take (l.reached id u)).length = l.reached id u :=
    List.length_take_of_le (l.reached_le id u)
  by_cases hau : l.reached id a ≤ l.reached id u
  · have hn := ((hd.numbered id).take (l.reached id u)).drop (hlen.symm ▸ hau)
    rw [hin, hn.map_version, List.length_drop, hlen, Int.zero_add]
  · rw [hin, List.drop_of_length_le (by omega), Nat.sub_eq_zero_of_le (by omega)]
    rfl

end Ledger

namespace Pool
variable {ι : Type} [DecidableEq ι]

/-- The log that requests leave behind that were committed in an order. -/
def logOf (requests : ι → Request σ) (order : List ι) : List Transaction :=
  order.mapIdx fun k i => ⟨(requests i).transactionId, (requests i).aggregateId, k + 1⟩

section
variable {requests : ι → Request σ}

theorem Sound.log_act {p : Pool ι σ} {order : List ι}
    (h : p.Sound fun i => .request (requests i)) (hlog : p.ledger.log = logOf requests order)
    (x : Action ι σ) : (p.act x).ledger.log = logOf requests (order ++ p.settles x) := by
  rcases h.act_request x with ⟨hl, hr⟩ | ⟨i, n, s, -, -, hl, hx, -, -⟩
  · rw [hl, hlog, settles_eq_nil hr, List.append_nil]
  · have hlen : p.ledger.log.length = order.length := by rw [hlog, logOf, List.length_mapIdx]
    rw [hl, Ledger.log_absorb_unit, h.ledger.nextSequence, hlen, hlog, hx, logOf, logOf,
      List.mapIdx_concat]

theorem Sound.log_run {p : Pool ι σ} (h : p.Sound fun i => .request (requests i))
    (hs : p.Settled []) (hlog : p.ledger.log = []) (acts : List (Action ι σ)) :
    (p.run acts).ledger.log = logOf requests (record settles p acts) ∧
      (p.run acts).Settled (record settles p acts) := by
  induction acts using List.reverseRecOn with
  | nil => exact ⟨hlog, hs⟩
  | append_singleton acts x ih =>
    have hr := (h.run acts).2
    rw [run_append, record_concat]
    exact ⟨hr.log_act ih.1 x, ih.2.act hr x⟩

end

theorem settled_run (requests : ι → Request σ) (acts : List (Action ι σ)) :
    ((start {} fun i => .request (requests i)).run acts).Settled
      (record settles (start {} fun i => .request (requests i)) acts) :=
  ((sound_start _ Ledger.Sound.empty).log_run (settled_start {} requests) rfl acts).2

/-- However requests go on side by side, fail or are given up: the log holds the transactions of
those that went well, in the order of their commits and numbered from 1 on; the transaction of
every event is there, under the aggregate of the event; and a reader of a range of the log is given,
of each aggregate, exactly the events of the versions after those up to the start of the range and
up to those at its end. So versions and places never disagree. -/
theorem sequence_of_run (requests : ι → Request σ)
    (distinct : Function.Injective fun i => (requests i).transactionId)
    (acts : List (Action ι σ)) :
    let p₀ := start {} fun i => .request (requests i)
    let l := (p₀.run acts).ledger
    let order := record settles p₀ acts
    l.log = logOf requests order ∧ (p₀.run acts).Settled order ∧
      (∀ e ∈ l.events, ∃ t ∈ l.log, t.id = e.transactionId ∧ t.aggregateId = e.aggregateId) ∧
      (∀ id a u,
        l.eventsIn id ⟨a, u⟩ = l.eventsBetween id (l.reached id a + 1) (some (l.reached id u)) ∧
          (l.eventsIn id ⟨a, u⟩).map Event.version =
            (List.range (l.reached id u - l.reached id a)).map fun k : Nat =>
              (l.reached id a : Int) + k + 1) ∧
      ∀ e ∈ l.events, ∀ f ∈ l.events, e.aggregateId = f.aggregateId →
        e.version ≤ f.version → l.place e ≤ l.place f := by
  intro p₀ l order
  have htidy := tidy_requests distinct acts
  have hd := htidy.sound.ledger.toDense
  obtain ⟨hlog, hsettled⟩ := (sound_start (fun i => .request (requests i))
    (w := {}) Ledger.Sound.empty).log_run (settled_start {} requests) rfl acts
  refine ⟨hlog, hsettled, fun e he => ?_, htidy.ordered.eventsIn hd, fun e he f hf hid hv => ?_⟩
  · obtain ⟨t, ht, hte⟩ := htidy.ordered.logged e he
    exact ⟨t, ht, hte, htidy.ordered.owner e he t ht hte⟩
  · exact htidy.ordered.place_le hd (Ledger.mem_stream.mpr ⟨he, hid⟩)
      (Ledger.mem_stream.mpr ⟨hf, rfl⟩) hv

/-- A user signs up; then another does while the first signs in. -/
def signUpsAndIn : Fin 3 → Request User
  | 0 => .ofUser 1 1 (User.signUp "a@example.com")
  | 1 => .ofUser 2 2 (User.signUp "b@example.com")
  | 2 => .ofUser 1 3 (User.signIn "phone")

/-- Of the three transactions, the range after the first holds the third version of the first
user. -/
theorem sequence_of_run_signUpsAndIn :
    (Function.Injective fun i => (signUpsAndIn i).transactionId) ∧
      let acts := List.replicate 6 (.go 0) ++ (List.replicate 6 [.go 1, .go 2]).flatten
      let l := ((start {} fun i => .request (signUpsAndIn i)).run acts).ledger
      l.log = logOf signUpsAndIn [0, 1, 2] ∧
        (l.eventsIn (.ofNat 1) ⟨1, 3⟩).map Event.version = [3] := by
  have distinct : Function.Injective fun i => (signUpsAndIn i).transactionId := by
    intro i j
    revert i j
    decide
  refine ⟨distinct, ?_⟩
  intro acts l
  obtain ⟨hlog, -, -, hin, -⟩ := sequence_of_run signUpsAndIn distinct acts
  have order : record settles (start {} fun i => .request (signUpsAndIn i)) acts = [0, 1, 2] := by
    decide +kernel
  have reached : l.reached (.ofNat 1) 1 = 2 ∧ l.reached (.ofNat 1) 3 = 3 := by
    decide +kernel
  refine ⟨order ▸ hlog, (hin (.ofNat 1) 1 3).2.trans ?_⟩
  rw [reached.1, reached.2]
  rfl

end Pool
end Outbox
