import Outbox.Proofs.Relaying
import Outbox.Proofs.Snapshots

/-! A round of the relay, or the handling of a request, while nothing else is at work: what it ends
with and what it leaves behind are a function of what is durable; for a round, of the events, the
log and the checkpoint, whatever snapshots there are. -/
namespace Outbox
variable {σ : Type} [Model σ]

/-- What other systems are told has nothing to do with how often a snapshot is taken. -/
theorem Aggregate.announce_cap (a : Aggregate σ) (cap : Int) (es : List (EventOf σ)) :
    ({ a with cap }.announce es).2 = (a.announce es).2 := by
  induction es generalizing a with
  | nil => rfl
  | cons e es ih =>
    by_cases hv : e.version = a.version + 1
    · cases hs : Model.apply a.state e with
      | error x => simp [announce, advance, hv, hs]
      | ok s =>
        have hi := ih { a with state := s, version := e.version, changes := a.changes ++ [e] }
        cases hp : Model.integration s e.eventType with
        | error x => simp [announce, advance, hv, hs, integrationEvent, hp]
        | ok payload =>
          simp only [announce, advance, hv, hs, integrationEvent, hp, if_true] at hi ⊢
          split <;> split <;> simp_all
    · simp [announce, advance, hv, invalidVersion]

namespace Ledger

/-- What events tell, one after another, from the state before a version. -/
def told (l : Ledger σ) (id : Uuid) (first : Int) (es : List (EventOf σ)) :
    Except Error (List (IntegrationOf σ)) :=
  match l.stateAt id (first - 1).toNat with
  | .error x => .error x
  | .ok s => ((Aggregate.loaded id 0 (first - 1) s).announce es).2

/-- What a round ends with and has published that has a batch for a transaction, or an error. -/
def deliver (peers : Peers σ) (t : Transaction) : Except Error (List (IntegrationOf σ)) →
    Except Error RoundOutcome × List (List (IntegrationOf σ))
  | .error x => (.error x, [])
  | .ok batch =>
    match peers.publish batch with
    | .error x => (.error x, [])
    | .ok () => (.ok (.relayed batch.length t.sequence), [batch])

/-- What a round for a transaction ends with, and what it has published. -/
def relay (l : Ledger σ) (peers : Peers σ) (t : Transaction) :
    Except Error RoundOutcome × List (List (IntegrationOf σ)) :=
  if t.sequence ≤ l.checkpoint.last then (.ok (.alreadyRelayed l.checkpoint.last), [])
  else
    match l.due t with
    | [] => (.ok (.relayed 0 t.sequence), [])
    | e :: es => deliver peers t (l.told t.aggregateId e.version (e :: es))

/-- A ledger with the checkpoint where the result of a round leaves it. -/
def relayed (l : Ledger σ) : Except Error RoundOutcome → Ledger σ
  | .ok (.relayed _ last) => { l with checkpoint := ⟨last⟩ }
  | _ => l

theorem canLoad_of_stateAt {l : Ledger σ} {id : Uuid} {n : Nat} {s : σ}
    (hn : (l.stream id).length = n) (h : l.stateAt id n = .ok s) : l.CanLoad id n s := by
  subst hn
  rw [stateAt, List.take_length] at h
  have hf : l.CanLoad id 0 Model.initial := .fresh
  have hc := hf.replay (List.prefix_refl (l.stream id)) h
  rwa [Nat.zero_add] at hc

end Ledger

def World.locked (w : World σ) (batches : List (List (IntegrationOf σ))) (notices : List Notice) :
    World σ :=
  { w with store := { w.store with checkpointHeld := true }, batches, notices }

theorem Store.release_locked {s : Store σ} (free : s.checkpointHeld = false) {u : UnitOfWork σ}
    (hc : u.claims = []) (hh : u.holdsCheckpoint = true) :
    { s with checkpointHeld := true }.release u = s := by
  cases s
  simp_all [release]

namespace Round

def stands (t : Transaction) (provider : Uuid → Aggregate σ) (stage : Stage σ) : Round σ :=
  ⟨t, provider, stage⟩

/-- The end of a round: nothing is held that was not before, and the checkpoint is where the result
says. -/
structure Ends (w : World σ) (result : Except Error RoundOutcome)
    (batches : List (List (IntegrationOf σ))) (next : World σ × Round σ) : Prop where
  store : next.1.store = { w.store with ledger := w.store.ledger.relayed result }
  batches : next.1.batches = batches
  saved : next.1.saved = w.saved
  stage : next.2.stage = .ended result

section
variable {w : World σ} {result : Except Error RoundOutcome}
  {batches : List (List (IntegrationOf σ))}

theorem Ends.of_step {peers : Peers σ} {w₁ w₂ : World σ} {r₁ r₂ : Round σ}
    (hs : r₁.step peers w₁ = (w₂, r₂)) (h : Ends w result batches (r₂.complete peers w₂)) :
    Ends w result batches (r₁.complete peers w₁) := by
  rwa [complete_of_step hs]

end

theorem Ends.of_last {w w₁ : World σ} {result : Except Error RoundOutcome}
    {batches : List (List (IntegrationOf σ))} {r₁ : Round σ} {peers : Peers σ}
    (h : Ends w result batches (r₁.step peers w₁)) :
    Ends w result batches (r₁.complete peers w₁) := by
  have hs : r₁.step peers w₁ = ((r₁.step peers w₁).1, (r₁.step peers w₁).2) := rfl
  rw [complete_of_step hs, complete_of_rank_eq_zero (by rw [h.stage]; rfl)]
  exact h

section
variable {t : Transaction} {provider : Uuid → Aggregate σ} (peers : Peers σ) {w : World σ}
  (calm : w.store.failing = []) (free : w.store.checkpointHeld = false)
  (batches : List (List (IntegrationOf σ))) (ns : List Notice)

include calm in
theorem step_waiting :
    (stands t provider .waiting).step peers w = (w, stands t provider (.opened {})) := by
  simp [stands, step, Store.begin, Store.check_of_calm calm]

include calm free in
theorem step_opened :
    (stands t provider (.opened {})).step peers w =
      (w.locked w.batches w.notices,
        stands t provider (.sawCheckpoint .locking (.ok (some w.store.ledger.checkpoint)))) := by
  simp [stands, step, Store.readCheckpoint, Store.check_of_calm calm, free, World.locked,
    UnitOfWork.locking]

include calm in
theorem check_locked (op : Operation) : (w.locked batches ns).store.check op = .ok () :=
  Store.check_of_calm calm op

include free in
theorem release_locked {u : UnitOfWork σ} (hc : u.claims = []) (hh : u.holdsCheckpoint = true) :
    (w.locked batches ns).store.release u = w.store :=
  Store.release_locked free hc hh

include calm free

/-- A round that is to undo what it did, while nothing fails, has but its error to show. -/
theorem ends_fail (r : Round σ) (step : RelayStep) (about : Option Uuid) (x : Error) :
    Ends w (.error x) batches (r.fail (w.locked batches ns) .locking step about x) := by
  simp only [fail, conclude, World.say_store, Store.conclude_error, Store.undoing,
    check_locked calm, release_locked free batches ns (u := .locking) rfl rfl]
  exact ⟨rfl, rfl, rfl, rfl⟩

theorem ends_standDown (r : Round σ) (last : Int) :
    Ends w (.ok (.alreadyRelayed last)) batches
      (r.standDown (w.locked batches ns) .locking (.alreadyRelayed last)) := by
  simp only [standDown, Store.rollback, check_locked calm,
    release_locked free batches ns (u := .locking) rfl rfl]
  exact ⟨rfl, rfl, rfl, rfl⟩

theorem ends_of_moveCheckpoint {w₁ : World σ} {r₁ r : Round σ} {n : Nat}
    (hs : r₁.step peers w₁ = r.moveCheckpoint (w.locked batches ns) .locking n) :
    Ends w (.ok (.relayed n r.transaction.sequence)) batches (r₁.complete peers w₁) := by
  have hm : (w.locked batches ns).store.moveCheckpoint .locking ⟨r.transaction.sequence⟩ =
      (.ok (), .moving r.transaction, (w.locked batches ns).store) := by
    simp [Store.moveCheckpoint, check_locked calm, UnitOfWork.locking, UnitOfWork.moving]
  have hr := Store.release_locked (u := .moving r.transaction)
    (s := { w.store with ledger := w.store.ledger.absorb (.moving r.transaction) }) free rfl rfl
  have hc : (w.locked batches ns).store.conclude (.moving r.transaction)
      (.ok (RoundOutcome.relayed n r.transaction.sequence)) =
        (.ok (.relayed n r.transaction.sequence),
          { w.store with ledger := w.store.ledger.absorb (.moving r.transaction) }) := by
    have ho : (w.locked batches ns).store.ledger.outdated (.moving r.transaction) = none := rfl
    simp only [Store.conclude, Store.commit, check_locked calm, ho]
    exact congrArg (Prod.mk _) hr
  have ha : w.store.ledger.absorb (.moving r.transaction) =
      w.store.ledger.relayed (.ok (.relayed n r.transaction.sequence)) :=
    Ledger.absorb_readOnly _ (UnitOfWork.readOnly_moving r.transaction)
  simp only [moveCheckpoint, hm] at hs
  refine .of_step hs (.of_last ?_)
  simp only [step, conclude, hc, ha]
  exact ⟨rfl, rfl, rfl, rfl⟩

theorem ends_publishing (r : Round σ) (a : Aggregate σ) (batch : List (IntegrationOf σ)) :
    Ends w (Ledger.deliver peers r.transaction (.ok batch)).1
      (batches ++ (Ledger.deliver peers r.transaction (.ok batch)).2)
      ({ r with stage := .publishing .locking a batch }.complete peers (w.locked batches ns)) := by
  cases hp : peers.publish batch with
  | error x =>
    have hs : { r with stage := .publishing .locking a batch }.step peers (w.locked batches ns) =
        (w.locked batches ns,
          { r with stage := .published .locking a batch.length (.error x) }) := by
      simp only [step, World.publish, hp]
    simp only [Ledger.deliver, hp, List.append_nil]
    exact .of_step hs (.of_last (ends_fail calm free _ _ _ _ _ _))
  | ok _ =>
    have hs : { r with stage := .publishing .locking a batch }.step peers (w.locked batches ns) =
        (w.locked (batches ++ [batch]) ns,
          { r with stage := .published .locking a batch.length (.ok ()) }) := by
      simp only [step, World.publish, hp]
      rfl
    simp only [Ledger.deliver, hp]
    refine .of_step hs ?_
    exact ends_of_moveCheckpoint peers calm free (batches ++ [batch])
      (ns ++ [.publishedEvents a.id batch.length]) rfl

theorem ends_of_announce {w₁ : World σ} {r₁ r : Round σ} {es : List (EventOf σ)} {a : Aggregate σ}
    (hs : r₁.step peers w₁ = r.announce (w.locked batches ns) .locking es a) :
    Ends w (Ledger.deliver peers r.transaction (a.announce es).2).1
      (batches ++ (Ledger.deliver peers r.transaction (a.announce es).2).2)
      (r₁.complete peers w₁) := by
  rcases ha : a.announce es with ⟨b, x | batch⟩
  · simp only [announce, ha] at hs
    simp only [Ledger.deliver, List.append_nil]
    exact .of_last (hs ▸ ends_fail calm free batches _ r _ _ x)
  · simp only [announce, ha] at hs
    exact .of_step hs (ends_publishing peers calm free batches _ r b batch)

end

section
variable [LawfulModel σ] {t : Transaction} (cap : Uuid → Int) (peers : Peers σ) {w : World σ}
  (calm : w.store.failing = []) (free : w.store.checkpointHeld = false)
  (hl : w.store.ledger.Sound) (hf : w.store.ledger.Faithful) (hr : w.store.ledger.Replayable)
include calm free hl hf hr

/-- Whichever snapshot is found, the aggregate is rebuilt up to the events that are due. -/
theorem ends_sawSnapshot {e : EventOf σ} {es : List (EventOf σ)}
    (he : e ∈ w.store.ledger.stream t.aggregateId) (batches : List (List (IntegrationOf σ)))
    (ns : List Notice) :
    let told := w.store.ledger.told t.aggregateId e.version (e :: es)
    Ends w (Ledger.deliver peers t told).1 (batches ++ (Ledger.deliver peers t told).2)
      ((stands t (fun id => .new id (cap id)) (.sawSnapshot .locking (e :: es) e.version
          (.new t.aggregateId (cap t.aggregateId))
          (.ok (w.store.ledger.latestSnapshot t.aggregateId (some e.version))))).complete peers
        (w.locked batches ns)) := by
  intro told
  have hv := (hl.numbered t.aggregateId).bounds he
  obtain ⟨m, hm⟩ : ∃ m : Nat, e.version = m + 1 := ⟨(e.version - 1).toNat, by omega⟩
  obtain ⟨s, hs⟩ := hr.stateAt t.aggregateId m
  have ht : told =
      ((Aggregate.loaded t.aggregateId (cap t.aggregateId) m s).announce (e :: es)).2 := by
    have hc := (Aggregate.loaded t.aggregateId 0 m s).announce_cap (cap t.aggregateId) (e :: es)
    simp only [told, Ledger.told, hm, Int.add_sub_cancel, Int.toNat_natCast, hs]
    exact hc.symm
  obtain ⟨n, s', hnm, hb, hbuild⟩ :=
    hl.rebuild hf t.aggregateId (cap t.aggregateId) (m := m) (by omega) hs
  rw [ht, hm]
  let r (stage : Stage σ) : Round σ := stands t (fun id => .new id (cap id)) stage
  let a := Aggregate.loaded t.aggregateId (cap t.aggregateId) n s'
  by_cases hlt : (n : Int) + 1 < m + 1
  · have h₁ : (r (.sawSnapshot .locking (e :: es) (m + 1) (.new t.aggregateId (cap t.aggregateId))
          (.ok (w.store.ledger.latestSnapshot t.aggregateId (some (m + 1)))))).step peers
            (w.locked batches ns) =
        (w.locked batches ns, r (.sawHistory .locking (e :: es) a
          (.ok (w.store.ledger.eventsBetween t.aggregateId (n + 1) (some m))))) := by
      simp only [r, a, stands, step, hb, Aggregate.loaded_version, if_pos hlt, Store.readEvents,
        check_locked calm, Aggregate.loaded_id, Int.add_sub_cancel]
      rfl
    have h₂ : (r (.sawHistory .locking (e :: es) a
          (.ok (w.store.ledger.eventsBetween t.aggregateId (n + 1) (some m))))).step peers
            (w.locked batches ns) =
        (r .waiting).announce (w.locked batches ns) .locking (e :: es)
          (.loaded t.aggregateId (cap t.aggregateId) m s) := by
      simp only [r, a, stands, step, hbuild]
      rfl
    exact .of_step h₁ (ends_of_announce peers calm free batches ns h₂)
  · obtain rfl : n = m := by omega
    have hn : w.store.ledger.eventsBetween t.aggregateId (n + 1) (some n) = [] := by
      rw [hl.eventsBetween_upTo]
      simp
    rw [hn] at hbuild
    have ha : a = .loaded t.aggregateId (cap t.aggregateId) n s := (Prod.mk.inj hbuild).1
    have h₁ : (r (.sawSnapshot .locking (e :: es) (n + 1) (.new t.aggregateId (cap t.aggregateId))
          (.ok (w.store.ledger.latestSnapshot t.aggregateId (some (n + 1)))))).step peers
            (w.locked batches ns) =
        (r .waiting).announce (w.locked batches ns) .locking (e :: es)
          (.loaded t.aggregateId (cap t.aggregateId) n s) := by
      rw [← ha]
      simp only [r, a, stands, step, hb, Aggregate.loaded_version, Int.lt_irrefl, if_false]
      rfl
    exact ends_of_announce peers calm free batches ns h₁

/-- A round while nothing else is at work comes to what the ledger says. -/
theorem ends_complete :
    Ends w (w.store.ledger.relay peers t).1 (w.batches ++ (w.store.ledger.relay peers t).2)
      ((stands t (fun id => .new id (cap id)) .waiting).complete peers w) := by
  refine .of_step (step_waiting peers calm) (.of_step (step_opened peers calm free) ?_)
  by_cases hb : t.sequence ≤ w.store.ledger.checkpoint.last
  · have he : (LogRange.mk w.store.ledger.checkpoint.last t.sequence).isEmpty = true :=
      decide_eq_true hb
    refine .of_last ?_
    simp only [Ledger.relay, if_pos hb, List.append_nil, stands, step, range, he, if_true]
    exact ends_standDown calm free w.batches w.notices _ _
  · have he : (LogRange.mk w.store.ledger.checkpoint.last t.sequence).isEmpty = false :=
      decide_eq_false hb
    have h₁ : (stands t (fun id => .new id (cap id))
          (.sawCheckpoint .locking (.ok (some w.store.ledger.checkpoint)))).step peers
            (w.locked w.batches w.notices) =
        (w.locked w.batches w.notices, stands t (fun id => .new id (cap id))
          (.sawUnhandled .locking (.ok (w.store.ledger.due t)))) := by
      have hd := hl.eventsIn t.aggregateId ⟨w.store.ledger.checkpoint.last, t.sequence⟩
      simp only [stands, step, range, he, Bool.false_eq_true, if_false, Store.readRange,
        check_locked calm]
      rw [Ledger.due, Ledger.within, ← hd]
      rfl
    refine .of_step h₁ ?_
    cases hd : w.store.ledger.due t with
    | nil =>
      have h₂ : (stands t (fun id => .new id (cap id)) (.sawUnhandled .locking (.ok []))).step peers
            (w.locked w.batches w.notices) =
          (stands t (fun id => .new id (cap id)) .waiting).moveCheckpoint
            (w.locked w.batches w.notices) .locking 0 := rfl
      simp only [Ledger.relay, if_neg hb, hd, List.append_nil]
      exact ends_of_moveCheckpoint peers calm free w.batches w.notices h₂
    | cons e es =>
      have hm : e ∈ w.store.ledger.stream t.aggregateId :=
        (Ledger.mem_due.mp (hd ▸ List.mem_cons_self)).1
      have h₂ : (stands t (fun id => .new id (cap id)) (.sawUnhandled .locking (.ok (e :: es)))).step
            peers (w.locked w.batches w.notices) =
          (w.locked w.batches w.notices, stands t (fun id => .new id (cap id))
            (.sawSnapshot .locking (e :: es) e.version (.new t.aggregateId (cap t.aggregateId))
              (.ok (w.store.ledger.latestSnapshot t.aggregateId (some e.version))))) := by
        simp only [stands, step, Store.readSnapshot, check_locked calm]
        rfl
      simp only [Ledger.relay, if_neg hb, hd]
      exact .of_step h₂ (ends_sawSnapshot cap peers calm free hl hf hr hm w.batches w.notices)

end
end Round

/-! ### Requests -/

namespace Ledger

/-- The state that a request leads to from the end of its stream, unless it is refused. -/
def verdict (l : Ledger σ) (peers : Peers σ) (r : Request σ) : Except Error σ :=
  match l.stateAt r.aggregateId (l.stream r.aggregateId).length with
  | .error x => .error x
  | .ok s₀ => r.verdict peers (l.stream r.aggregateId).length s₀

/-- What handling a request comes to: what it ends with, what is durable then, and the projections
that it has saved. -/
def handle (l : Ledger σ) (peers : Peers σ) (r : Request σ) :
    Except Error Receipt × Ledger σ × List (Model.Projection σ) :=
  let n := (l.stream r.aggregateId).length
  match l.verdict peers r with
  | .error x => (.error x, l, [])
  | .ok s => (.ok (r.receipt n), l.absorb (r.unit n s), [(r.outcome n s).projection])

theorem handle_of_error {l : Ledger σ} {peers : Peers σ} {r : Request σ} {x : Error}
    (h : l.verdict peers r = .error x) : l.handle peers r = (.error x, l, []) := by
  simp only [handle, h]

theorem handle_of_ok {l : Ledger σ} {peers : Peers σ} {r : Request σ} {s : σ}
    (h : l.verdict peers r = .ok s) :
    l.handle peers r =
      (.ok (r.receipt (l.stream r.aggregateId).length),
        l.absorb (r.unit (l.stream r.aggregateId).length s),
        [(r.outcome (l.stream r.aggregateId).length s).projection]) := by
  simp only [handle, h]

theorem writes_of_verdict {l : Ledger σ} {peers : Peers σ} {r : Request σ} {s : σ}
    (h : l.verdict peers r = .ok s) : r.Writes l (l.stream r.aggregateId).length s := by
  unfold verdict at h
  split at h
  · cases h
  · next s₀ hs => exact ⟨s₀, canLoad_of_stateAt rfl hs, (Request.of_verdict_eq_ok h).1⟩

theorem step_handle {l : Ledger σ} (hl : l.Sound) (peers : Peers σ) (r : Request σ) :
    l.Step (l.handle peers r).2.1 := by
  cases h : l.verdict peers r with
  | error x =>
    rw [handle_of_error h]
    exact .still
  | ok s =>
    rw [handle_of_ok h]
    exact .handled r _ s (writes_of_verdict h)
      (Request.outdated_unit (w := { store := { ledger := l } }) hl rfl s)

/-- What snapshots there are, and how often one is taken, makes no difference to anything else. -/
theorem handle_cap (l : Ledger σ) (peers : Peers σ) (r : Request σ) (xs : List (SnapshotOf σ))
    (cap : Int) :
    ∃ ys, { l with snapshots := xs }.handle peers { r with cap } =
      ((l.handle peers r).1, { (l.handle peers r).2.1 with snapshots := ys },
        (l.handle peers r).2.2) := by
  have hv : { l with snapshots := xs }.verdict peers { r with cap } = l.verdict peers r := rfl
  cases h : l.verdict peers r with
  | error x => exact ⟨xs, by rw [handle_of_error h, handle_of_error (hv.trans h)]⟩
  | ok s =>
    rw [handle_of_ok h, handle_of_ok (hv.trans h)]
    exact ⟨_, rfl⟩

end Ledger

structure Handling.Ends (w : World σ)
    (came : Except Error Receipt × Ledger σ × List (Model.Projection σ))
    (next : World σ × Handling σ) : Prop where
  store : next.1.store = { w.store with ledger := came.2.1 }
  batches : next.1.batches = w.batches
  saved : next.1.saved = w.saved ++ came.2.2
  stage : next.2.stage = .ended came.1

/-- A request while nothing else is at work comes to what the ledger says. -/
theorem Request.ends_complete [LawfulModel σ] (r : Request σ) (peers : Peers σ) {w : World σ}
    (calm : w.store.failing = []) (free : w.store.claimed = []) (hl : w.store.ledger.Sound)
    (hf : w.store.ledger.Faithful) (hr : w.store.ledger.Replayable) :
    Handling.Ends w (w.store.ledger.handle peers r) (r.handling.complete peers w) := by
  obtain ⟨s₀, hs⟩ := hr.stateAt r.aggregateId (w.store.ledger.stream r.aggregateId).length
  have hd : w.store.ledger.verdict peers r =
      r.verdict peers (w.store.ledger.stream r.aggregateId).length s₀ := by
    simp only [Ledger.verdict, hs]
  cases hv : w.store.ledger.verdict peers r with
  | error x =>
    obtain ⟨ns, h, he, hstage⟩ := complete_of_refused calm free hl hf rfl hs (hd.symm.trans hv)
    rw [Ledger.handle_of_error hv, he]
    exact ⟨rfl, rfl, (List.append_nil _).symm, hstage⟩
  | ok s =>
    obtain ⟨ns, h, he, hstage⟩ := complete_of_settled calm free hl hf rfl hs (hd.symm.trans hv)
    rw [Ledger.handle_of_ok hv, he]
    exact ⟨rfl, rfl, rfl, hstage⟩

end Outbox
