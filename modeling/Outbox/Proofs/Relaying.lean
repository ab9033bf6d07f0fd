import Outbox.Proofs.Replay

/-! What a round of the relay publishes: for each event of its aggregate in its range of the log,
what the state after that event tells, whichever snapshot the aggregate is rebuilt from. -/
namespace Outbox
variable {σ : Type} [Model σ]

/-- Events are only told one version after another, each from the state it led to. -/
theorem Aggregate.announce_cons_eq_ok {a c : Aggregate σ} {e : EventOf σ} {es : List (EventOf σ)}
    {batch : List (IntegrationOf σ)} (h : a.announce (e :: es) = (c, .ok batch)) :
    ∃ s payload is, e.version = a.version + 1 ∧ Model.apply a.state e = .ok s ∧
      Model.integration s e.eventType = .ok payload ∧
      announce { a with state := s, version := e.version, changes := a.changes ++ [e] } es =
        (c, .ok is) ∧
      batch = ⟨a.id, e.eventType, payload⟩ :: is := by
  by_cases hv : e.version = a.version + 1
  · cases hs : Model.apply a.state e with
    | error x => simp [announce, advance, hv, hs] at h
    | ok s =>
      cases hi : Model.integration s e.eventType with
      | error x => simp [announce, advance, hv, hs, integrationEvent, hi] at h
      | ok payload =>
        rcases hr : announce
          { a with state := s, version := e.version, changes := a.changes ++ [e] } es
          with ⟨d, x | is⟩
        · simp [announce, advance, ← hv, hs, integrationEvent, hi, hr] at h
        · simp only [announce, advance, ← hv, hs, integrationEvent, hi, hr, if_true, Prod.mk.injEq,
            Except.ok.injEq] at h
          obtain ⟨rfl, rfl⟩ := h
          exact ⟨s, payload, is, hv, rfl, hi, hr, rfl⟩
  · simp [announce, advance, hv] at h

namespace Ledger

/-- What other systems are to learn of a committed event: what is told of the state after all events
of its aggregate up to it. -/
def tell (l : Ledger σ) (e : EventOf σ) : Except Error (IntegrationOf σ) :=
  match Model.replay Model.initial
      ((l.stream e.aggregateId).filter fun f => f.version ≤ e.version) with
  | .error x => .error x
  | .ok s =>
    match Model.integration s e.eventType with
    | .error x => .error x
    | .ok payload => .ok ⟨e.aggregateId, e.eventType, payload⟩

/-- The committed events of an aggregate in a range of the log, by version. -/
def within (l : Ledger σ) (id : Uuid) (r : LogRange) : List (EventOf σ) :=
  (l.stream id).filter (l.isInRange r)

def batch (l : Ledger σ) (id : Uuid) (r : LogRange) : List (List (EventOf σ)) :=
  if (l.within id r).isEmpty then [] else [l.within id r]

def due (l : Ledger σ) (t : Transaction) : List (EventOf σ) :=
  l.within t.aggregateId ⟨l.checkpoint.last, t.sequence⟩

def parcels (l : Ledger σ) (t : Transaction) : List (List (EventOf σ)) :=
  l.batch t.aggregateId ⟨l.checkpoint.last, t.sequence⟩

theorem Dense.getElem?_stream {l : Ledger σ} (h : l.Dense) {id : Uuid} {e : EventOf σ} {n : Nat}
    (he : e ∈ l.stream id) (hv : e.version = n + 1) : (l.stream id)[n]? = some e := by
  obtain ⟨k, hk, hek⟩ := List.mem_iff_getElem.mp he
  have hn := (h.numbered id).version_getElem k hk
  have hkn : k = n := by
    rw [hek] at hn
    omega
  rw [← hkn, List.getElem?_eq_getElem hk, hek]

theorem Dense.tell_eq {l : Ledger σ} (h : l.Dense) {e : EventOf σ} {n : Nat} {s : σ}
    (hv : e.version = n) (hs : l.stateAt e.aggregateId n = .ok s) :
    l.tell e =
      match Model.integration s e.eventType with
      | .error x => .error x
      | .ok payload => .ok ⟨e.aggregateId, e.eventType, payload⟩ := by
  have hf := (h.numbered e.aggregateId).filter_upTo n
  rw [Int.zero_add] at hf
  rw [Ledger.stateAt, ← hf] at hs
  simp only [tell, hv, hs]

theorem Dense.announce {l : Ledger σ} (h : l.Dense) {a b : Aggregate σ} {n : Nat}
    {es : List (EventOf σ)} {batch : List (IntegrationOf σ)} (hv : a.version = n)
    (hs : l.stateAt a.id n = .ok a.state) (he : ∀ e ∈ es, e ∈ l.stream a.id)
    (ht : a.announce es = (b, .ok batch)) :
    b.changes = a.changes ++ es ∧ batch.map .ok = es.map l.tell := by
  induction es generalizing a n batch with
  | nil =>
    simp only [Aggregate.announce, Prod.mk.injEq, Except.ok.injEq] at ht
    obtain ⟨rfl, rfl⟩ := ht
    simp
  | cons e es ih =>
    obtain ⟨s, payload, is, hn, ha, hi, hr, rfl⟩ := Aggregate.announce_cons_eq_ok ht
    have hm : e ∈ l.stream a.id := he e List.mem_cons_self
    have hid : e.aggregateId = a.id := (mem_stream.mp hm).2
    have hs' : l.stateAt a.id (n + 1) = .ok s := by
      rw [stateAt_succ hs (h.getElem?_stream hm (by omega)), ha]
    have hi' : l.tell e = .ok ⟨a.id, e.eventType, payload⟩ := by
      rw [h.tell_eq (n := n + 1) (by omega) (hid ▸ hs'), hi, hid]
    obtain ⟨hc, hb⟩ := ih (n := n + 1)
      (a := { a with state := s, version := e.version, changes := a.changes ++ [e] })
      (by simp only; omega) hs' (fun f hf => he f (List.mem_cons_of_mem e hf)) hr
    exact ⟨by simpa using hc, by simp [hi', hb]⟩

theorem mem_due {l : Ledger σ} {t : Transaction} {e : EventOf σ} :
    e ∈ l.due t ↔ e ∈ l.stream t.aggregateId ∧
      l.isInRange ⟨l.checkpoint.last, t.sequence⟩ e = true := by
  simp [due, within]

end Ledger

namespace UnitOfWork

def locking : UnitOfWork σ := { holdsCheckpoint := true }

def moving (t : Transaction) : UnitOfWork σ :=
  { holdsCheckpoint := true, checkpoint := some ⟨t.sequence⟩ }

theorem readOnly_moving (t : Transaction) : (moving t : UnitOfWork σ).ReadOnly :=
  ⟨rfl, rfl, rfl, rfl⟩

end UnitOfWork

namespace Round

def Fresh (r : Round σ) : Prop := ∀ id, ∃ cap, r.provider id = .new id cap

/-- Between the lock and the new checkpoint the round holds the one and is short of the other. -/
structure Locked (l : Ledger σ) (t : Transaction) (u : UnitOfWork σ) (es : List (EventOf σ)) :
    Prop where
  unit : u = .locking
  ahead : l.checkpoint.last < t.sequence
  events : es = l.due t
  some : es ≠ []

theorem Locked.parcels {l : Ledger σ} {t : Transaction} {u : UnitOfWork σ} {es : List (EventOf σ)}
    (h : Locked l t u es) : l.parcels t = [es] := by
  have hd : ¬ (l.due t).isEmpty = true := by
    rw [← h.events]
    simpa using h.some
  rw [h.events]
  exact if_neg hd

/-- What an open round for a transaction holds and has found, by its stage. -/
def Holds (l : Ledger σ) (t : Transaction) : Stage σ → Prop
  | .waiting => True
  | .opened u => u = {}
  | .sawCheckpoint u found => ∀ c, found = .ok (some c) → u = .locking ∧ c = l.checkpoint
  | .sawUnhandled u found =>
    u = .locking ∧ l.checkpoint.last < t.sequence ∧ ∀ es, found = .ok es → es = l.due t
  | .sawSnapshot u es first a found =>
    Locked l t u es ∧ (∃ m : Nat, first = m + 1) ∧
      (∃ cap, a = .loaded t.aggregateId cap 0 Model.initial) ∧
      ∀ x, found = .ok (some x) → x ∈ l.snapshots ∧ x.aggregateId = t.aggregateId
  | .sawHistory u es a found =>
    Locked l t u es ∧ ∃ cap n s, l.CanLoad t.aggregateId n s ∧
      a = .loaded t.aggregateId cap n s ∧
      ∀ hs, found = .ok hs → hs <+: (l.stream t.aggregateId).drop n
  | .publishing u a batch =>
    Locked l t u a.changes ∧ batch.map .ok = a.changes.map l.tell
  | .published u a n _ => Locked l t u a.changes ∧ n = a.changes.length
  | .moved u n result =>
    l.checkpoint.last < t.sequence ∧ n = (l.due t).length ∧ (result = .ok () → u = .moving t)
  | .ended _ => True
  | .cancelled => True

theorem holds_publishing [LawfulModel σ] {l : Ledger σ} (hl : l.Sound) (hf : l.Faithful)
    {t : Transaction} {u : UnitOfWork σ} {es : List (EventOf σ)} (hk : Locked l t u es) {cap : Int}
    {n : Nat} {s : σ} (hs : l.CanLoad t.aggregateId n s) {c : Aggregate σ}
    {batch : List (IntegrationOf σ)}
    (ht : (Aggregate.loaded t.aggregateId cap n s).announce es = (c, .ok batch)) :
    Holds l t (.publishing u c batch) := by
  have he : ∀ e ∈ es, e ∈ l.stream t.aggregateId := by
    intro e hm
    rw [hk.events] at hm
    exact (Ledger.mem_due.mp hm).1
  obtain ⟨hc, hb⟩ := hl.announce (n := n) rfl (hs.stateAt hf) he ht
  have hc' : c.changes = es := hc
  exact ⟨hc' ▸ hk, hc' ▸ hb⟩

theorem transaction_steps (peers : Peers σ) (n : Nat) (w : World σ) (r : Round σ) :
    (r.steps peers n w).2.transaction = r.transaction := by
  induction n generalizing w r with
  | zero => rfl
  | succ n ih => exact (ih _ _).trans (r.step_move peers w).transaction

theorem Move.fresh {peers : Peers σ} {w w' : World σ} {r r' : Round σ} (hm : Move peers w r w' r')
    (h : r.Fresh) : r'.Fresh := by
  intro id
  rw [hm.provider]
  exact h id

theorem Fresh.cancel {r : Round σ} (h : r.Fresh) (w : World σ) : (r.cancel w).2.Fresh := by
  rcases r.cancel_cases w with ⟨-, he⟩ | ⟨-, he⟩ | ⟨u, -, he⟩ <;>
    · rw [he]
      exact h

def sent (l : Ledger σ) (t : Transaction) (stage : Stage σ) : List (List (EventOf σ)) :=
  if stage.accepted then l.parcels t else []

/-- What a step of a round comes to for the rest of the world. -/
inductive Effect (w : World σ) (r : Round σ) (w' : World σ) (r' : Round σ) : Prop
  | idles (ended : r.stage.rank = 0) (world : w' = w) (round : r' = r)
  | ends (ended : r'.stage.rank = 0) (still : ∀ n c, r'.stage ≠ .ended (.ok (.relayed n c)))
    (ledger : w'.store.ledger = w.store.ledger) (batches : w'.batches = w.batches)
    (excuse : r.stage.accepted = true → (∃ u n x, r.stage = .moved u n (.error x)) ∨
      ∃ u x s, r.stage.unit? = some u ∧ w.store.commit u = (.error x, s))
  | goes (further : r'.stage.rank ≠ 0) (holds : Holds w.store.ledger r.transaction r'.stage)
    (ledger : w'.store.ledger = w.store.ledger) (batches : w'.batches = w.batches)
    (sent : sent w.store.ledger r.transaction r'.stage = sent w.store.ledger r.transaction r.stage)
    (unhurt : w.store.failing = [] → ∀ u n x, r'.stage ≠ .moved u n (.error x))
  | publishes (u : UnitOfWork σ) (a : Aggregate σ) (batch : List (IntegrationOf σ))
    (here : r.stage = .publishing u a batch)
    (ledger : w'.store.ledger = w.store.ledger) (batches : w'.batches = w.batches ++ [batch])
    (there : r'.stage = .published u a batch.length (.ok ()))
  | moves (n : Nat) (here : r.stage = .moved (.moving r.transaction) n (.ok ()))
    (ledger : w'.store.ledger = { w.store.ledger with checkpoint := ⟨r.transaction.sequence⟩ })
    (batches : w'.batches = w.batches)
    (there : r'.stage = .ended (.ok (.relayed n r.transaction.sequence)))

/-- A round that is about to move the checkpoint has had all that is due published. -/
theorem Holds.of_moves {l : Ledger σ} {t : Transaction} {stage : Stage σ} (h : Holds l t stage)
    {u : UnitOfWork σ} {published : Nat}
    (here : stage = .sawUnhandled u (.ok []) ∧ published = 0 ∨
      ∃ a, stage = .published u a published (.ok ())) :
    u = .locking ∧ l.checkpoint.last < t.sequence ∧ published = (l.due t).length ∧
      ((l.due t).isEmpty = true ∨ stage.accepted = true) := by
  rcases here with ⟨rfl, rfl⟩ | ⟨a, rfl⟩
  · obtain ⟨hu, hc, hd⟩ := h
    rw [← hd [] rfl]
    exact ⟨hu, hc, rfl, .inl rfl⟩
  · obtain ⟨hk, hn⟩ := h
    exact ⟨hk.unit, hk.ahead, hk.events ▸ hn, .inr rfl⟩

theorem Holds.effect [LawfulModel σ] {peers : Peers σ} {w w' : World σ} {r r' : Round σ}
    (hl : w.store.ledger.Sound) (hf : w.store.ledger.Faithful) (fresh : r.Fresh)
    (hh : Holds w.store.ledger r.transaction r.stage) (hm : Move peers w r w' r') :
    Effect w r w' r' := by
  have hsent {stage stage' : Stage σ} (here : r.stage = stage) (hs : stage.accepted = false)
      (hs' : stage'.accepted = false) :
      sent w.store.ledger r.transaction stage' = sent w.store.ledger r.transaction r.stage := by
    simp only [sent, here, hs, hs']
  cases hm with
  | idle ended => exact .idles ended rfl rfl
  | refused x n here => exact .ends rfl (by simp) rfl rfl (by simp [here, Stage.accepted])
  | opens here =>
    exact .goes (Nat.succ_ne_zero _) rfl rfl rfl (hsent here rfl rfl) (by simp)
  | locks u here =>
    rw [here] at hh
    obtain rfl : u = {} := hh
    rcases w.store.readCheckpoint_cases {} with ⟨found, hf, he⟩ | ⟨held, he⟩
    · rw [he]
      exact .goes (Nat.succ_ne_zero _) (fun c hc => absurd hc (hf c)) rfl rfl
        (hsent here rfl rfl) (by simp)
    · rw [he]
      refine .goes (Nat.succ_ne_zero _) (fun c hc => ⟨rfl, ?_⟩) rfl rfl (hsent here rfl rfl)
        (by simp)
      simpa using hc.symm
  | collects u c here ahead =>
    rw [here] at hh
    obtain ⟨rfl, rfl⟩ := hh c rfl
    have hc : w.store.ledger.checkpoint.last < r.transaction.sequence :=
      Int.not_le.mp (of_decide_eq_false ahead)
    refine .goes (Nat.succ_ne_zero _) ⟨rfl, hc, fun es he => ?_⟩ rfl rfl (hsent here rfl rfl)
      (by simp)
    rw [← Store.readRange_eq_ok he, hl.eventsIn]
    rfl
  | seeks u e es here =>
    rw [here] at hh
    obtain ⟨rfl, hc, hd⟩ := hh
    have he : e ∈ w.store.ledger.stream r.transaction.aggregateId := by
      have hm : e ∈ w.store.ledger.due r.transaction := hd (e :: es) rfl ▸ List.mem_cons_self
      exact (Ledger.mem_due.mp hm).1
    have hv := (hl.numbered _).bounds he
    obtain ⟨cap, hp⟩ := fresh r.transaction.aggregateId
    rw [hp]
    refine .goes (Nat.succ_ne_zero _) ⟨⟨rfl, hc, hd _ rfl, List.cons_ne_nil e es⟩, ?_,
      ⟨cap, Aggregate.new_eq_loaded ..⟩, fun x hx => ?_⟩ rfl rfl (hsent here rfl rfl) (by simp)
    · exact ⟨(e.version - 1).toNat, by omega⟩
    · obtain ⟨hs, ho, -⟩ := Ledger.mem_of_latestSnapshot (Store.readSnapshot_eq_ok hx)
      exact ⟨hs, ho⟩
  | recalls u es first a b found here loaded short =>
    rw [here] at hh
    obtain ⟨hk, ⟨m, rfl⟩, ⟨cap, rfl⟩, hx⟩ := hh
    obtain ⟨n, s, hs, rfl⟩ := hl.resume (fun x hf => hx x (by rw [hf])) loaded
    refine .goes (Nat.succ_ne_zero _) ⟨hk, cap, n, s, hs, rfl, fun es' he => ?_⟩ rfl rfl
      (hsent here rfl rfl) (by simp)
    have hb := Store.readEvents_eq_ok he
    rw [Int.add_sub_cancel] at hb
    rw [← hb, Aggregate.loaded_id, Aggregate.loaded_version, hl.eventsBetween_upTo, List.drop_take]
    exact List.take_prefix _ _
  | announces u es first a b c found batch n here loaded told =>
    rw [here] at hh
    obtain ⟨hk, -, ⟨cap, rfl⟩, hx⟩ := hh
    obtain ⟨n, s, hs, rfl⟩ := hl.resume (fun x hf => hx x (by rw [hf])) loaded
    exact .goes (Nat.succ_ne_zero _) (holds_publishing hl hf hk hs told) rfl rfl
      (hsent here rfl rfl) (by simp)
  | replays u es hist a b c batch n here loaded told =>
    rw [here] at hh
    obtain ⟨hk, cap, n, s, hs, rfl, he⟩ := hh
    obtain ⟨t, ht, rfl⟩ := hl.build hs (he hist rfl) loaded
    exact .goes (Nat.succ_ne_zero _) (holds_publishing hl hf hk ht told) rfl rfl
      (hsent here rfl rfl) (by simp)
  | publishes u a batch here =>
    rw [here] at hh
    obtain ⟨hk, hb⟩ := hh
    cases hp : peers.publish batch with
    | ok _ =>
      have hw : w.publish peers batch = (.ok (), { w with batches := w.batches ++ [batch] }) := by
        simp [World.publish, hp]
      rw [hw]
      exact .publishes u a batch here rfl rfl rfl
    | error x =>
      have hw : w.publish peers batch = (.error x, w) := by simp [World.publish, hp]
      have hn : batch.length = a.changes.length := by simpa using congrArg List.length hb
      rw [hw]
      exact .goes (Nat.succ_ne_zero _) ⟨hk, hn⟩ rfl rfl (hsent here rfl rfl) (by simp)
  | moves u published ns here =>
    obtain ⟨rfl, hc, hn, hd⟩ := hh.of_moves here
    have hs (u : UnitOfWork σ) (result : Except Error Unit) :
        sent w.store.ledger r.transaction (.moved u published result) =
          sent w.store.ledger r.transaction r.stage := by
      rcases hd with hd | hd
      · have hp : w.store.ledger.parcels r.transaction = [] := if_pos hd
        simp [sent, hp]
      · rw [sent, sent, hd]
        rfl
    rcases w.store.moveCheckpoint_cases .locking ⟨r.transaction.sequence⟩ with
      ⟨x, hx, he⟩ | ⟨held, he⟩
    · rw [he]
      refine .goes (Nat.succ_ne_zero _) ⟨hc, hn, by simp⟩ rfl rfl (hs _ _) fun calm => ?_
      simp [UnitOfWork.locking] at hx
      exact absurd calm hx
    · rw [he]
      exact .goes (Nat.succ_ne_zero _) ⟨hc, hn, fun _ => rfl⟩ rfl rfl (hs _ _) (by simp)
  | commits u published n here =>
    rw [here] at hh
    obtain ⟨-, -, hu⟩ := hh
    obtain rfl := hu rfl
    refine .moves published here ?_ rfl rfl
    exact Ledger.absorb_readOnly _ (UnitOfWork.readOnly_moving r.transaction)
  | leaves u result ns here still excuse =>
    refine .ends rfl (fun n c hr => ?_) rfl rfl fun ha => ?_
    · cases hr
      simpa [RoundOutcome.advanced] using still _ rfl
    · rcases excuse ha with ⟨n, x, hx⟩ | ⟨x, hx⟩
      · exact .inl ⟨u, n, x, hx⟩
      · exact .inr ⟨u, x, _, here, hx⟩

/-- Since another world, batches of these events have been published. -/
def Told (l : Ledger σ) (w₀ w : World σ) (parcels : List (List (EventOf σ))) : Prop :=
  ∃ batches, w.batches = w₀.batches ++ batches ∧
    batches.map (List.map .ok) = parcels.map (List.map l.tell)

/-- A round on its way that has the world for itself. -/
structure Alone (w₀ w : World σ) (r : Round σ) : Prop where
  ledger : w.store.ledger = w₀.store.ledger
  holds : Holds w₀.store.ledger r.transaction r.stage
  told : Told w₀.store.ledger w₀ w (sent w₀.store.ledger r.transaction r.stage)

def Settles (w₀ w : World σ) (r : Round σ) : Prop :=
  ∀ n c, r.stage = .ended (.ok (.relayed n c)) →
    c = r.transaction.sequence ∧ n = (w₀.store.ledger.due r.transaction).length ∧
      Told w₀.store.ledger w₀ w (w₀.store.ledger.parcels r.transaction)

section
variable [LawfulModel σ] {w₀ : World σ} (hl : w₀.store.ledger.Sound) (hf : w₀.store.ledger.Faithful)
include hl hf

theorem Alone.step {w : World σ} {r : Round σ} (h : Alone w₀ w r) (further : r.stage.rank ≠ 0)
    (fresh : r.Fresh) (peers : Peers σ) :
    ((r.step peers w).2.stage.rank ≠ 0 → Alone w₀ (r.step peers w).1 (r.step peers w).2) ∧
      Settles w₀ (r.step peers w).1 (r.step peers w).2 := by
  have hm := r.step_move peers w
  have ht := hm.transaction
  have hw := h.ledger
  have he := Holds.effect (hw ▸ hl) (hw ▸ hf) fresh (hw ▸ h.holds) hm
  cases he with
  | idles ended => exact absurd ended further
  | ends ended still => exact ⟨fun ho => absurd ended ho, fun n c hs => absurd hs (still n c)⟩
  | goes further holds ledger batches sent =>
    rw [hw] at holds sent
    refine ⟨fun _ => ⟨ledger.trans hw, ht ▸ holds, ?_⟩, fun n c hs => ?_⟩
    · rw [ht, sent]
      obtain ⟨bs, hb, he⟩ := h.told
      exact ⟨bs, batches.trans hb, he⟩
    · rw [hs] at further
      exact absurd rfl further
  | publishes u a batch here ledger batches there =>
    have hh := h.holds
    rw [here] at hh
    obtain ⟨hk, hb⟩ := hh
    have hn : batch.length = a.changes.length := by simpa using congrArg List.length hb
    refine ⟨fun _ => ⟨ledger.trans hw, ?_, ?_⟩, fun n c hs => ?_⟩
    · rw [there, ht]
      exact ⟨hk, hn⟩
    · obtain ⟨bs, hbs, he⟩ := h.told
      have hp : w₀.store.ledger.parcels r.transaction = [a.changes] := hk.parcels
      rw [here] at he
      have hnil : bs = [] := List.map_eq_nil_iff.mp he
      refine ⟨[batch], by rw [batches, hbs, hnil, List.append_nil], ?_⟩
      rw [there, ht, sent]
      simp [Stage.accepted, hp, hb]
    · rw [there] at hs
      cases hs
  | moves n here ledger batches there =>
    have hh := h.holds
    rw [here] at hh
    refine ⟨fun ho => absurd (by rw [there]; rfl) ho, fun n' c hs => ?_⟩
    rw [there] at hs
    cases hs
    rw [ht]
    refine ⟨rfl, hh.2.1, ?_⟩
    obtain ⟨bs, hb, he⟩ := h.told
    rw [here] at he
    exact ⟨bs, batches.trans hb, he⟩

theorem Alone.steps {w : World σ} {r : Round σ} (peers : Peers σ) (fresh : r.Fresh)
    (h : r.stage.rank ≠ 0 → Alone w₀ w r) (hs : Settles w₀ w r) (n : Nat) :
    Settles w₀ (r.steps peers n w).1 (r.steps peers n w).2 := by
  induction n generalizing w r with
  | zero => exact hs
  | succ n ih =>
    by_cases ho : r.stage.rank = 0
    · simp only [Round.steps, step_of_rank_eq_zero ho]
      exact ih fresh h hs
    · obtain ⟨ha, hs'⟩ := (h ho).step hl hf ho fresh peers
      exact ih ((r.step_move peers w).fresh fresh) ha hs'

end

end Round

namespace Pool
variable {ι : Type} [DecidableEq ι]

/-- Whatever has happened before, a round that moves the checkpoint moves it to the place of its
transaction and publishes, in one batch if there are any, the events of the aggregate whose places
lie between the old checkpoint and the new one: each as the state after it tells. -/
theorem relayed_of_run [LawfulModel σ] (calls : ι → Call σ) (acts : List (Action ι σ))
    (t : Transaction) (cap : Uuid → Int) (peers : Peers σ) (n : Nat) (c : Int) :
    let p := (start {} calls).run acts
    let l := p.ledger
    let done := Round.complete peers p.world
      { transaction := t, provider := fun id => .new id (cap id) }
    done.2.stage = .ended (.ok (.relayed n c)) →
      c = t.sequence ∧ n = (l.due t).length ∧
        ((l.due t).Pairwise fun e f => e.version < f.version) ∧
        ∃ batches, done.1.batches = p.world.batches ++ batches ∧
          batches.map (List.map .ok) =
            if (l.due t).isEmpty then [] else [(l.due t).map l.tell] := by
  intro p l done hr
  have hl : l.Sound := sound_run calls acts
  have hf : l.Faithful := faithful_run calls acts
  have ht : done.2.transaction = t := Round.transaction_steps peers _ p.world _
  have hs : Round.Settles p.world done.1 done.2 := by
    refine Round.Alone.steps hl hf peers (fun id => ⟨cap id, rfl⟩) (fun _ => ?_) ?_ _
    · exact ⟨rfl, trivial, [], (List.append_nil _).symm, rfl⟩
    · simp [Round.Settles]
  obtain ⟨hc, hn, batches, hb, he⟩ := hs n c hr
  rw [ht] at hc hn he
  refine ⟨hc, hn, (hl.numbered _).pairwise.filter _, batches, hb, ?_⟩
  change batches.map (List.map .ok) = (l.parcels t).map (List.map l.tell) at he
  rw [he]
  by_cases hd : (l.due t).isEmpty = true
  · rw [if_pos hd, show l.parcels t = [] from if_pos hd]
    rfl
  · rw [if_neg hd, show l.parcels t = [l.due t] from if_neg hd]
    rfl

/-- Of a user who has signed up, other systems learn twice: with the address, and with the address
confirmed. -/
theorem relayed_of_run_signedUp :
    (Round.complete .accepting signedUp.world
      { transaction := ⟨.ofNat 1, .ofNat 1, 1⟩, provider := User.new }).2.stage =
        .ended (.ok (.relayed 2 1)) ∧
    2 = (signedUp.ledger.due ⟨.ofNat 1, .ofNat 1, 1⟩).length ∧
    ∃ batches, (Round.complete .accepting signedUp.world
        { transaction := ⟨.ofNat 1, .ofNat 1, 1⟩, provider := User.new }).1.batches =
          signedUp.world.batches ++ batches ∧
      batches.map (List.map .ok) =
        if (signedUp.ledger.due ⟨.ofNat 1, .ofNat 1, 1⟩).isEmpty then []
        else [(signedUp.ledger.due ⟨.ofNat 1, .ofNat 1, 1⟩).map signedUp.ledger.tell] := by
  have hr : (Round.complete .accepting signedUp.world
      { transaction := ⟨.ofNat 1, .ofNat 1, 1⟩, provider := User.new }).2.stage =
        .ended (.ok (.relayed 2 1)) := by
    rfl
  obtain ⟨-, hn, -, hb⟩ := relayed_of_run
    (fun _ : Unit => .request (.ofUser 1 1 (User.signUp "a@example.com")))
    (List.replicate 6 (.go ())) ⟨.ofNat 1, .ofNat 1, 1⟩ (fun _ => User.snapshotCap) .accepting 2 1
    hr
  exact ⟨hr, hn, hb⟩

end Pool
end Outbox
