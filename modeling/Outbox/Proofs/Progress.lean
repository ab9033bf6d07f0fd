import Outbox.Proofs.Delivery
import Outbox.Proofs.Places

/-! Rounds that nothing keeps from going on: if the store does not fail, nobody else holds the
checkpoint and there is something to tell of every event, then a round ends with the checkpoint at
the place of its transaction or beyond. So its consumer is done with one transaction after
another. -/
namespace Outbox
variable {σ : Type} [Model σ]

namespace Ledger

def Telling (l : Ledger σ) : Prop := ∀ e ∈ l.events, ∃ i, l.tell e = .ok i

theorem telling_iff {l : Ledger σ} : l.Telling ↔ ∀ e ∈ l.events, (l.tell e).isOk = true := by
  refine forall₂_congr fun e _ => ?_
  cases l.tell e <;> simp [Except.isOk, Except.toBool]

instance decidableTelling (l : Ledger σ) : Decidable l.Telling :=
  decidable_of_iff _ telling_iff.symm

theorem Telling.of_grows {l m : Ledger σ} (h : m.Telling) (hg : l.Grows m) (hl : l.Dense)
    (hm : m.Dense) : l.Telling := by
  intro e he
  rw [← hg.tell hl hm he]
  exact h e (hg.events.subset he)

theorem Telling.stateAt {l : Ledger σ} (h : l.Telling) (hd : l.Dense) {id : Uuid} {n : Nat}
    (hn : n ≤ (l.stream id).length) : ∃ s, l.stateAt id n = .ok s := by
  cases n with
  | zero => exact ⟨Model.initial, rfl⟩
  | succ n =>
    obtain ⟨he, hid⟩ := mem_stream.mp ((l.stream id).getElem_mem hn)
    have hv := (hd.numbered id).version_getElem n hn
    have hf := (hd.numbered id).filter_upTo (n + 1)
    obtain ⟨i, hi⟩ := h _ he
    rw [tell, hid, hv, show (0 : Int) + n + 1 = 0 + (n + 1 : Nat) by omega, hf] at hi
    cases hs : l.stateAt id (n + 1) with
    | ok s => exact ⟨s, rfl⟩
    | error x =>
      rw [Ledger.stateAt] at hs
      simp [hs] at hi

/-- Events of a stream can all be told from an aggregate that was rebuilt up to them. -/
theorem Telling.announce {l : Ledger σ} (h : l.Telling) (hd : l.Dense) {a : Aggregate σ} {n : Nat}
    {es : List (EventOf σ)} (hv : a.version = n) (hs : l.stateAt a.id n = .ok a.state)
    (hn : Event.Numbered n es) (he : ∀ e ∈ es, e ∈ l.stream a.id) :
    ∃ b batch, a.announce es = (b, .ok batch) := by
  induction es generalizing a n with
  | nil => exact ⟨a, [], rfl⟩
  | cons e es ih =>
    obtain ⟨hev, hes⟩ := hn
    have hm : e ∈ l.stream a.id := he e List.mem_cons_self
    have hid : e.aggregateId = a.id := (mem_stream.mp hm).2
    have hg := hd.getElem?_stream hm (n := n) hev
    obtain ⟨s, hs'⟩ := h.stateAt hd (List.getElem?_eq_some_iff.mp hg).1
    have ha : Model.apply a.state e = .ok s := by rw [← stateAt_succ hs hg, hs']
    obtain ⟨i, hi⟩ := h e (mem_stream.mp hm).1
    rw [hd.tell_eq (n := n + 1) (by omega) (hid ▸ hs')] at hi
    obtain ⟨b, batch, hb⟩ := ih (n := n + 1)
      (a := { a with state := s, version := e.version, changes := a.changes ++ [e] })
      (by simp only; omega) hs' (by rw [Int.natCast_add]; exact hes)
      (fun f hf => he f (List.mem_cons_of_mem e hf))
    cases hp : Model.integration s e.eventType with
    | error x => simp [hp] at hi
    | ok payload =>
      refine ⟨b, ⟨a.id, e.eventType, payload⟩ :: batch, ?_⟩
      simp only [Aggregate.announce, Aggregate.advance, hv, ← hev, if_true, ha,
        Aggregate.integrationEvent, hp, hb]

end Ledger

namespace Round

/-- Whether the round has been given what it asked for so far, and the events that it has found and
the aggregate that it rebuilds fit together. -/
def Thrives : Stage σ → Prop
  | .sawCheckpoint _ found => ∃ c, found = .ok (some c)
  | .sawUnhandled _ found => ∃ es, found = .ok es
  | .sawSnapshot _ es first _ found =>
    Event.Numbered (first - 1) es ∧ ∃ x, found = .ok x ∧ ∀ y ∈ x, y.version < first
  | .sawHistory _ es a found =>
    ∃ hs, found = .ok hs ∧ Event.Numbered (a.version + hs.length) es
  | .published _ _ _ result => result = .ok ()
  | .moved _ _ result => result = .ok ()
  | .cancelled => False
  | _ => True

/-- How a round on its way that thrives goes on. -/
inductive Proceeds (l : Ledger σ) (t : Transaction) : Stage σ → Prop
  | further {stage : Stage σ} (going : stage.rank ≠ 0) (thrives : Thrives stage) :
    Proceeds l t stage
  | behind (there : t.sequence ≤ l.checkpoint.last) :
    Proceeds l t (.ended (.ok (.alreadyRelayed l.checkpoint.last)))
  | ahead (n : Nat) : Proceeds l t (.ended (.ok (.relayed n t.sequence)))

theorem numbered_due {l : Ledger σ} (hl : l.Sound) (ho : l.Ordered) {t : Transaction}
    {e : EventOf σ} {es : List (EventOf σ)} (h : e :: es = l.due t) :
    Event.Numbered (e.version - 1) (e :: es) := by
  obtain ⟨fs, hf⟩ := ho.within_prefix t.aggregateId ⟨l.checkpoint.last, t.sequence⟩
  have hn := (hl.numbered t.aggregateId).drop (List.countP_le_length (p :=
    fun e => decide (l.place e ≤ l.checkpoint.last)))
  rw [← hf, Event.numbered_append] at hn
  have hd := hn.1
  rw [show l.within t.aggregateId ⟨l.checkpoint.last, t.sequence⟩ = e :: es from h.symm] at hd
  have hv := hd.1
  rwa [hv, Int.add_sub_cancel]

theorem Locked.le_length {l : Ledger σ} (hl : l.Sound) {t : Transaction} {u : UnitOfWork σ}
    {es : List (EventOf σ)} (h : Locked l t u es) {n : Nat} (hn : Event.Numbered n es) :
    n ≤ (l.stream t.aggregateId).length := by
  cases es with
  | nil => exact absurd rfl h.some
  | cons e es =>
    have he : e ∈ l.due t := h.events ▸ List.mem_cons_self
    have hb := (hl.numbered t.aggregateId).bounds (Ledger.mem_due.mp he).1
    have hv := hn.1
    omega

theorem moveCheckpoint_proceeds {w : World σ} (calm : w.store.failing = []) (r : Round σ)
    (n : Nat) : Proceeds w.store.ledger r.transaction (r.moveCheckpoint w .locking n).2.stage := by
  rcases w.store.moveCheckpoint_cases .locking ⟨r.transaction.sequence⟩ with
    ⟨x, hx, -⟩ | ⟨held, he⟩
  · cases hx calm
  · simp only [moveCheckpoint, he]
    exact .further (Nat.succ_ne_zero _) rfl

section
variable [LawfulModel σ] {w : World σ} (calm : w.store.failing = [])
  (hl : w.store.ledger.Sound) (hf : w.store.ledger.Faithful)
  (telling : w.store.ledger.Telling) {r : Round σ}

include hl hf telling in
theorem announce_proceeds {u : UnitOfWork σ} {es : List (EventOf σ)} {cap : Int} {n : Nat} {s : σ}
    (hk : Locked w.store.ledger r.transaction u es)
    (hs : w.store.ledger.CanLoad r.transaction.aggregateId n s) (hn : Event.Numbered n es) :
    Proceeds w.store.ledger r.transaction
      (r.announce w u es (.loaded r.transaction.aggregateId cap n s)).2.stage := by
  obtain ⟨b, batch, hb⟩ := telling.announce hl.toDense
    (a := .loaded r.transaction.aggregateId cap n s) rfl (hs.stateAt hf) hn
    fun e he => (Ledger.mem_due.mp (hk.events ▸ he)).1
  simp only [Round.announce, hb]
  exact .further (Nat.succ_ne_zero _) trivial

include calm hl hf telling in
theorem step_sawSnapshot_proceeds {u : UnitOfWork σ} {es : List (EventOf σ)} {first : Int}
    {a : Aggregate σ} {found : Except Error (Option (SnapshotOf σ))} (peers : Peers σ)
    (here : r.stage = .sawSnapshot u es first a found)
    (holds : Holds w.store.ledger r.transaction (.sawSnapshot u es first a found))
    (thrives : Thrives (.sawSnapshot u es first a found)) :
    Proceeds w.store.ledger r.transaction (r.step peers w).2.stage := by
  obtain ⟨hk, ⟨m, hm⟩, ⟨cap, rfl⟩, hx⟩ := holds
  obtain ⟨hn, x, rfl, hy⟩ := thrives
  rw [hm, Int.add_sub_cancel] at hn
  have stored (y : SnapshotOf σ) (hxy : y ∈ x) : y ∈ w.store.ledger.snapshots ∧
      y.aggregateId = r.transaction.aggregateId := hx y (congrArg _ hxy)
  obtain ⟨n, s, hnm, hs, hr⟩ :=
    hl.resume_below r.transaction.aggregateId cap (m := m) stored fun y hxy => hm ▸ hy y hxy
  have hlen := hk.le_length hl hn
  by_cases hlt : (Aggregate.loaded r.transaction.aggregateId cap n s).version + 1 < first
  · simp only [step, here, hr, if_pos hlt]
    refine .further (Nat.succ_ne_zero _) ?_
    have hb := hl.eventsBetween_upTo r.transaction.aggregateId n m
    refine ⟨((w.store.ledger.stream r.transaction.aggregateId).take m).drop n, ?_, ?_⟩
    · rw [hm, Int.add_sub_cancel, Store.readEvents, Store.check_of_calm calm]
      exact congrArg Except.ok hb
    · rw [List.length_drop, List.length_take, Nat.min_eq_left hlen, Aggregate.loaded_version,
        show (n : Int) + (m - n : Nat) = m by omega]
      exact hn
  · simp only [step, here, hr, if_neg hlt]
    refine announce_proceeds hl hf telling hk hs ?_
    have hmn : (m : Int) = n := by
      rw [Aggregate.loaded_version] at hlt
      omega
    exact hmn ▸ hn

include hl hf telling in
theorem step_sawHistory_proceeds {u : UnitOfWork σ} {es : List (EventOf σ)} {a : Aggregate σ}
    {found : Except Error (List (EventOf σ))} (peers : Peers σ)
    (here : r.stage = .sawHistory u es a found)
    (holds : Holds w.store.ledger r.transaction (.sawHistory u es a found))
    (thrives : Thrives (.sawHistory u es a found)) :
    Proceeds w.store.ledger r.transaction (r.step peers w).2.stage := by
  obtain ⟨hk, cap, n, s, hs, rfl, he⟩ := holds
  obtain ⟨hist, rfl, hn⟩ := thrives
  rw [Aggregate.loaded_version, ← Int.natCast_add] at hn
  obtain ⟨t, ht⟩ := telling.stateAt hl.toDense (hk.le_length hl hn)
  have hb := hl.build_prefix hf cap hs (he hist rfl) ht
  have happend := Ledger.stateAt_append (hs.stateAt hf) (he hist rfl)
  have hc := hs.replay (he hist rfl) (happend.symm.trans ht)
  simp only [step, here, hb]
  exact announce_proceeds hl hf telling hk hc hn

include calm hl hf telling in
/-- Nothing keeps a round that thrives from going on. -/
theorem Thrives.step (ho : w.store.ledger.Ordered) {peers : Peers σ}
    (accepts : ∀ batch, peers.publish batch = .ok ())
    (free : ∀ u, r.stage = .opened u → w.store.checkpointHeld = false)
    (holds : Holds w.store.ledger r.transaction r.stage) (going : r.stage.rank ≠ 0)
    (thrives : Thrives r.stage) :
    Proceeds w.store.ledger r.transaction (r.step peers w).2.stage := by
  have hcheck := Store.check_of_calm calm
  cases hs : r.stage with
  | waiting =>
    simp only [Round.step, hs, Store.begin, hcheck]
    exact .further (Nat.succ_ne_zero _) trivial
  | opened u =>
    rw [hs] at holds
    obtain rfl : u = {} := holds
    simp only [Round.step, hs, Store.readCheckpoint, hcheck, free _ hs, Bool.false_eq_true,
      if_false]
    exact .further (Nat.succ_ne_zero _) ⟨_, rfl⟩
  | sawCheckpoint u found =>
    rw [hs] at holds thrives
    obtain ⟨c, rfl⟩ := thrives
    obtain ⟨rfl, rfl⟩ := holds c rfl
    cases he : (r.range w.store.ledger.checkpoint).isEmpty with
    | true =>
      simp only [Round.step, hs, he, if_true, standDown, Store.rollback, hcheck]
      exact .behind (of_decide_eq_true he)
    | false =>
      simp only [Round.step, hs, he, Bool.false_eq_true, if_false, Store.readRange, hcheck]
      exact .further (Nat.succ_ne_zero _) ⟨_, rfl⟩
  | sawUnhandled u found =>
    rw [hs] at holds thrives
    obtain ⟨es, rfl⟩ := thrives
    obtain ⟨rfl, -, hd⟩ := holds
    cases es with
    | nil =>
      simp only [Round.step, hs]
      exact moveCheckpoint_proceeds calm r 0
    | cons e es =>
      simp only [Round.step, hs, Store.readSnapshot, hcheck]
      refine .further (Nat.succ_ne_zero _) ⟨numbered_due hl ho (hd _ rfl), _, rfl, fun y hy => ?_⟩
      exact of_decide_eq_true (Ledger.mem_of_latestSnapshot hy).2.2
  | sawSnapshot u es first a found =>
    rw [hs] at holds thrives
    exact step_sawSnapshot_proceeds calm hl hf telling peers hs holds thrives
  | sawHistory u es a found =>
    rw [hs] at holds thrives
    exact step_sawHistory_proceeds hl hf telling peers hs holds thrives
  | publishing u a batch =>
    simp only [Round.step, hs, World.publish, accepts batch]
    exact .further (Nat.succ_ne_zero _) rfl
  | published u a n result =>
    rw [hs] at holds thrives
    obtain rfl : result = .ok () := thrives
    obtain ⟨hk, -⟩ := holds
    simp only [Round.step, hs, hk.unit]
    exact moveCheckpoint_proceeds (w := w.say (.publishedEvents a.id n)) calm r n
  | moved u n result =>
    rw [hs] at holds thrives
    obtain rfl : result = .ok () := thrives
    obtain ⟨s, hc⟩ := Store.commit_readOnly calm (UnitOfWork.readOnly_moving r.transaction)
    simp only [Round.step, hs, conclude, Store.conclude, holds.2.2 rfl, hc]
    exact .ahead n
  | ended result => simp [hs, Stage.rank] at going
  | cancelled => simp [hs, Stage.rank] at going

include calm hl hf telling in
/-- A step of a round that thrives leads on or ends it, and the end has moved the checkpoint to the
place of its transaction unless the checkpoint was there already. -/
theorem Thrives.step_cases (ho : w.store.ledger.Ordered) {peers : Peers σ}
    (accepts : ∀ batch, peers.publish batch = .ok ())
    (free : ∀ u, r.stage = .opened u → w.store.checkpointHeld = false)
    (fresh : r.Fresh) (holds : Holds w.store.ledger r.transaction r.stage)
    (going : r.stage.rank ≠ 0) (thrives : Thrives r.stage) :
    ((r.step peers w).1.store.ledger = w.store.ledger ∧ (r.step peers w).2.stage.rank ≠ 0 ∧
        Thrives (r.step peers w).2.stage) ∨
      ∃ result, (r.step peers w).2.stage = .ended result ∧
        ((r.transaction.sequence ≤ w.store.ledger.checkpoint.last ∧
            (r.step peers w).1.store.ledger = w.store.ledger) ∨
          (w.store.ledger.checkpoint.last < r.transaction.sequence ∧
            (r.step peers w).1.store.ledger =
              { w.store.ledger with checkpoint := ⟨r.transaction.sequence⟩ })) := by
  have hp := thrives.step calm hl hf telling ho accepts free holds going
  have he := holds.effect hl hf fresh (r.step_move peers w)
  generalize hs : (r.step peers w).2.stage = stage at hp
  -- one says how the round goes on and the other what becomes of the ledger: few pairs fit
  cases he with
  | idles ended => exact absurd ended going
  | ends ended still ledger batches excuse =>
    rw [hs] at ended still
    cases hp with
    | further going => exact absurd ended going
    | behind there => exact .inr ⟨_, rfl, .inl ⟨there, ledger⟩⟩
    | ahead n => exact absurd rfl (still n _)
  | goes further holds ledger =>
    rw [hs] at further
    cases hp with
    | further going thrives => exact .inl ⟨ledger, going, thrives⟩
    | behind | ahead => exact absurd rfl further
  | publishes u a batch here ledger batches there =>
    cases hp with
    | further going thrives => exact .inl ⟨ledger, going, thrives⟩
    | behind | ahead => simp [there] at hs
  | moves n here ledger batches there =>
    rw [here] at holds
    exact .inr ⟨_, hs.symm.trans there, .inr ⟨holds.1, ledger⟩⟩

end

end Round

def Arrival.transaction? (x : Arrival) : Option Transaction :=
  match x.result with
  | .ok t => t
  | .error _ => none

namespace Consumer

def pending (k : Consumer σ) : List Transaction :=
  (k.round?.map Round.transaction).toList ++ k.source.arrivals.filterMap Arrival.transaction?

theorem pending_notify (k : Consumer σ) (t : Transaction) :
    pending { k with
      source := { k.source with arrivals := k.source.arrivals ++ [⟨0, .ok (some t)⟩] } } =
        k.pending ++ [t] := by
  simp only [pending, List.filterMap_append, List.append_assoc]
  rfl

/-- A consumer that is only told of transactions, and whose round goes on. -/
structure Thrives (k : Consumer σ) : Prop where
  answered : ∀ x ∈ k.source.arrivals, ∃ t, x.result = .ok (some t)
  going : ∀ r ∈ k.round?, r.stage.rank ≠ 0
  round : ∀ r ∈ k.round?, Round.Thrives r.stage

/-- What a step of a consumer that thrives comes to: it has the same transactions to handle, or it
is done with the first of them. -/
inductive Handles (l : Ledger σ) (k k' : Consumer σ) : Ledger σ → Prop
  | stays (pending : k'.pending = k.pending) (busy : k.round?.isSome → k'.round?.isSome) :
    Handles l k k' l
  | again (r : Round σ) (here : k.round? = some r) (free : k'.round? = none)
    (next : k.pending = r.transaction :: k'.pending)
    (behind : r.transaction.sequence ≤ l.checkpoint.last) : Handles l k k' l
  | first (r : Round σ) (here : k.round? = some r) (free : k'.round? = none)
    (next : k.pending = r.transaction :: k'.pending)
    (ahead : l.checkpoint.last < r.transaction.sequence) :
    Handles l k k' { l with checkpoint := ⟨r.transaction.sequence⟩ }

theorem Thrives.step [LawfulModel σ] {w w' : World σ} {peers : Peers σ} {k k' : Consumer σ}
    (calm : w.store.failing = []) (hl : w.store.ledger.Sound) (hf : w.store.ledger.Faithful)
    (telling : w.store.ledger.Telling) (ho : w.store.ledger.Ordered)
    (accepts : ∀ batch, peers.publish batch = .ok ())
    (free : ∀ r u, k.round? = some r → r.stage = .opened u → w.store.checkpointHeld = false)
    (relays : k.Relays w.store.ledger) (h : k.Thrives) (hm : Move peers w k w' k') :
    k'.Thrives ∧ Handles w.store.ledger k k' w'.store.ledger := by
  cases hm with
  | rests ns k' here there provider arrivals kept =>
    have h₀ := round?_eq_none here
    have h₁ := round?_eq_none there
    have ha := kept h.answered
    refine ⟨⟨ha ▸ h.answered, by simp [h₁], by simp [h₁]⟩, .stays ?_ (by simp [h₀])⟩
    rw [pending, pending, h₀, h₁, ha]
  | takes x xs t here next answer =>
    have h₀ : k.round? = none := round?_eq_none (by simp [here])
    have hx : x.transaction? = some t := by rw [Arrival.transaction?, answer]
    refine ⟨⟨fun y hy => h.answered y (next ▸ List.mem_cons_of_mem x hy), ?_, ?_⟩,
      .stays ?_ (by simp [h₀])⟩
    · rintro r ⟨⟩
      exact Nat.succ_ne_zero _
    · rintro r ⟨⟩
      trivial
    · rw [pending, pending, h₀, next, List.filterMap_cons_some hx]
      rfl
  | relays r here going =>
    have h₀ := round?_eq_some here
    have hr := relays.sane r h₀
    rcases Round.Thrives.step_cases calm hl hf telling ho accepts (free r · h₀) hr.fresh hr.holds
      (h.going r h₀) (h.round r h₀) with ⟨hw, hg, ht⟩ | ⟨result, hs, -⟩
    · rw [hw]
      refine ⟨⟨h.answered, ?_, ?_⟩, .stays ?_ fun _ => rfl⟩
      · rintro r' ⟨⟩
        exact hg
      · rintro r' ⟨⟩
        exact ht
      · rw [pending, pending, h₀]
        simp only [round?, Option.map_some, (r.step_move peers w).transaction]
    · exact absurd hs (going result)
  | accounts r result ns report here ended =>
    have h₀ := round?_eq_some here
    have hr := relays.sane r h₀
    have hn : k.pending = r.transaction :: k.source.arrivals.filterMap Arrival.transaction? := by
      rw [pending, h₀]
      rfl
    refine ⟨⟨h.answered, by simp [round?], by simp [round?]⟩, ?_⟩
    rcases Round.Thrives.step_cases calm hl hf telling ho accepts (free r · h₀) hr.fresh hr.holds
      (h.going r h₀) (h.round r h₀) with ⟨-, hg, -⟩ | ⟨_, -, ⟨hb, hw⟩ | ⟨ha, hw⟩⟩
    · rw [ended] at hg
      exact absurd rfl hg
    · simp only [hw]
      exact .again r h₀ rfl hn hb
    · simp only [hw]
      exact .first r h₀ rfl hn ha

end Consumer

end Outbox
