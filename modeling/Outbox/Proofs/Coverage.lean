import Outbox.Proofs.Delivery

/-! What the checkpoint means. One consumer relays while commands commit: everything up to the
checkpoint has been published if and only if no round has moved the checkpoint past events of other
aggregates than its own. -/
namespace Outbox
variable {σ : Type} [Model σ]

theorem Store.stage_failing (s : Store σ) (u : UnitOfWork σ) (t : Uuid) (a : Aggregate σ)
    (x : Model.Snapshot σ) : (s.stage u t a x).2.2.failing = s.failing := by
  unfold stage
  split
  · rfl
  · split <;> rfl

theorem Handling.Move.batches {peers : Peers σ} {w w' : World σ} {h h' : Handling σ}
    (hm : Move peers w h w' h') : w'.batches = w.batches := by
  cases hm with
  | saves u here =>
    unfold World.save
    split <;> rfl
  | _ => rfl

theorem Handling.Move.failing {peers : Peers σ} {w w' : World σ} {h h' : Handling σ}
    (hm : Move peers w h w' h') : w'.store.failing = w.store.failing := by
  cases hm with
  | stages u es a b n => exact w.store.stage_failing u h.transactionId b b.snapshot
  | saves u here => rw [World.save_store]
  | _ => rfl

theorem Handling.cancel_failing (w : World σ) (h : Handling σ) :
    (h.cancel w).1.store.failing = w.store.failing := by
  rcases h.cancel_cases w with ⟨-, he⟩ | ⟨-, he⟩ | ⟨u, -, he⟩ <;> rw [he]
  rfl

theorem Round.Move.failing {peers : Peers σ} {w w' : World σ} {r r' : Round σ}
    (hm : Move peers w r w' r') : w'.store.failing = w.store.failing := by
  cases hm with
  | locks u here =>
    rcases w.store.readCheckpoint_cases u with ⟨found, -, he⟩ | ⟨held, he⟩ <;> rw [he]
  | publishes u a batch here => rw [World.publish_store]
  | moves u published ns here =>
    rcases w.store.moveCheckpoint_cases u ⟨r.transaction.sequence⟩ with ⟨x, -, he⟩ | ⟨held, he⟩ <;>
      rw [he]
  | _ => rfl

theorem Consumer.Move.failing {peers : Peers σ} {w w' : World σ} {k k' : Consumer σ}
    (hm : Move peers w k w' k') : w'.store.failing = w.store.failing := by
  cases hm with
  | rests => rfl
  | takes => rfl
  | relays r here => exact (r.step_move peers w).failing
  | accounts r result ns report here => exact (r.step_move peers w).failing

namespace Ledger

def Covers (l : Ledger σ) (e : EventOf σ) : Prop :=
  ∃ s, l.sequenceOf e.transactionId = some s ∧ l.checkpoint.covers s = true

theorem Sound.sequenceOf_pos {l : Ledger σ} (h : l.Sound) {id : Uuid} {s : Int}
    (hs : l.sequenceOf id = some s) : 0 < s := by
  obtain ⟨t, ht, rfl⟩ := Option.map_eq_some_iff.mp hs
  obtain ⟨n, hn⟩ := List.mem_iff_getElem?.mp (List.mem_of_find?_eq_some ht)
  have hp := h.place n t hn
  omega

end Ledger

theorem Consumer.mem_events_of_mem_sent {l : Ledger σ} {k : Consumer σ} {e : EventOf σ}
    (h : e ∈ (k.sent l).flatten) : e ∈ l.events := by
  cases hk : k.round? with
  | none => simp [sent, hk] at h
  | some r =>
    rw [sent_of_round hk, Round.sent] at h
    split at h
    · exact (Ledger.mem_batch.mp h).1
    · simp at h

/-- All that has been published beside a consumer: for each move of the checkpoint a batch, if its
aggregate had events there, and what the round on its way has had published. -/
structure Delivers (l : Ledger σ) (bs : List (List (IntegrationOf σ))) (k : Consumer σ)
    (told : List (List (EventOf σ))) (legs : List Leg) : Prop where
  relays : k.Relays l
  parts : told = legs.flatMap (fun g => l.batch g.aggregateId g.range) ++ k.sent l
  batches : bs.map (List.map .ok) = told.map (List.map l.tell)
  chain : Leg.Chain 0 legs l.checkpoint.last
  bound : l.checkpoint.last ≤ l.log.length

namespace Delivers
variable {l m : Ledger σ} {bs : List (List (IntegrationOf σ))} {k k' : Consumer σ}
  {told : List (List (EventOf σ))} {legs : List Leg}

theorem mem_told (h : Delivers l bs k told legs) {e : EventOf σ} :
    e ∈ told.flatten ↔
      (∃ g ∈ legs, e ∈ l.events ∧ e.aggregateId = g.aggregateId ∧ l.isInRange g.range e = true) ∨
        e ∈ (k.sent l).flatten := by
  have hb : e ∈ (legs.flatMap fun g => l.batch g.aggregateId g.range).flatten ↔
      ∃ g ∈ legs, e ∈ (l.batch g.aggregateId g.range).flatten := by
    simp only [List.mem_flatten, List.mem_flatMap]
    exact ⟨fun ⟨b, ⟨g, hg, hb⟩, he⟩ => ⟨g, hg, b, hb, he⟩,
      fun ⟨g, hg, b, hb, he⟩ => ⟨b, ⟨g, hg, hb⟩, he⟩⟩
  rw [h.parts, List.flatten_append, List.mem_append, hb]
  simp only [Ledger.mem_batch]

theorem mem_events (h : Delivers l bs k told legs) {e : EventOf σ} (he : e ∈ told.flatten) :
    e ∈ l.events := by
  rcases h.mem_told.mp he with ⟨g, -, he, -⟩ | he
  · exact he
  · exact Consumer.mem_events_of_mem_sent he

/-- What the round on its way has had published lies beyond the checkpoint. -/
theorem not_covers_of_mem_sent {e : EventOf σ} (he : e ∈ (k.sent l).flatten) : ¬ l.Covers e := by
  rintro ⟨s, hs, hc⟩
  cases hk : k.round? with
  | none => simp [Consumer.sent, hk] at he
  | some r =>
    rw [Consumer.sent_of_round hk, Round.sent] at he
    split at he
    · obtain ⟨-, -, hr⟩ := Ledger.mem_batch.mp he
      obtain ⟨s', hs', hr⟩ := Ledger.isInRange_iff.mp hr
      cases hs.symm.trans hs'
      have ha := (LogRange.contains_iff.mp hr).1
      have hb : s ≤ l.checkpoint.last := of_decide_eq_true hc
      simp only at ha
      omega
    · simp at he

/-- Of what the checkpoint has gone past, what was published is what one of its moves was for. -/
theorem mem_told_iff (h : Delivers l bs k told legs) {e : EventOf σ} (he : e ∈ l.events)
    (hc : l.Covers e) :
    e ∈ told.flatten ↔
      ∃ g ∈ legs, e.aggregateId = g.aggregateId ∧ l.isInRange g.range e = true := by
  rw [h.mem_told]
  constructor
  · rintro (⟨g, hg, -, hr⟩ | hs)
    · exact ⟨g, hg, hr⟩
    · exact absurd hc (not_covers_of_mem_sent hs)
  · rintro ⟨g, hg, hr⟩
    exact .inl ⟨g, hg, he, hr⟩

/-- All that the checkpoint has gone past was published, if and only if it never went past an event
of another aggregate than it was moved for. -/
theorem covered_iff (h : Delivers l bs k told legs) (hl : l.Sound) :
    (∀ e ∈ l.events, l.Covers e → e ∈ told.flatten) ↔
      ∀ g ∈ legs, ∀ e ∈ l.events, l.isInRange g.range e = true → e.aggregateId = g.aggregateId := by
  constructor
  · intro ha g hg e he hr
    obtain ⟨s, hs, hgs⟩ := Ledger.isInRange_iff.mp hr
    have hc : l.Covers e := ⟨s, hs, decide_eq_true (h.chain.bounds hg hgs).2⟩
    obtain ⟨f, hf, hi, hr'⟩ := (h.mem_told_iff he hc).mp (ha e he hc)
    obtain ⟨s', hs', hfs⟩ := Ledger.isInRange_iff.mp hr'
    cases hs.symm.trans hs'
    rw [hi, h.chain.eq_of_contains hf hg hfs hgs]
  · rintro ha e he ⟨s, hs, hc⟩
    obtain ⟨g, hg, hgs⟩ := h.chain.exists_contains (hl.sequenceOf_pos hs) (of_decide_eq_true hc)
    have hr : l.isInRange g.range e = true := Ledger.isInRange_iff.mpr ⟨s, hs, hgs⟩
    exact (h.mem_told_iff he ⟨s, hs, hc⟩).mpr ⟨g, hg, ha g hg e he hr, hr⟩

theorem mono (h : Delivers l bs k told legs) (hm : l.Later m) (hd : l.Dense) (hd' : m.Dense) :
    Delivers m bs k told legs := by
  have hn : (l.log.length : Int) ≤ m.log.length := Int.ofNat_le.mpr hm.log.length_le
  refine ⟨h.relays.mono hm hd hd', ?_, ?_, hm.checkpoint ▸ h.chain, ?_⟩
  · rw [h.parts, h.relays.sent_eq hm]
    congr 1
    refine List.flatMap_congr fun g hg => (hm.batch _ ?_).symm
    exact Int.le_trans (h.chain.upTo_le hg) h.bound
  · rw [h.batches]
    refine List.map_congr_left fun es hes => List.map_congr_left fun e he => ?_
    exact (hm.tell hd hd' (h.mem_events (List.mem_flatten.mpr ⟨es, hes, he⟩))).symm
  · rw [hm.checkpoint]
    exact Int.le_trans h.bound hn

theorem notify (h : Delivers l bs k told legs) (hl : l.Sound) {t : Transaction} (ht : t ∈ l.log) :
    Delivers l bs
      { k with source.arrivals := k.source.arrivals ++ [⟨0, .ok (some t)⟩] } told legs := by
  obtain ⟨n, hn⟩ := List.mem_iff_getElem?.mp ht
  have hp := hl.place n t hn
  refine ⟨⟨h.relays.fresh, fun x hx s hs => ?_, h.relays.sane⟩, h.parts, h.batches, h.chain,
    h.bound⟩
  rcases List.mem_append.mp hx with hx | hx
  · exact h.relays.notified x hx s hs
  · cases List.mem_singleton.mp hx
    cases hs
    have hb := (List.getElem?_eq_some_iff.mp hn).1
    omega

theorem idle {w w' : World σ} (h : Delivers w.store.ledger w.batches k told legs)
    (hk : k'.Relays w'.store.ledger) (ledger : w'.store.ledger = w.store.ledger)
    (batches : w'.batches = w.batches)
    (same : k'.sent w'.store.ledger = k.sent w.store.ledger) :
    Delivers w'.store.ledger w'.batches k' told legs := by
  rw [ledger] at hk same ⊢
  rw [batches]
  exact ⟨hk, same ▸ h.parts, h.batches, h.chain, h.bound⟩

theorem publish (h : Delivers l bs k told legs) (hk : k'.Relays l) {es : List (EventOf σ)}
    {batch : List (IntegrationOf σ)} (hb : batch.map .ok = es.map l.tell) (none : k.sent l = [])
    (all : k'.sent l = [es]) : Delivers l (bs ++ [batch]) k' (told ++ [es]) legs := by
  refine ⟨hk, ?_, ?_, h.chain, h.bound⟩
  · rw [all, h.parts, none, List.append_nil]
  · simp only [List.map_append, List.map_cons, List.map_nil, h.batches, hb]

theorem move (h : Delivers l bs k told legs) {t : Transaction}
    (hk : k'.Relays { l with checkpoint := ⟨t.sequence⟩ }) (ahead : l.checkpoint.last < t.sequence)
    (logged : t.sequence ≤ l.log.length) (all : k.sent l = l.parcels t)
    (none : k'.sent { l with checkpoint := ⟨t.sequence⟩ } = []) :
    Delivers { l with checkpoint := ⟨t.sequence⟩ } bs k' told
      (legs ++ [⟨t.aggregateId, ⟨l.checkpoint.last, t.sequence⟩⟩]) := by
  refine ⟨hk, ?_, h.batches, h.chain.concat t.aggregateId ahead, logged⟩
  rw [none, List.append_nil, List.flatMap_append, h.parts, all]
  simp only [List.flatMap_cons, List.flatMap_nil, List.append_nil]
  rfl

end Delivers

def Action.isOrdinary {ι : Type} : Action (Option ι) σ → Bool
  | .cancel none => false
  | .fail _ => false
  | _ => true

namespace Pool

section
variable {ι : Type} [DecidableEq ι] {p : Pool ι σ} {x : Action ι σ}

theorem published_eq_nil (h : (p.act x).world.batches = p.world.batches) : p.published x = [] := by
  simp [published, h]

theorem legs_eq_nil (h : (p.act x).ledger.checkpoint = p.ledger.checkpoint) : p.legs x = [] := by
  simp [legs, h]

theorem legs_eq_of_ahead {r : Round σ} (here : p.roundOf x = some r) {s : Int}
    (ahead : p.ledger.checkpoint.last < s) (moved : (p.act x).ledger.checkpoint = ⟨s⟩) :
    p.legs x = [⟨r.transaction.aggregateId, ⟨p.ledger.checkpoint.last, s⟩⟩] := by
  have hn : (p.act x).ledger.checkpoint ≠ p.ledger.checkpoint := by
    intro he
    rw [← he, moved] at ahead
    exact Int.lt_irrefl _ ahead
  rw [legs, if_neg hn, here, moved]
  rfl

end

variable {ι : Type} [DecidableEq ι]

theorem delivers_step [LawfulModel σ] {p : Pool (Option ι) σ} {k : Consumer σ}
    {told : List (List (EventOf σ))} {gs : List Leg} (hl : p.ledger.Sound)
    (hf : p.ledger.Faithful) (calm : p.world.store.failing = []) (hk : p.agents none = .consumer k)
    (h : Delivers p.ledger p.world.batches k told gs) (peers : Peers σ) (stop : Bool) :
    let q := p.act (.step none peers stop)
    ∃ k', q.agents none = .consumer k' ∧ Delivers q.ledger q.world.batches k'
      (told ++ p.published (.step none peers stop)) (gs ++ p.legs (.step none peers stop)) := by
  intro q
  have hq : q = _ := act_step_consumer hk peers stop
  have hr : p.roundOf (.step none peers stop) = k.round? := by
    simp only [roundOf, hk]
    rfl
  have hw : q.world = (k.step peers stop p.world).1 := by rw [hq]
  refine ⟨(k.step peers stop p.world).2, by simp [hq], ?_⟩
  obtain ⟨hk', hs⟩ := h.relays.step hl hf calm (k.step_move peers stop p.world)
  rw [← hw] at hk' hs
  cases hs with
  | nothing ledger batches same =>
    rw [published_eq_nil batches, legs_eq_nil (congrArg Ledger.checkpoint ledger),
      List.append_nil, List.append_nil]
    exact h.idle hk' ledger batches same
  | batch r batch here ledger batches told none all =>
    have hp : p.published (.step .none peers stop) = [r.outgoing] := by
      have hb : p.world.batches.length < q.world.batches.length := by simp [batches]
      rw [published, if_pos hb, hr, here]
      rfl
    rw [hp, legs_eq_nil (congrArg Ledger.checkpoint ledger), List.append_nil, batches]
    rw [ledger] at hk' all
    rw [Pool.ledger, ledger]
    exact h.publish hk' told none all
  | checkpoint r here ahead logged ledger batches all none =>
    have hc : q.ledger.checkpoint = ⟨r.transaction.sequence⟩ := by rw [Pool.ledger, ledger]
    have hg := legs_eq_of_ahead (hr.trans here) ahead hc
    rw [published_eq_nil batches, List.append_nil, hg, batches]
    rw [ledger] at hk' none
    rw [Pool.ledger, ledger]
    exact h.move hk' ahead logged all none

def consuming (cap : Uuid → Int) (requests : ι → Request σ) : Option ι → Call σ
  | none => .consume (fun id => .new id (cap id)) ⟨[], false⟩
  | some i => .request (requests i)

/-- What is true while one consumer relays beside requests. -/
structure Relays (cap : Uuid → Int) (requests : ι → Request σ) (p : Pool (Option ι) σ)
    (told : List (List (EventOf σ))) (gs : List Leg) : Prop where
  sound : p.Sound (consuming cap requests)
  faithful : p.ledger.Faithful
  logged : p.ledger.Logged
  calm : p.world.store.failing = []
  signed : ∀ t ∈ p.ledger.log, ∃ i, t.id = (requests i).transactionId ∧
    (p.agents (some i)).receipt?.isSome = true
  delivers : ∃ k, p.agents none = .consumer k ∧
    Delivers p.ledger p.world.batches k told gs

section
variable {cap : Uuid → Int} {requests : ι → Request σ} {p : Pool (Option ι) σ}
  {told : List (List (EventOf σ))} {gs : List Leg}

omit [DecidableEq ι] in
theorem relays_start (cap : Uuid → Int) (requests : ι → Request σ) :
    Relays cap requests (start {} (consuming cap requests)) [] [] where
  sound := sound_start _ Ledger.Sound.empty
  faithful := Ledger.Faithful.empty
  logged e he := by cases he
  calm := rfl
  signed t ht := by cases ht
  delivers := by
    refine ⟨_, rfl, ⟨fun id => ⟨cap id, rfl⟩, ?_, ?_⟩, rfl, rfl, rfl, Int.le_refl 0⟩
    · intro x hx
      cases hx
    · intro r hr
      cases hr

theorem Relays.quiet [LawfulModel σ] (h : Relays cap requests p told gs)
    {x : Action (Option ι) σ} (ledger : (p.act x).ledger = p.ledger)
    (batches : (p.act x).world.batches = p.world.batches)
    (failing : (p.act x).world.store.failing = p.world.store.failing)
    (receipts : ∀ j, ((p.act x).agents j).receipt? = (p.agents j).receipt?)
    (consumer : (p.act x).agents none = p.agents none) :
    Relays cap requests (p.act x) (told ++ p.published x) (gs ++ p.legs x) := by
  obtain ⟨hs, hx⟩ := h.sound.act x
  rw [published_eq_nil batches, legs_eq_nil (congrArg Ledger.checkpoint ledger), List.append_nil,
    List.append_nil]
  refine ⟨hx, hs.faithful h.sound.ledger h.faithful, hs.logged h.logged, failing.trans h.calm,
    ?_, ?_⟩
  · simpa only [ledger, receipts] using h.signed
  · rw [ledger, batches, consumer]
    exact h.delivers

theorem Relays.step_request [LawfulModel σ] (h : Relays cap requests p told gs)
    (distinct : Function.Injective fun i => (requests i).transactionId) (i : ι) (peers : Peers σ)
    (stop : Bool) :
    Relays cap requests (p.act (.step (some i) peers stop))
      (told ++ p.published (.step (some i) peers stop))
      (gs ++ p.legs (.step (some i) peers stop)) := by
  obtain ⟨y, ha, -⟩ := h.sound.agent_request (i := some i) rfl
  have he := act_step_handling ha peers stop
  have hm := y.step_move peers p.world
  have batches : (p.act (.step (some i) peers stop)).world.batches = p.world.batches := by
    rw [he]
    exact hm.batches
  have failing : (p.act (.step (some i) peers stop)).world.store.failing =
      p.world.store.failing := by
    rw [he]
    exact hm.failing
  have consumer : (p.act (.step (some i) peers stop)).agents none = p.agents none := by
    simp [he]
  rcases h.sound.step_request (i := some i) rfl peers stop with
    ⟨hl, hr⟩ | ⟨n, s, hw, hc, hl, hn, hr⟩
  · exact h.quiet hl batches failing hr consumer
  · obtain ⟨hs, hx⟩ := h.sound.act (.step (some i) peers stop)
    have fresh : ∀ t ∈ p.ledger.log, t.id ≠ (requests i).transactionId := by
      intro t ht hi
      obtain ⟨j, hj, hd⟩ := h.signed t ht
      have hji : j = i := distinct (hj.symm.trans hi)
      rw [hji, hn] at hd
      cases hd
    have later : p.ledger.Later (p.act (.step (some i) peers stop)).ledger :=
      hl ▸ Ledger.later_absorb_unit h.sound.ledger h.logged fresh
    rw [published_eq_nil batches, legs_eq_nil later.checkpoint, List.append_nil, List.append_nil]
    refine ⟨hx, hs.faithful h.sound.ledger h.faithful, hs.logged h.logged, failing.trans h.calm,
      fun t ht => ?_, ?_⟩
    · rw [hl, Ledger.log_absorb_unit] at ht
      rcases List.mem_append.mp ht with ht | ht
      · obtain ⟨j, hj, hd⟩ := h.signed t ht
        refine ⟨j, hj, ?_⟩
        rw [hr]
        split
        · rfl
        · exact hd
      · rw [List.mem_singleton.mp ht]
        exact ⟨i, rfl, by simp [hr]⟩
    · obtain ⟨k, hk, hd⟩ := h.delivers
      rw [batches, consumer]
      exact ⟨k, hk, hd.mono later h.sound.ledger.toDense hx.ledger.toDense⟩

theorem Relays.step_consumer [LawfulModel σ] (h : Relays cap requests p told gs)
    (peers : Peers σ) (stop : Bool) :
    Relays cap requests (p.act (.step none peers stop))
      (told ++ p.published (.step none peers stop)) (gs ++ p.legs (.step none peers stop)) := by
  obtain ⟨k, hk, hd⟩ := h.delivers
  obtain ⟨hs, hx⟩ := h.sound.act (.step none peers stop)
  have he := act_step_consumer hk peers stop
  have hlog : (p.act (.step none peers stop)).ledger.log = p.ledger.log := by
    rw [he]
    exact (hd.relays.step h.sound.ledger h.faithful h.calm (k.step_move peers stop p.world)).2.log
  refine ⟨hx, hs.faithful h.sound.ledger h.faithful, hs.logged h.logged, ?_, fun t ht => ?_,
    delivers_step h.sound.ledger h.faithful h.calm hk hd peers stop⟩
  · rw [he]
    exact (k.step_move peers stop p.world).failing.trans h.calm
  · obtain ⟨i, hi, hr⟩ := h.signed t (hlog ▸ ht)
    refine ⟨i, hi, ?_⟩
    simpa [he] using hr

theorem Relays.cancel_request [LawfulModel σ] (h : Relays cap requests p told gs) (i : ι) :
    Relays cap requests (p.act (.cancel (some i)))
      (told ++ p.published (.cancel (some i))) (gs ++ p.legs (.cancel (some i))) := by
  obtain ⟨y, ha, -⟩ := h.sound.agent_request (i := some i) rfl
  obtain ⟨hl, hr⟩ := h.sound.cancel_request (i := some i) rfl
  have he := act_cancel_handling ha
  refine h.quiet hl ?_ ?_ hr (by simp [he])
  · rw [he]
    exact y.cancel_batches p.world
  · rw [he]
    exact y.cancel_failing p.world

theorem Relays.notify [LawfulModel σ] (h : Relays cap requests p told gs) (i : Option ι)
    (place : Nat) :
    Relays cap requests (p.act (.notify i place)) (told ++ p.published (.notify i place))
      (gs ++ p.legs (.notify i place)) := by
  have hw : (p.act (.notify i place)).world = p.world := by
    simp only [Pool.act]
    split <;> rfl
  obtain ⟨hs, hx⟩ := h.sound.act (.notify i place)
  have hl := p.ledger_notify i place
  rw [published_eq_nil (congrArg World.batches hw), legs_eq_nil (congrArg Ledger.checkpoint hl),
    List.append_nil, List.append_nil]
  refine ⟨hx, hs.faithful h.sound.ledger h.faithful, hs.logged h.logged, hw ▸ h.calm, ?_, ?_⟩
  · simpa only [hl, p.receipt?_notify i place] using h.signed
  · obtain ⟨k, hk, hd⟩ := h.delivers
    rw [hl, hw]
    cases ht : p.ledger.log[place]? with
    | none =>
      simp only [Pool.act, ht]
      exact ⟨k, hk, hd⟩
    | some t =>
      simp only [Pool.act, ht]
      by_cases hi : none = i
      · subst hi
        exact ⟨_, by simp [hk, Agent.notify],
          hd.notify h.sound.ledger (List.mem_of_getElem? ht)⟩
      · exact ⟨k, by simp [hi, hk], hd⟩

theorem Relays.act [LawfulModel σ] (h : Relays cap requests p told gs)
    (distinct : Function.Injective fun i => (requests i).transactionId)
    {x : Action (Option ι) σ} (hx : x.isOrdinary = true) :
    Relays cap requests (p.act x) (told ++ p.published x) (gs ++ p.legs x) := by
  cases x with
  | step i peers stop =>
    cases i with
    | none => exact h.step_consumer peers stop
    | some i => exact h.step_request distinct i peers stop
  | cancel i =>
    cases i with
    | none => cases hx
    | some i => exact h.cancel_request i
  | notify i place => exact h.notify i place
  | fail operations => cases hx

theorem relays_run [LawfulModel σ] (cap : Uuid → Int)
    (distinct : Function.Injective fun i => (requests i).transactionId)
    {acts : List (Action (Option ι) σ)} (ordinary : ∀ x ∈ acts, x.isOrdinary = true) :
    Relays cap requests ((start {} (consuming cap requests)).run acts)
      (record published (start {} (consuming cap requests)) acts)
      (record legs (start {} (consuming cap requests)) acts) := by
  induction acts using List.reverseRecOn with
  | nil => exact relays_start cap requests
  | append_singleton acts x ih =>
    rw [run_append, record_concat, record_concat]
    exact (ih fun y hy => ordinary y (List.mem_append_left _ hy)).act distinct
      (ordinary x (List.mem_append_right _ (List.mem_singleton_self x)))

end

/-- Whatever commits while one consumer relays, whichever of its rounds fail and whatever it is
notified of: what was published tells of committed events; the checkpoint got where it is in moves
that each start where the last one ended; up to it, the events told of are those that a move was
for; and so all of them are if and only if no move went past an event of another aggregate than the
one it was for. -/
theorem covered_iff_of_run [LawfulModel σ] (cap : Uuid → Int) (requests : ι → Request σ)
    (distinct : Function.Injective fun i => (requests i).transactionId)
    (acts : List (Action (Option ι) σ)) (ordinary : ∀ x ∈ acts, x.isOrdinary = true) :
    let p₀ := start {} (consuming cap requests)
    let l := (p₀.run acts).ledger
    let told := record published p₀ acts
    (p₀.run acts).world.batches.map (List.map .ok) = told.map (List.map l.tell) ∧
      Leg.Chain 0 (record legs p₀ acts) l.checkpoint.last ∧
      (∀ e ∈ l.events, l.Covers e →
        (e ∈ told.flatten ↔
          ∃ g ∈ record legs p₀ acts,
            e.aggregateId = g.aggregateId ∧ l.isInRange g.range e = true)) ∧
      ((∀ e ∈ l.events, l.Covers e → e ∈ told.flatten) ↔
        ∀ g ∈ record legs p₀ acts, ∀ e ∈ l.events,
          l.isInRange g.range e = true → e.aggregateId = g.aggregateId) := by
  intro p₀ l told
  have h := relays_run cap distinct ordinary
  obtain ⟨k, -, hd⟩ := h.delivers
  exact ⟨hd.batches, hd.chain, fun e he hc => hd.mem_told_iff he hc,
    hd.covered_iff h.sound.ledger⟩

def signUps (i : Bool) : Request User :=
  .ofUser (1 + i.toNat) (1 + i.toNat) (User.signUp "a@example.com")

def beside : Pool (Option Bool) User := start {} (consuming (fun _ => User.snapshotCap) signUps)

/-- Both sign up; of the first the consumer is notified while the broker is away, of the second when
it is back. -/
def brokerAway : List (Action (Option Bool) User) :=
  List.replicate 6 (.go (some false)) ++ List.replicate 6 (.go (some true)) ++ .notify none 0 ::
    List.replicate 8 (.step none Peers.accepting.withoutBroker false) ++ .notify none 1 ::
      List.replicate 9 (.go none)

/-- The round for the second user moves the checkpoint past the first one's events as well. -/
theorem covered_iff_of_run_brokerAway :
    (∀ x ∈ brokerAway, x.isOrdinary = true) ∧
      record legs beside brokerAway = [⟨.ofNat 2, ⟨0, 2⟩⟩] ∧
      ((∀ e ∈ (beside.run brokerAway).ledger.events, (beside.run brokerAway).ledger.Covers e →
          e ∈ (record published beside brokerAway).flatten) ↔
        ∀ g ∈ record legs beside brokerAway, ∀ e ∈ (beside.run brokerAway).ledger.events,
          (beside.run brokerAway).ledger.isInRange g.range e = true →
            e.aggregateId = g.aggregateId) := by
  have distinct : Function.Injective fun i => (signUps i).transactionId := by
    intro i j
    revert i j
    decide
  have ordinary : ∀ x ∈ brokerAway, x.isOrdinary = true := by decide
  exact ⟨ordinary, by decide,
    (covered_iff_of_run (fun _ => User.snapshotCap) signUps distinct brokerAway ordinary).2.2.2⟩

/-- Then the checkpoint covers events of the first user, of whom nothing has been published. -/
theorem not_published_brokerAway :
    ∃ e ∈ (beside.run brokerAway).ledger.events, (beside.run brokerAway).ledger.Covers e ∧
      e ∉ (record published beside brokerAway).flatten ∧
      ∀ i ∈ (beside.run brokerAway).world.published, i.id ≠ e.aggregateId := by
  have hone : ∃ e ∈ (beside.run brokerAway).ledger.events, e.aggregateId = .ofNat 1 ∧
      (beside.run brokerAway).ledger.sequenceOf e.transactionId = some 1 := by decide
  have hcheckpoint : (beside.run brokerAway).ledger.checkpoint.covers 1 = true := by decide
  have hunsent : ∀ f ∈ (record published beside brokerAway).flatten, f.aggregateId ≠ .ofNat 1 := by
    decide
  have hpublished : ∀ i ∈ (beside.run brokerAway).world.published, i.id ≠ .ofNat 1 := by decide
  obtain ⟨e, he, hid, hs⟩ := hone
  exact ⟨e, he, ⟨1, hs, hcheckpoint⟩, fun hm => hunsent e hm hid, hid ▸ hpublished⟩

end Pool
end Outbox
