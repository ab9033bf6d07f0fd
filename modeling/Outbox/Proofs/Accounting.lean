import Mathlib.Data.List.Pairwise
import Outbox.Proofs.Coverage
import Outbox.Proofs.Footprint
import Outbox.Proofs.Places
import Outbox.Proofs.Steady

/-! What rounds of the relay come to together, however many there are side by side, whichever of
them fail or are given up, and whatever is committed beside them: the ranges of those that move the
checkpoint are a partition of what it has gone past, and each of them has had published what its
range holds of its aggregate, one after another. -/
namespace Outbox
variable {σ : Type} [Model σ]

/-- A round that has moved the checkpoint: who was at it, and which way the checkpoint has gone. -/
structure Advance (ι : Type) where
  mover : ι
  leg : Leg
  deriving DecidableEq

def Round.relayedTo? (r : Round σ) : Option Int :=
  match r.stage with
  | .ended (.ok (.relayed _ c)) => some c
  | _ => none

theorem Round.relayedTo?_eq_none {r : Round σ}
    (h : ∀ n c, r.stage ≠ .ended (.ok (.relayed n c))) : r.relayedTo? = none := by
  unfold relayedTo?
  split
  · next n c hs => exact absurd hs (h n c)
  · rfl

def Sending.told {ι : Type} (s : Sending ι σ) : ι × List (Except Error (IntegrationOf σ)) :=
  (s.sender, s.batch.map .ok)

def Sending.among {ι : Type} [DecidableEq ι] (agents : List ι) (sends : List (Sending ι σ)) :
    List (Sending ι σ) := sends.filter (·.sender ∈ agents)

/-- What is to be published of batches of events, and who is to have it published. -/
def Ledger.dispatch {ι : Type} (l : Ledger σ) (i : ι) (parcels : List (List (EventOf σ))) :
    List (ι × List (Except Error (IntegrationOf σ))) :=
  parcels.map fun es => (i, es.map l.tell)

theorem Ledger.Grows.dispatch {ι : Type} {l m : Ledger σ} (h : l.Grows m) (hl : l.Dense)
    (hm : m.Dense) (i : ι) {parcels : List (List (EventOf σ))}
    (he : ∀ es ∈ parcels, ∀ e ∈ es, e ∈ l.events) : m.dispatch i parcels = l.dispatch i parcels :=
  List.map_congr_left fun es hs =>
    congrArg (i, ·) (List.map_congr_left fun e hm' => h.tell hl hm (he es hs e hm'))

/-- All that the rounds among some agents have come to: each that is on its way has had its batch
published or nothing; those that have moved the checkpoint have had their batches published one
after another, each before the next of them locked the checkpoint. -/
structure Accounts {ι : Type} [DecidableEq ι] (l : Ledger σ) (agents : ι → Agent σ)
    (sends : List (Sending ι σ)) (done : List (Advance ι)) : Prop where
  steady : ∀ i r, agents i = .task (.round r) → r.Steady l
  sent : ∀ i r, agents i = .task (.round r) → r.stage.rank ≠ 0 →
    (sends.filter (·.sender = i)).map Sending.told =
      l.dispatch i (Round.sent l r.transaction r.stage)
  order : ∀ i r, agents i = .task (.round r) → r.stage.rank ≠ 0 →
    sends.filter (fun s => s.sender ∈ done.map Advance.mover ∨ s.sender = i) =
      sends.filter (·.sender ∈ done.map Advance.mover) ++ sends.filter (·.sender = i)
  finished : ∀ d ∈ done, ∃ r, agents d.mover = .task (.round r) ∧ r.stage.rank = 0
  once : (done.map Advance.mover).Nodup
  sums : (sends.filter (·.sender ∈ done.map Advance.mover)).map Sending.told =
    done.flatMap fun d => l.dispatch d.mover (l.batch d.leg.aggregateId d.leg.range)
  chain : Leg.Chain 0 (done.map Advance.leg) l.checkpoint.last
  bound : l.checkpoint.last ≤ l.log.length

namespace Accounts
variable {ι : Type} [DecidableEq ι] {l m : Ledger σ} {agents agents' : ι → Agent σ}
  {sends : List (Sending ι σ)} {done : List (Advance ι)}

theorem not_mem_done (h : Accounts l agents sends done) {i : ι} {r : Round σ}
    (here : agents i = .task (.round r)) (going : r.stage.rank ≠ 0) :
    i ∉ done.map Advance.mover := by
  intro hm
  obtain ⟨d, hd, rfl⟩ := List.mem_map.mp hm
  obtain ⟨r', hr, h0⟩ := h.finished d hd
  cases here.symm.trans hr
  exact going h0

theorem same (h : Accounts l agents sends done)
    (rounds : ∀ i r, agents' i = .task (.round r) ↔ agents i = .task (.round r)) :
    Accounts l agents' sends done where
  steady i r hi := h.steady i r ((rounds i r).mp hi)
  sent i r hi := h.sent i r ((rounds i r).mp hi)
  order i r hi := h.order i r ((rounds i r).mp hi)
  finished d hd := by
    obtain ⟨r, hr, h0⟩ := h.finished d hd
    exact ⟨r, (rounds _ r).mpr hr, h0⟩
  once := h.once
  sums := h.sums
  chain := h.chain
  bound := h.bound

theorem mono (h : Accounts l agents sends done) (hm : l.Later m) (hl : l.Dense) (hd : m.Dense) :
    Accounts m agents sends done where
  steady i r hi := (h.steady i r hi).mono hm hl hd
  sent i r hi going := by
    have hs := h.steady i r hi
    rw [hs.sent_eq hm, h.sent i r hi going]
    exact (hm.dispatch hl hd i fun es he e => Round.Steady.mem_events_of_mem_sent he).symm
  order := h.order
  finished := h.finished
  once := h.once
  sums := by
    rw [h.sums]
    refine List.flatMap_congr fun d hdone => ?_
    have hr : d.leg.range.upTo ≤ l.log.length :=
      Int.le_trans (h.chain.upTo_le (List.mem_map_of_mem hdone)) h.bound
    rw [hm.batch _ hr]
    refine (hm.dispatch hl hd _ fun es he e hes => ?_).symm
    exact (Ledger.mem_batch.mp (List.mem_flatten.mpr ⟨es, he, hes⟩)).1
  chain := hm.checkpoint ▸ h.chain
  bound := by
    rw [hm.checkpoint]
    exact Int.le_trans h.bound (Int.ofNat_le.mpr hm.log.length_le)

section
variable {i : ι} {r r' : Round σ} (here : agents i = .task (.round r))
  (there : agents' i = .task (.round r')) (others : ∀ j, j ≠ i → agents' j = agents j)
include here there others

theorem go (h : Accounts l agents sends done) (steady : r'.Steady l)
    (goes : r'.stage.rank ≠ 0 → r.stage.rank ≠ 0 ∧
      Round.sent l r'.transaction r'.stage = Round.sent l r.transaction r.stage) :
    Accounts l agents' sends done where
  steady j q hj := by
    by_cases hji : j = i
    · subst hji
      cases there.symm.trans hj
      exact steady
    · exact h.steady j q ((others j hji).symm.trans hj)
  sent j q hj going := by
    by_cases hji : j = i
    · subst hji
      cases there.symm.trans hj
      rw [(goes going).2]
      exact h.sent j r here (goes going).1
    · exact h.sent j q ((others j hji).symm.trans hj) going
  order j q hj going := by
    by_cases hji : j = i
    · subst hji
      cases there.symm.trans hj
      exact h.order j r here (goes going).1
    · exact h.order j q ((others j hji).symm.trans hj) going
  finished d hd := by
    obtain ⟨q, hq, h0⟩ := h.finished d hd
    by_cases hji : d.mover = i
    · rw [hji] at hq ⊢
      cases here.symm.trans hq
      refine ⟨r', there, ?_⟩
      by_contra going
      exact (goes going).1 h0
    · exact ⟨q, (others _ hji).trans hq, h0⟩
  once := h.once
  sums := h.sums
  chain := h.chain
  bound := h.bound

theorem send (h : Accounts l agents sends done) (steady : r'.Steady l) (going : r.stage.rank ≠ 0)
    {batch : List (IntegrationOf σ)} {es : List (EventOf σ)}
    (told : batch.map .ok = es.map l.tell) (none : Round.sent l r.transaction r.stage = [])
    (all : Round.sent l r'.transaction r'.stage = [es]) :
    Accounts l agents' (sends ++ [⟨i, batch⟩]) done := by
  have hi := h.not_mem_done here going
  have hdone : ([⟨i, batch⟩] : List (Sending ι σ)).filter (·.sender ∈ done.map Advance.mover) =
      [] := List.filter_cons_of_neg (by simpa using hi)
  have hself : ([⟨i, batch⟩] : List (Sending ι σ)).filter (·.sender = i) = [⟨i, batch⟩] :=
    List.filter_cons_of_pos (by simp)
  have hother {j : ι} (hji : j ≠ i) :
      ([⟨i, batch⟩] : List (Sending ι σ)).filter (·.sender = j) = [] :=
    List.filter_cons_of_neg (by simpa using Ne.symm hji)
  refine ⟨fun j q hj => ?_, fun j q hj hq => ?_, fun j q hj hq => ?_, fun d hd => ?_, h.once, ?_,
    h.chain, h.bound⟩
  · by_cases hji : j = i
    · subst hji
      cases there.symm.trans hj
      exact steady
    · exact h.steady j q ((others j hji).symm.trans hj)
  · by_cases hji : j = i
    · subst hji
      cases there.symm.trans hj
      have hs := h.sent j r here going
      rw [none] at hs
      rw [List.filter_append, List.map_append, hs, hself, all, Ledger.dispatch, Ledger.dispatch]
      simp [Sending.told, told]
    · rw [List.filter_append, hother hji, List.append_nil]
      exact h.sent j q ((others j hji).symm.trans hj) hq
  · by_cases hji : j = i
    · subst hji
      cases there.symm.trans hj
      have ho := h.order j r here going
      have hb : ([⟨j, batch⟩] : List (Sending ι σ)).filter
          (fun s => s.sender ∈ done.map Advance.mover ∨ s.sender = j) = [⟨j, batch⟩] :=
        List.filter_cons_of_pos (by simp)
      rw [List.filter_append, List.filter_append, List.filter_append, hb, hdone, hself, ho,
        List.append_nil, List.append_assoc]
    · have ho := h.order j q ((others j hji).symm.trans hj) hq
      have hb : ([⟨i, batch⟩] : List (Sending ι σ)).filter
          (fun s => s.sender ∈ done.map Advance.mover ∨ s.sender = j) = [] :=
        List.filter_cons_of_neg (by simp only [hi, Ne.symm hji, or_self, decide_false,
          Bool.false_eq_true, not_false_eq_true])
      rw [List.filter_append, List.filter_append, List.filter_append, hb, hdone, hother hji,
        List.append_nil, List.append_nil, List.append_nil, ho]
  · obtain ⟨q, hq, h0⟩ := h.finished d hd
    by_cases hji : d.mover = i
    · exact absurd (hji ▸ List.mem_map_of_mem hd) hi
    · exact ⟨q, (others _ hji).trans hq, h0⟩
  · rw [List.filter_append, hdone, List.append_nil]
    exact h.sums

/-- A round moves the checkpoint to the place of its transaction, while no other holds it. -/
theorem advance (h : Accounts l agents sends done) (fresh : r'.Fresh) (going : r.stage.rank ≠ 0)
    (ended : r'.stage.rank = 0)
    (ahead : l.checkpoint.last < r.transaction.sequence)
    (logged : r.transaction.sequence ≤ l.log.length)
    (all : Round.sent l r.transaction r.stage = l.parcels r.transaction)
    (alone : ∀ j q, j ≠ i → agents j = .task (.round q) → q.holdsCheckpoint = false) :
    Accounts { l with checkpoint := ⟨r.transaction.sequence⟩ } agents' sends
      (done ++ [⟨i, ⟨r.transaction.aggregateId,
        ⟨l.checkpoint.last, r.transaction.sequence⟩⟩⟩]) := by
  have hi := h.not_mem_done here going
  have hmem {s : Sending ι σ} : s.sender ∈ (done ++ [(⟨i, ⟨r.transaction.aggregateId,
      ⟨l.checkpoint.last, r.transaction.sequence⟩⟩⟩ : Advance ι)]).map Advance.mover ↔
      s.sender ∈ done.map Advance.mover ∨ s.sender = i := by
    rw [List.map_append, List.mem_append, List.map_singleton, List.mem_singleton]
  -- the others on their way have had nothing published yet
  have hnone {j : ι} {q : Round σ} (hji : j ≠ i) (hj : agents j = .task (.round q))
      (hq : q.stage.rank ≠ 0) : sends.filter (·.sender = j) = [] := by
    have hs := h.sent j q hj hq
    rw [(h.steady j q hj).sent_eq_nil (alone j q hji hj)] at hs
    exact List.map_eq_nil_iff.mp hs
  have hsteady {j : ι} {q : Round σ} (hji : j ≠ i) (hj : agents j = .task (.round q)) :
      q.Steady { l with checkpoint := ⟨r.transaction.sequence⟩ } :=
    (h.steady j q hj).relay (alone j q hji hj) _
  refine ⟨fun j q hj => ?_, fun j q hj hq => ?_, fun j q hj hq => ?_, fun d hd => ?_, ?_, ?_, ?_,
    logged⟩
  · by_cases hji : j = i
    · subst hji
      cases there.symm.trans hj
      exact Round.steady_of_unit?_eq_none fresh (Round.unit?_of_rank_eq_zero ended) _
    · exact hsteady hji ((others j hji).symm.trans hj)
  · by_cases hji : j = i
    · subst hji
      cases there.symm.trans hj
      exact absurd ended hq
    · have hj := (others j hji).symm.trans hj
      rw [hnone hji hj hq, (hsteady hji hj).sent_eq_nil (alone j q hji hj)]
      rfl
  · by_cases hji : j = i
    · subst hji
      cases there.symm.trans hj
      exact absurd ended hq
    · have hn := hnone hji ((others j hji).symm.trans hj) hq
      rw [hn, List.append_nil]
      refine List.filter_congr fun s hs => ?_
      have hsj : s.sender ≠ j := fun he => List.filter_eq_nil_iff.mp hn s hs (by simpa using he)
      simp only [hsj, or_false]
  · rcases List.mem_append.mp hd with hd | hd
    · obtain ⟨q, hq, h0⟩ := h.finished d hd
      by_cases hji : d.mover = i
      · exact absurd (hji ▸ List.mem_map_of_mem hd) hi
      · exact ⟨q, (others _ hji).trans hq, h0⟩
    · rw [List.mem_singleton.mp hd]
      exact ⟨r', there, ended⟩
  · rw [List.map_append, List.nodup_append]
    refine ⟨h.once, by simp, fun j hj k hk he => ?_⟩
    rw [List.map_singleton, List.mem_singleton] at hk
    have hji : j = i := he.trans hk
    exact hi (hji ▸ hj)
  · have ho := h.order i r here going
    have hs := h.sent i r here going
    rw [all] at hs
    simp only [hmem]
    rw [ho, List.map_append, h.sums, hs, List.flatMap_append, List.flatMap_singleton]
    rfl
  · rw [List.map_append, List.map_singleton]
    exact h.chain.concat _ ahead

end

/-- No place of the log lies in the ranges of two of them. -/
theorem eq_of_contains (h : Accounts l agents sends done) {d d' : Advance ι} (hd : d ∈ done)
    (hd' : d' ∈ done) {s : Int} (hs : d.leg.range.contains s = true)
    (hs' : d'.leg.range.contains s = true) : d = d' := by
  let R (d d' : Advance ι) : Prop :=
    ¬(d.leg.range.contains s = true ∧ d'.leg.range.contains s = true)
  have hsymm : Std.Symm R := ⟨fun _ _ hc hc' => hc hc'.symm⟩
  have hp : done.Pairwise R := by
    refine (List.pairwise_map.mp h.chain.pairwise).imp fun {f g} hle hc => ?_
    have hf := LogRange.contains_iff.mp hc.1
    have hg := LogRange.contains_iff.mp hc.2
    omega
  by_contra hne
  exact hp.forall hd hd' hne ⟨hs, hs'⟩

/-- Every event that the checkpoint has gone past lies in the range of one of them, which had it
published if it was for the event's aggregate, and no other did. -/
theorem exists_advance (h : Accounts l agents sends done) (hl : l.Sound) {e : EventOf σ}
    (he : e ∈ l.events) (hc : l.Covers e) :
    ∃ d ∈ done, l.isInRange d.leg.range e = true ∧ ∀ d' ∈ done,
      e ∈ l.within d'.leg.aggregateId d'.leg.range ↔
        d' = d ∧ e.aggregateId = d.leg.aggregateId := by
  obtain ⟨s, hs, hcover⟩ := hc
  obtain ⟨g, hg, hgs⟩ :=
    h.chain.exists_contains (hl.sequenceOf_pos hs) (of_decide_eq_true hcover)
  obtain ⟨d, hd, rfl⟩ := List.mem_map.mp hg
  have hr : l.isInRange d.leg.range e = true := Ledger.isInRange_iff.mpr ⟨s, hs, hgs⟩
  refine ⟨d, hd, hr, fun d' hd' => ?_⟩
  rw [Ledger.within, List.mem_filter, Ledger.mem_stream]
  constructor
  · rintro ⟨⟨-, hid⟩, hr'⟩
    obtain ⟨s', hs', hds⟩ := Ledger.isInRange_iff.mp hr'
    cases hs.symm.trans hs'
    obtain rfl := h.eq_of_contains hd' hd hds hgs
    exact ⟨rfl, hid⟩
  · rintro ⟨rfl, hid⟩
    exact ⟨⟨he, hid⟩, hr⟩

/-- Of every aggregate they have had the events published in the order of their versions. -/
theorem pairwise (h : Accounts l agents sends done) (hd : l.Dense) (ho : l.Ordered) (id : Uuid) :
    ((done.flatMap fun d => l.within d.leg.aggregateId d.leg.range).filter
      (·.aggregateId = id)).Pairwise fun e f => e.version < f.version := by
  rw [List.filter_flatMap, List.pairwise_flatMap]
  refine ⟨fun d _ => (((hd.numbered _).pairwise.filter _).filter _), ?_⟩
  refine (List.pairwise_map.mp h.chain.pairwise).imp fun {d d'} hle e he f hf => ?_
  obtain ⟨he, hei⟩ := List.mem_filter.mp he
  obtain ⟨hf, hfi⟩ := List.mem_filter.mp hf
  obtain ⟨he, her⟩ := List.mem_filter.mp he
  obtain ⟨hf, hfr⟩ := List.mem_filter.mp hf
  have he' := Ledger.mem_stream.mp he
  have hf' := Ledger.mem_stream.mp hf
  have hre := (ho.isInRange_iff he'.1).mp her
  have hrf := (ho.isInRange_iff hf'.1).mp hfr
  by_contra hv
  have hes : e ∈ l.stream id := Ledger.mem_stream.mpr ⟨he'.1, by simpa using hei⟩
  have hfs : f ∈ l.stream id := Ledger.mem_stream.mpr ⟨hf'.1, by simpa using hfi⟩
  have hp := ho.place_le hd hfs hes (Int.not_lt.mp hv)
  omega

end Accounts

namespace Pool
variable {ι : Type} [DecidableEq ι]

/-- The round that ends with an action, having moved the checkpoint: from where it was before to
what the round returns. -/
def advances (p : Pool ι σ) : Action ι σ → List (Advance ι)
  | .step i peers _ =>
    match p.agents i with
    | .task (.round r) =>
      match r.relayedTo?, (r.step peers p.world).2.relayedTo? with
      | none, some c => [⟨i, ⟨r.transaction.aggregateId, ⟨p.ledger.checkpoint.last, c⟩⟩⟩]
      | _, _ => []
    | _ => []
  | _ => []

/-- The transaction of a round that goes on by a step without its being in the log. -/
def strangers (p : Pool ι σ) : Action ι σ → List Transaction
  | .step i _ _ =>
    match p.agents i with
    | .task (.round r) => if r.transaction ∈ p.ledger.log then [] else [r.transaction]
    | _ => []
  | _ => []

/-- What is true while rounds relay beside requests. -/
structure Reckons (calls : ι → Call σ) (p : Pool ι σ) (sends : List (Sending ι σ))
    (done : List (Advance ι)) : Prop where
  tidy : p.Tidy calls
  faithful : p.ledger.Faithful
  guarded : p.Guarded
  accounts : Accounts p.ledger p.agents sends done
  called : ∀ i r, p.agents i = .task (.round r) →
    ∃ provider, calls i = .relay r.transaction provider
  movers : ∀ d ∈ done, ∃ t provider, calls d.mover = .relay t provider ∧
    d.leg.aggregateId = t.aggregateId ∧ d.leg.range.upTo = t.sequence

section
variable [LawfulModel σ] {calls : ι → Call σ} {p : Pool ι σ} {sends : List (Sending ι σ)}
  {done : List (Advance ι)}

theorem Reckons.aside (h : p.Reckons calls sends done) (distinct : Call.Distinct calls)
    {x : Action ι σ} (later : p.ledger.Later (p.act x).ledger)
    (accounts : Accounts (p.act x).ledger (p.act x).agents sends done)
    (batches : (p.act x).world.batches = p.world.batches) (idle : p.advances x = [])
    (called : ∀ i r, (p.act x).agents i = .task (.round r) →
      ∃ provider, calls i = .relay r.transaction provider) :
    (p.act x).Reckons calls (sends ++ p.sends x) (done ++ p.advances x) ∧
      p.legs x = (p.advances x).map Advance.leg := by
  rw [sends_eq_nil batches, idle, List.append_nil, List.append_nil, legs_eq_nil later.checkpoint]
  refine ⟨⟨h.tidy.act distinct x, ?_, h.guarded.act x, accounts, called, h.movers⟩, rfl⟩
  exact (h.tidy.sound.act x).1.faithful h.tidy.sound.ledger h.faithful

omit [LawfulModel σ] [DecidableEq ι] in
theorem advances_step {i : ι} {r : Round σ} (hi : p.agents i = .task (.round r)) (peers : Peers σ)
    (told : Bool) :
    p.advances (.step i peers told) =
      match r.relayedTo?, (r.step peers p.world).2.relayedTo? with
      | none, some c => [⟨i, ⟨r.transaction.aggregateId, ⟨p.ledger.checkpoint.last, c⟩⟩⟩]
      | _, _ => [] := by
  simp only [advances, hi]

omit [LawfulModel σ] [DecidableEq ι] in
theorem advances_eq_nil {i : ι} {r : Round σ} (hi : p.agents i = .task (.round r))
    (peers : Peers σ) (told : Bool)
    (still : ∀ n c, (r.step peers p.world).2.stage ≠ .ended (.ok (.relayed n c))) :
    p.advances (.step i peers told) = [] := by
  rw [advances_step hi, Round.relayedTo?_eq_none still]
  cases r.relayedTo? <;> rfl

omit [LawfulModel σ] [DecidableEq ι] in
/-- While a round holds the checkpoint, no other does. -/
theorem Guarded.apart (h : p.Guarded) {i j : ι} {q r : Round σ}
    (hi : p.agents i = .task (.round r)) (holds : r.holdsCheckpoint = true) (hji : j ≠ i)
    (hj : p.agents j = .task (.round q)) : q.holdsCheckpoint = false := by
  by_contra hq
  refine hji (h.alone j i ?_ ?_)
  · rw [hj]
    exact eq_true_of_ne_false hq
  · rw [hi]
    exact holds

section
variable {i : ι} {r : Round σ} (hi : p.agents i = .task (.round r)) (peers : Peers σ) (told : Bool)
include hi

omit [LawfulModel σ] in
theorem Reckons.called_step (h : p.Reckons calls sends done) (j : ι) (q : Round σ)
    (hj : (p.act (.step i peers told)).agents j = .task (.round q)) :
    ∃ provider, calls j = .relay q.transaction provider := by
  by_cases hji : j = i
  · subst hji
    have there : (p.act (.step j peers told)).agents j = .task (.round (r.step peers p.world).2) :=
      agents_step_task hi peers told
    cases there.symm.trans hj
    rw [(r.step_move peers p.world).transaction]
    exact h.called j r hi
  · refine h.called j q (.trans ?_ hj)
    simp [Pool.act, hji]

omit [LawfulModel σ] in
theorem Reckons.logged_step (h : p.Reckons calls sends done)
    (heard : p.strangers (.step i peers told) = []) :
    r.transaction.sequence ≤ p.ledger.log.length := by
  have hmem : r.transaction ∈ p.ledger.log := by
    by_contra hn
    simp [strangers, hi, hn] at heard
  exact (h.tidy.sound.ledger.sequence_mem hmem).2

theorem Reckons.step_round (h : p.Reckons calls sends done) (distinct : Call.Distinct calls)
    (heard : p.strangers (.step i peers told) = []) :
    (p.act (.step i peers told)).Reckons calls (sends ++ p.sends (.step i peers told))
        (done ++ p.advances (.step i peers told)) ∧
      p.legs (.step i peers told) = (p.advances (.step i peers told)).map Advance.leg := by
  have hm := r.step_move peers p.world
  have hw : (p.act (.step i peers told)).world = (r.step peers p.world).1 :=
    world_step_task hi peers told
  have there : (p.act (.step i peers told)).agents i = .task (.round (r.step peers p.world).2) :=
    agents_step_task hi peers told
  have others (j : ι) (hji : j ≠ i) : (p.act (.step i peers told)).agents j = p.agents j := by
    simp [Pool.act, hji]
  have hlog := h.logged_step hi peers told heard
  have called := h.called_step hi peers told
  obtain ⟨effect, steady⟩ :=
    (h.accounts.steady i r hi).step h.tidy.sound.ledger h.faithful hlog hm
  rw [← hw] at effect steady
  have faithful : (p.act (.step i peers told)).ledger.Faithful :=
    (h.tidy.sound.act _).1.faithful h.tidy.sound.ledger h.faithful
  -- nothing published, and the checkpoint left where it is
  have quiet (ledger : (p.act (.step i peers told)).ledger = p.ledger)
      (batches : (p.act (.step i peers told)).world.batches = p.world.batches)
      (idle : p.advances (.step i peers told) = [])
      (goes : (r.step peers p.world).2.stage.rank ≠ 0 → r.stage.rank ≠ 0 ∧
        Round.sent p.ledger (r.step peers p.world).2.transaction (r.step peers p.world).2.stage =
          Round.sent p.ledger r.transaction r.stage) :=
    h.aside distinct (ledger ▸ .refl _)
      (ledger ▸ h.accounts.go hi there others (ledger ▸ steady) goes) batches idle called
  cases effect with
  | idles ended world round =>
    refine quiet (congrArg (fun w => w.store.ledger) world) (congrArg World.batches world) ?_ ?_
    · rw [advances_step hi, round]
      cases r.relayedTo? <;> rfl
    · rw [round]
      exact fun hr => absurd ended hr
  | ends ended still ledger batches =>
    exact quiet ledger batches (advances_eq_nil hi peers told still) fun hr => absurd ended hr
  | goes further holds ledger batches same =>
    refine quiet ledger batches (advances_eq_nil hi peers told fun n c hs => ?_)
      fun hr => ⟨?_, hm.transaction ▸ same⟩
    · rw [hs] at further
      exact further rfl
    · have hle := hm.rank_le
      omega
  | publishes u a batch here ledger batches there' =>
    have hh := (h.accounts.steady i r hi).holds
    rw [here] at hh
    obtain ⟨hk, hb⟩ := hh
    have hs : p.sends (.step i peers told) = [⟨i, batch⟩] := by
      simp [Pool.sends, batches]
    have hn := advances_eq_nil hi peers told (by simp [there'])
    have hl : (p.act (.step i peers told)).ledger = p.ledger := ledger
    rw [ledger] at steady
    have accounts := h.accounts.send hi there others steady
      (by rw [here]; exact Nat.succ_ne_zero 2) hb (by rw [here]; rfl)
      (by rw [there', hm.transaction]; exact hk.parcels)
    rw [hs, hn, List.append_nil, legs_eq_nil (congrArg Ledger.checkpoint ledger)]
    exact ⟨⟨h.tidy.act distinct _, faithful, h.guarded.act _, hl ▸ accounts, called, h.movers⟩, rfl⟩
  | moves n here ledger batches there' =>
    have hh := (h.accounts.steady i r hi).holds
    rw [here] at hh
    have hn : p.advances (.step i peers told) =
        [⟨i, ⟨r.transaction.aggregateId, ⟨p.ledger.checkpoint.last, r.transaction.sequence⟩⟩⟩] := by
      rw [advances_step hi]
      simp [Round.relayedTo?, here, there']
    have hl : (p.act (.step i peers told)).ledger =
        { p.ledger with checkpoint := ⟨r.transaction.sequence⟩ } := ledger
    have holds : r.holdsCheckpoint = true := by
      rw [Round.holdsCheckpoint, here]
      rfl
    have accounts := h.accounts.advance hi there others (hm.fresh (h.accounts.steady i r hi).fresh)
      (by rw [here]; exact Nat.succ_ne_zero 0) (by rw [there']; rfl) hh.1 hlog
      (by rw [here]; rfl) fun j q => h.guarded.apart hi holds
    rw [sends_eq_nil batches, hn, List.append_nil,
      legs_eq_of_ahead (by rw [roundOf, hi]; rfl) hh.1 (congrArg Ledger.checkpoint hl)]
    refine ⟨⟨h.tidy.act distinct _, faithful, h.guarded.act _, hl ▸ accounts, called, ?_⟩, rfl⟩
    intro d hd
    rcases List.mem_append.mp hd with hd | hd
    · exact h.movers d hd
    · obtain ⟨provider, hc⟩ := h.called i r hi
      rw [List.mem_singleton.mp hd]
      exact ⟨r.transaction, provider, hc, rfl, rfl⟩

end

theorem Reckons.step_request (h : p.Reckons calls sends done) (distinct : Call.Distinct calls)
    {i : ι} {r : Request σ} (hc : calls i = .request r) (peers : Peers σ) (told : Bool) :
    (p.act (.step i peers told)).Reckons calls (sends ++ p.sends (.step i peers told))
        (done ++ p.advances (.step i peers told)) ∧
      p.legs (.step i peers told) = (p.advances (.step i peers told)).map Advance.leg := by
  obtain ⟨y, hy, -⟩ := h.tidy.sound.agent_request hc
  obtain ⟨later, tidy⟩ := h.tidy.step_request distinct hc peers told
  have there := agents_step_task hy peers told
  have rounds (j : ι) (q : Round σ) :
      (p.act (.step i peers told)).agents j = .task (.round q) ↔
        p.agents j = .task (.round q) := by
    by_cases hji : j = i
    · subst hji
      rw [there, hy]
      simp [Task.step]
    · simp [Pool.act, hji]
  refine h.aside distinct later ?_ ?_ (by simp [advances, hy])
    fun j q hj => h.called j q ((rounds j q).mp hj)
  · exact (h.accounts.mono later h.tidy.sound.ledger.toDense tidy.sound.ledger.toDense).same rounds
  · rw [world_step_task hy]
    exact (y.step_move peers p.world).batches

theorem Reckons.cancel (h : p.Reckons calls sends done) (distinct : Call.Distinct calls)
    (tasks : ∀ i, ∃ t, p.agents i = .task t) (i : ι) :
    (p.act (.cancel i)).Reckons calls (sends ++ p.sends (.cancel i))
        (done ++ p.advances (.cancel i)) ∧
      p.legs (.cancel i) = (p.advances (.cancel i)).map Advance.leg := by
  have ledger : (p.act (.cancel i)).ledger = p.ledger := (h.tidy.sound.knows i).cancel.1
  have others (j : ι) (hji : j ≠ i) : (p.act (.cancel i)).agents j = p.agents j := by
    simp [Pool.act, hji]
  obtain ⟨t, ht⟩ := tasks i
  have there := agents_cancel_task ht
  have hw := world_cancel_task ht
  cases t with
  | handling y =>
    have rounds (j : ι) (q : Round σ) : (p.act (.cancel i)).agents j = .task (.round q) ↔
        p.agents j = .task (.round q) := by
      by_cases hji : j = i
      · subst hji
        rw [there, ht]
        simp [Task.cancel]
      · rw [others j hji]
    refine h.aside distinct (ledger ▸ .refl _) (ledger ▸ h.accounts.same rounds) ?_ rfl
      fun j q hj => h.called j q ((rounds j q).mp hj)
    rw [hw]
    exact y.cancel_batches p.world
  | round r =>
    have hq : (p.act (.cancel i)).agents i = .task (.round (r.cancel p.world).2) := there
    have h0 := r.rank_cancel p.world
    have steady : (r.cancel p.world).2.Steady p.ledger :=
      Round.steady_of_unit?_eq_none ((h.accounts.steady i r ht).fresh.cancel p.world)
        (Round.unit?_of_rank_eq_zero h0) _
    refine h.aside distinct (ledger ▸ .refl _)
      (ledger ▸ h.accounts.go ht hq others steady (absurd h0)) ?_ rfl fun j q hj => ?_
    · rw [hw]
      exact r.cancel_batches p.world
    · by_cases hji : j = i
      · subst hji
        cases hq.symm.trans hj
        rw [r.transaction_cancel]
        exact h.called j r ht
      · exact h.called j q ((others j hji).symm.trans hj)

theorem Reckons.act (h : p.Reckons calls sends done) (distinct : Call.Distinct calls)
    (tasks : ∀ i provider source, calls i ≠ .consume provider source) {x : Action ι σ}
    (heard : p.strangers x = []) :
    (p.act x).Reckons calls (sends ++ p.sends x) (done ++ p.advances x) ∧
      p.legs x = (p.advances x).map Advance.leg := by
  have agents (i : ι) : ∃ t, p.agents i = .task t := by
    have hk := h.tidy.sound.knows i
    generalize hc : calls i = c at hk
    generalize p.agents i = a at hk
    cases hk with
    | request | relay => exact ⟨_, rfl⟩
    | consume => exact absurd hc (tasks i _ _)
  cases x with
  | step i peers told =>
    have hk := h.tidy.sound.knows i
    cases hc : calls i with
    | request r => exact h.step_request distinct hc peers told
    | relay t provider =>
      obtain ⟨r, hr⟩ : ∃ r, p.agents i = .task (.round r) := by
        rw [hc] at hk
        generalize p.agents i = a at hk
        cases hk with
        | relay => exact ⟨_, rfl⟩
      exact h.step_round hr peers told distinct heard
    | consume provider source => exact absurd hc (tasks i _ _)
  | cancel i => exact h.cancel distinct agents i
  | notify i place =>
    have same (j : ι) : (p.act (.notify i place)).agents j = p.agents j := by
      obtain ⟨t, ht⟩ := agents j
      rw [agents_act_of_not_isBy ht rfl, ht]
    have ledger := p.ledger_notify i place
    refine h.aside distinct (ledger ▸ .refl _) (ledger ▸ h.accounts.same fun j q => by rw [same])
      ?_ rfl fun j q hj => h.called j q ((same j).symm.trans hj)
    simp only [Pool.act]
    split <;> rfl
  | fail operations => exact h.aside distinct (.refl _) h.accounts rfl rfl h.called

theorem Reckons.run (h : p.Reckons calls [] []) (distinct : Call.Distinct calls)
    (tasks : ∀ i provider source, calls i ≠ .consume provider source) {acts : List (Action ι σ)}
    (heard : record strangers p acts = []) :
    (p.run acts).Reckons calls (record Pool.sends p acts) (record advances p acts) ∧
      record legs p acts = (record advances p acts).map Advance.leg := by
  induction acts using List.reverseRecOn with
  | nil => exact ⟨h, rfl⟩
  | append_singleton acts x ih =>
    rw [record_concat, List.append_eq_nil_iff] at heard
    obtain ⟨hr, hl⟩ := ih heard.1
    obtain ⟨hr', hl'⟩ := hr.act distinct tasks heard.2
    rw [run_append, record_concat, record_concat, record_concat, List.map_append, hl, hl']
    exact ⟨hr', rfl⟩

end

def relaying {κ : Type} (requests : ι → Request σ) (notified : κ → Transaction)
    (cap : κ → Uuid → Int) : ι ⊕ κ → Call σ
  | .inl i => .request (requests i)
  | .inr k => .relay (notified k) fun id => .new id (cap k id)

section
variable {κ : Type} {requests : ι → Request σ} (notified : κ → Transaction) (cap : κ → Uuid → Int)

omit [DecidableEq ι] in
theorem distinct_relaying (distinct : Function.Injective fun i => (requests i).transactionId) :
    Call.Distinct (relaying requests notified cap) := by
  rintro (i | k) (j | k') r s hr hs he
  · cases hr
    cases hs
    exact congrArg Sum.inl (distinct he)
  · cases hs
  · cases hr
  · cases hr

theorem reckons_relaying [DecidableEq κ] (requests : ι → Request σ) :
    (start {} (relaying requests notified cap)).Reckons (relaying requests notified cap) [] [] := by
  have agents {i : ι ⊕ κ} {r : Round σ}
      (hi : (start {} (relaying requests notified cap)).agents i = .task (.round r)) :
      ∃ k, i = .inr k ∧
        r = { transaction := notified k, provider := fun id => .new id (cap k id) } := by
    rcases i with i | k
    · cases hi
    · cases hi
      exact ⟨k, rfl, rfl⟩
  refine ⟨tidy_start _, Ledger.Faithful.empty, guarded_start _, ?_, fun i r hi => ?_, nofun⟩
  · refine ⟨fun i r hi => ?_, fun i r hi _ => ?_, fun _ _ _ _ => rfl, nofun, .nil, rfl, rfl,
      Int.le_refl 0⟩
    · obtain ⟨k, -, rfl⟩ := agents hi
      exact Round.steady_of_unit?_eq_none (fun id => ⟨cap k id, rfl⟩) rfl _
    · obtain ⟨k, -, rfl⟩ := agents hi
      rfl
  · obtain ⟨k, rfl, rfl⟩ := agents hi
    exact ⟨_, rfl⟩

end

/-- However many rounds there are beside requests, each notified of a transaction in the log, in
whatever order, again or not at all, whichever of them fail or are given up: the checkpoint moves
only when a round returns that it has relayed, from where it was before to where the round was
notified to move it, and always forward. What those rounds have had published are, one after
another, the events of the aggregate of each in its range. So an event that the checkpoint has gone
past was published by one of them if that whose range it is in was for its aggregate, and by none
if not; and of every aggregate they have had the events published in the order of their versions. -/
theorem partition_of_run [LawfulModel σ] {κ : Type} [DecidableEq κ] (requests : ι → Request σ)
    (distinct : Function.Injective fun i => (requests i).transactionId) (notified : κ → Transaction)
    (cap : κ → Uuid → Int) (acts : List (Action (ι ⊕ κ) σ))
    (heard : record strangers (start {} (relaying requests notified cap)) acts = []) :
    let p₀ : Pool (ι ⊕ κ) σ := start {} (relaying requests notified cap)
    let l := (p₀.run acts).ledger
    let done : List (Advance (ι ⊕ κ)) := record advances p₀ acts
    (Leg.Chain 0 (done.map Advance.leg) l.checkpoint.last ∧
      record legs p₀ acts = done.map Advance.leg) ∧
    ((done.map Advance.mover).Nodup ∧
      ∀ d ∈ done, ∃ k, d.mover = .inr k ∧ d.leg.aggregateId = (notified k).aggregateId ∧
        d.leg.range.upTo = (notified k).sequence) ∧
    (Sending.among (done.map Advance.mover) (record sends p₀ acts)).map Sending.told =
      (done.flatMap fun d => l.dispatch d.mover (l.batch d.leg.aggregateId d.leg.range)) ∧
    (∀ e ∈ l.events, l.Covers e → ∃ d ∈ done, l.isInRange d.leg.range e = true ∧ ∀ d' ∈ done,
      e ∈ l.within d'.leg.aggregateId d'.leg.range ↔
        d' = d ∧ e.aggregateId = d.leg.aggregateId) ∧
    ∀ id, ((done.flatMap fun d => l.within d.leg.aggregateId d.leg.range).filter
      (·.aggregateId = id)).Pairwise fun e f => e.version < f.version := by
  intro p₀ l done
  obtain ⟨h, hlegs⟩ := (reckons_relaying notified cap requests).run
    (distinct_relaying notified cap distinct) (by rintro (i | k) provider source <;> nofun) heard
  refine ⟨⟨h.accounts.chain, hlegs⟩, ⟨h.accounts.once, fun d hd => ?_⟩, h.accounts.sums,
    fun e he hc => h.accounts.exists_advance h.tidy.sound.ledger he hc,
    h.accounts.pairwise h.tidy.sound.ledger.toDense h.tidy.ordered⟩
  obtain ⟨t, provider, hc, ha, hs⟩ := h.movers d hd
  rcases hm : d.mover with i | k
  · rw [hm] at hc
    cases hc
  · rw [hm] at hc
    cases hc
    exact ⟨k, rfl, ha, hs⟩

def signedUpAs (k : Bool) : Transaction := ⟨.ofNat (1 + k.toNat), .ofNat (1 + k.toNat), 1 + k.toNat⟩

def besideEach : Pool (Bool ⊕ Bool) User :=
  start {} (relaying signUps signedUpAs fun _ _ => User.snapshotCap)

/-- Both sign up; that of the second is relayed first. -/
def secondFirst : List (Action (Bool ⊕ Bool) User) :=
  List.replicate 6 (.go (.inl false)) ++ List.replicate 6 (.go (.inl true)) ++
    List.replicate 8 (.go (.inr true)) ++ List.replicate 8 (.go (.inr false))

/-- Then the checkpoint moves past all events, of which those of the second user are published. -/
theorem partition_of_run_secondFirst :
    record strangers besideEach secondFirst = [] ∧
      record advances besideEach secondFirst = [⟨.inr true, ⟨.ofNat 2, ⟨0, 2⟩⟩⟩] ∧
      ∀ e ∈ (besideEach.run secondFirst).ledger.events,
        (besideEach.run secondFirst).ledger.Covers e →
          (e ∈ (besideEach.run secondFirst).ledger.within (.ofNat 2) ⟨0, 2⟩ ↔
            e.aggregateId = .ofNat 2) := by
  have distinct : Function.Injective fun i => (signUps i).transactionId := by
    intro i j
    revert i j
    decide
  have heard : record strangers besideEach secondFirst = [] := by decide
  have hdone : record advances besideEach secondFirst =
      [⟨.inr true, ⟨.ofNat 2, ⟨0, 2⟩⟩⟩] := by decide
  obtain ⟨-, -, -, hall, -⟩ := partition_of_run signUps distinct signedUpAs
    (fun _ _ => User.snapshotCap) secondFirst heard
  refine ⟨heard, hdone, fun e he hc => ?_⟩
  obtain ⟨d, hd, -, hiff⟩ := hall e he hc
  have hd' : d ∈ record advances besideEach secondFirst := hd
  rw [hdone, List.mem_singleton] at hd'
  subst hd'
  exact (hiff _ hd).trans (and_iff_right rfl)

end Pool
end Outbox
