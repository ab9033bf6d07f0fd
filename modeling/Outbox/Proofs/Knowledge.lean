import Outbox.Proofs.Load
import Outbox.Proofs.Run

/-! What those at work know of what is durable. Nothing durable is taken back, so whatever a
handling has read stays true while others commit; and if its commit goes through, what it stages
continues the stream it loaded. -/
namespace Outbox
variable {σ : Type} [Model σ]

namespace Request

def fresh (r : Request σ) : Aggregate σ := Aggregate.loaded r.aggregateId r.cap 0 Model.initial

def events (r : Request σ) (base : Int) : List (EventOf σ) :=
  Command.eventsAfter r.aggregateId r.transactionId r.command.commandType r.createdAt base
    r.command.events

/-- The aggregate after the events of the request on top of a version, in the state they led to. -/
def outcome (r : Request σ) (n : Nat) (s : σ) : Aggregate σ where
  id := r.aggregateId
  cap := r.cap
  version := n + r.command.events.length
  baseVersion := n
  changes := r.events n
  state := s

def unit (r : Request σ) (n : Nat) (s : σ) : UnitOfWork σ :=
  .writing r.transactionId (r.outcome n s)

def receipt (r : Request σ) (n : Nat) : Receipt :=
  ⟨r.aggregateId, r.transactionId, n + r.command.events.length⟩

def Writes (r : Request σ) (l : Ledger σ) (n : Nat) (s : σ) : Prop :=
  ∃ s₀, l.CanLoad r.aggregateId n s₀ ∧ Model.replay s₀ (r.events n) = .ok s

@[simp] theorem length_events (r : Request σ) (base : Int) :
    (r.events base).length = r.command.events.length := Command.length_eventsAfter ..

theorem numbered_events (r : Request σ) (base : Int) : Event.Numbered base (r.events base) :=
  Event.numbered_eventsAfter ..

theorem of_mem_events {r : Request σ} {base : Int} {e : EventOf σ} (h : e ∈ r.events base) :
    e.aggregateId = r.aggregateId ∧ e.transactionId = r.transactionId := by
  unfold events at h
  generalize r.command.events = ws at h
  induction ws generalizing base with
  | nil => simp [Command.eventsAfter] at h
  | cons w ws ih =>
    rcases List.mem_cons.mp h with rfl | h
    · exact ⟨rfl, rfl⟩
    · exact ih h

theorem coherent_outcome (r : Request σ) (n : Nat) (s : σ) : (r.outcome n s).Coherent where
  numbered := r.numbered_events n
  own _ he := (of_mem_events he).1
  version := by simp [outcome]

theorem mem_snapshots_unit {r : Request σ} {n : Nat} {s : σ} {x : SnapshotOf σ} :
    x ∈ (r.unit n s).snapshots ↔ (r.outcome n s).snapshotDue = true ∧
      x = ⟨r.aggregateId, n + r.command.events.length, Model.snapshot s⟩ := by
  by_cases hd : (r.outcome n s).snapshotDue = true
  · simp only [unit, UnitOfWork.writing, hd, if_true, List.mem_singleton, true_and]
    rfl
  · simp [unit, UnitOfWork.writing, hd]

/-- What an open handling of the request holds and was given, by its stage. -/
def Holds (r : Request σ) (l : Ledger σ) (a : Aggregate σ) : Handling.Stage σ → Prop
  | .waiting => a = r.fresh
  | .opened u => u = {} ∧ a = r.fresh
  | .sawSnapshot u found =>
    u = {} ∧ a = r.fresh ∧
      ∀ x, found = .ok (some x) → x ∈ l.snapshots ∧ x.aggregateId = r.aggregateId
  | .sawEvents u found =>
    u = {} ∧ ∃ n s, l.CanLoad r.aggregateId n s ∧ a = .loaded r.aggregateId r.cap n s ∧
      ∀ es, found = .ok es → es <+: (l.stream r.aggregateId).drop n
  | .staged u result =>
    result = .ok () → ∃ n s, r.Writes l n s ∧ a = r.outcome n s ∧ u = r.unit n s
  | .saved u _ => ∃ n s, r.Writes l n s ∧ a = r.outcome n s ∧ u = r.unit n s
  | .ended _ => True
  | .cancelled => True

/-- A handling of the request, as far as it is. -/
structure Knows (r : Request σ) (l : Ledger σ) (h : Handling σ) : Prop where
  command : h.command = r.command
  transactionId : h.transactionId = r.transactionId
  createdAt : h.createdAt = r.createdAt
  holds : r.Holds l h.aggregate h.stage

theorem knows_handling (r : Request σ) (l : Ledger σ) : r.Knows l r.handling :=
  ⟨rfl, rfl, rfl, Aggregate.new_eq_loaded ..⟩

theorem Writes.mono {r : Request σ} {l m : Ledger σ} (h : l.Grows m) {n : Nat} {s : σ}
    (hw : r.Writes l n s) : r.Writes m n s := by
  obtain ⟨s₀, hl, hr⟩ := hw
  exact ⟨s₀, hl.mono h, hr⟩

theorem Knows.mono {r : Request σ} {l m : Ledger σ} (h : l.Grows m) {x : Handling σ}
    (hk : r.Knows l x) : r.Knows m x := by
  refine ⟨hk.command, hk.transactionId, hk.createdAt, ?_⟩
  have hh := hk.holds
  cases hs : x.stage with
  | waiting | opened => simpa only [Holds, hs] using hh
  | ended | cancelled => trivial
  | sawSnapshot u found =>
    rw [hs] at hh
    obtain ⟨hu, ha, hx⟩ := hh
    refine ⟨hu, ha, fun x hf => ?_⟩
    exact ⟨h.snapshots.subset (hx x hf).1, (hx x hf).2⟩
  | sawEvents u found =>
    rw [hs] at hh
    obtain ⟨hu, n, s, hl, ha, he⟩ := hh
    exact ⟨hu, n, s, hl.mono h, ha, fun es hf => (he es hf).trans (h.drop_stream _ n)⟩
  | staged u result =>
    rw [hs] at hh
    intro hr
    obtain ⟨n, s, hw, ha, hu⟩ := hh hr
    exact ⟨n, s, hw.mono h, ha, hu⟩
  | saved u result =>
    rw [hs] at hh
    obtain ⟨n, s, hw, ha, hu⟩ := hh
    exact ⟨n, s, hw.mono h, ha, hu⟩

theorem advanceAll_eq_ok {r : Request σ} {n : Nat} {s : σ} {b : Aggregate σ}
    (h : (Aggregate.loaded r.aggregateId r.cap n s).advanceAll (r.events n) = (b, .ok ())) :
    ∃ t, Model.replay s (r.events n) = .ok t ∧ b = r.outcome n t := by
  obtain ⟨t, ht, rfl⟩ := Aggregate.advanceAll_eq_ok (r.numbered_events n) h
  exact ⟨t, ht, by simp [Aggregate.loaded, outcome]⟩

theorem Knows.leads {r : Request σ} {l : Ledger σ} {h : Handling σ} (hl : l.Sound)
    (hk : r.Knows l h) {u : UnitOfWork σ} {es : List (EventOf σ)} {a b : Aggregate σ}
    (here : h.stage = .sawEvents u (.ok es)) (loaded : h.aggregate.build es = (a, .ok ()))
    (changed : a.advanceAll (h.newEvents a.version) = (b, .ok ())) :
    u = {} ∧ ∃ (n : Nat) (s : σ), h.aggregate.version = n ∧ r.Writes l (n + es.length) s ∧
      b = r.outcome (n + es.length) s := by
  obtain ⟨hc, ht, hw, hh⟩ := hk
  rw [here] at hh
  obtain ⟨hu, n, s, hs, ha, he⟩ := hh
  rw [ha] at loaded
  obtain ⟨t, hs', rfl⟩ := hl.build hs (he es rfl) loaded
  have he : h.newEvents (n + es.length : Nat) = r.events (n + es.length : Nat) := by
    simp only [Handling.newEvents, events, hc, ht, hw, ha, Aggregate.loaded]
  have hv : (Aggregate.loaded r.aggregateId r.cap (n + es.length : Nat) t).version =
      (n + es.length : Nat) := rfl
  rw [hv, he] at changed
  obtain ⟨t', ht', rfl⟩ := advanceAll_eq_ok changed
  exact ⟨hu, n, t', by rw [ha]; rfl, ⟨t, hs', ht'⟩, rfl⟩

/-- Whatever a handling does, it leaves the ledger alone, or it commits what the request leads to
from the end of its stream. -/
theorem Knows.move {r : Request σ} {peers : Peers σ} {w w' : World σ} {h h' : Handling σ}
    (hl : w.store.ledger.Sound) (hk : r.Knows w.store.ledger h)
    (hm : Handling.Move peers w h w' h') :
    (w'.store.ledger = w.store.ledger ∧ r.Knows w.store.ledger h' ∧
      h'.receipt? = h.receipt?) ∨
    ∃ n s, r.Writes w.store.ledger n s ∧ w.store.ledger.outdated (r.unit n s) = none ∧
      w'.store.ledger = w.store.ledger.absorb (r.unit n s) ∧ h.receipt? = none ∧
      h' = { h with stage := .ended (.ok (r.receipt n)) } := by
  obtain ⟨hc, ht, hw, hh⟩ := hk
  have hn {stage : Handling.Stage σ} (here : h.stage = stage) (goes : stage.rank ≠ 0) :
      none = h.receipt? := by
    cases stage <;> simp_all [Handling.receipt?, Handling.Stage.rank]
  cases hm with
  | idle ended => exact .inl ⟨rfl, ⟨hc, ht, hw, hh⟩, rfl⟩
  | refused x here denied => exact .inl ⟨rfl, ⟨hc, ht, hw, trivial⟩, hn here (Nat.succ_ne_zero _)⟩
  | opens here =>
    rw [here] at hh
    exact .inl ⟨rfl, ⟨hc, ht, hw, rfl, hh⟩, hn here (Nat.succ_ne_zero _)⟩
  | looks u here =>
    rw [here] at hh
    obtain ⟨hu, ha⟩ := hh
    refine .inl ⟨rfl, ⟨hc, ht, hw, hu, ha, fun x hx => ?_⟩, hn here (Nat.succ_ne_zero _)⟩
    rw [ha] at hx
    obtain ⟨hs, ho, _⟩ := Ledger.mem_of_latestSnapshot (Store.readSnapshot_eq_ok hx)
    exact ⟨hs, ho⟩
  | resumes u found a here loaded =>
    rw [here] at hh
    obtain ⟨hu, ha, hf⟩ := hh
    rw [ha] at loaded
    obtain ⟨n, s, hs, rfl⟩ := hl.resume (fun x hx => hf x (by rw [hx])) loaded
    refine .inl ⟨rfl, ⟨hc, ht, hw, hu, n, s, hs, rfl, fun es he => ?_⟩,
      hn here (Nat.succ_ne_zero _)⟩
    have hb := Store.readEvents_eq_ok he
    rw [← hb]
    exact (hl.eventsBetween r.aggregateId n).symm ▸ List.prefix_refl _
  | stages u es a b n here loaded changed =>
    obtain ⟨rfl, n, t', -, hws, rfl⟩ := Knows.leads hl ⟨hc, ht, hw, hh⟩ here loaded changed
    rcases w.store.stage_cases h.transactionId (r.outcome (n + es.length) t') with
      ⟨x, -, hst⟩ | ⟨-, hst⟩ | ⟨-, hst⟩
    · exact .inl ⟨by rw [hst], ⟨hc, ht, hw, by simp [Holds, hst]⟩, hn here (Nat.succ_ne_zero _)⟩
    · exact .inl ⟨by rw [hst], ⟨hc, ht, hw, by simp [Holds, hst]⟩, hn here (Nat.succ_ne_zero _)⟩
    · refine .inl ⟨by rw [hst], ⟨hc, ht, hw, ?_⟩, hn here (Nat.succ_ne_zero _)⟩
      rw [hst]
      exact fun _ => ⟨_, _, hws, rfl, by rw [ht]; rfl⟩
  | saves u here =>
    rw [here] at hh
    exact .inl ⟨by rw [World.save_store], ⟨hc, ht, hw, hh rfl⟩, hn here (Nat.succ_ne_zero _)⟩
  | commits u n here fresh =>
    rw [here] at hh
    obtain ⟨n, s, hs, ha, rfl⟩ := hh
    refine .inr ⟨n, s, hs, fresh, rfl, (hn here (Nat.succ_ne_zero _)).symm, ?_⟩
    simp [Handling.intended, receipt, ha, ht, outcome]
  | fails u a x ns here =>
    have ho : h.stage.rank ≠ 0 := by
      intro hr
      cases hs : h.stage <;> simp_all [Handling.Stage.rank, Handling.Stage.unit?]
    exact .inl ⟨rfl, ⟨hc, ht, hw, trivial⟩, hn rfl ho⟩

end Request

namespace Ledger

theorem log_absorb_unit (l : Ledger σ) (r : Request σ) (n : Nat) (s : σ) :
    (l.absorb (r.unit n s)).log = l.log ++ [⟨r.transactionId, r.aggregateId, l.nextSequence⟩] := rfl

theorem stream_absorb_unit (l : Ledger σ) (r : Request σ) (n : Nat) (s : σ) (id : Uuid) :
    (l.absorb (r.unit n s)).stream id =
      l.stream id ++ if id = r.aggregateId then r.events n else [] :=
  stream_absorb_writing l _ _ (r.coherent_outcome n s) id

theorem Sound.length_stream {l : Ledger σ} (h : l.Sound) {r : Request σ} {n : Nat} {s : σ}
    (hf : l.outdated (r.unit n s) = none) : (l.stream r.aggregateId).length = n := by
  have hv : l.version r.aggregateId = n := outdated_writing.mp hf
  rw [h.version] at hv
  omega

theorem Sound.canLoad_absorb {l : Ledger σ} (h : l.Sound) {r : Request σ} {n : Nat} {s : σ}
    (hw : r.Writes l n s) (hf : l.outdated (r.unit n s) = none) :
    (l.absorb (r.unit n s)).CanLoad r.aggregateId (n + r.command.events.length) s := by
  obtain ⟨s₀, hl, hr⟩ := hw
  have hd : ((l.absorb (r.unit n s)).stream r.aggregateId).drop n = r.events n := by
    rw [stream_absorb_unit, if_pos rfl, ← h.length_stream hf, List.drop_left]
  have hp : r.events n <+: ((l.absorb (r.unit n s)).stream r.aggregateId).drop n :=
    hd.symm ▸ List.prefix_refl _
  have hg := grows_absorb_writing l r.transactionId (r.outcome n s)
  have hc := (hl.mono hg).replay hp hr
  rwa [Request.length_events] at hc

theorem Sound.absorb_unit {l : Ledger σ} (h : l.Sound) {r : Request σ} {n : Nat} {s : σ}
    (hw : r.Writes l n s) (hf : l.outdated (r.unit n s) = none) :
    (l.absorb (r.unit n s)).Sound where
  toDense := h.toDense.absorb_writing (r.coherent_outcome n s) hf
  snapshot x hx := by
    have hg := grows_absorb_writing l r.transactionId (r.outcome n s)
    rcases List.mem_append.mp hx with hx | hx
    · obtain ⟨k, t, hv, h1, hk, ht, hp⟩ := h.snapshot x hx
      exact ⟨k, t, hv, h1, Nat.le_trans hk (hg.length_stream _), ht.mono hg, hp⟩
    · obtain ⟨hd, rfl⟩ := Request.mem_snapshots_unit.mp hx
      have hv : (n : Int) < n + r.command.events.length := Aggregate.lt_of_snapshotDue hd
      have hc := h.canLoad_absorb hw hf
      refine ⟨n + r.command.events.length, s, Int.natCast_add .. |>.symm, by omega, ?_, hc, rfl⟩
      have hs := l.stream_absorb_unit r n s r.aggregateId
      rw [if_pos rfl] at hs
      simp only [hs, List.length_append, h.length_stream hf, Request.length_events, Nat.le_refl]
  place k t ht := by
    rw [log_absorb_unit, List.getElem?_append] at ht
    split at ht
    · exact h.place k t ht
    · next hk =>
      obtain ⟨he, rfl⟩ := List.getElem?_eq_some_iff.mp ht
      simp only [List.length_singleton] at he
      simp only [List.getElem_singleton, h.nextSequence]
      omega

end Ledger
end Outbox
